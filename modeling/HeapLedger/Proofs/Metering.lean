import HeapLedger.Proofs.Billing

/-!
# Contexts and the memory of an allocator

An allocator that knows nobody but one service has it charged with what it reserves. So as long as nobody else charges
anything, no charge is skipped and no addition is cut off, all contexts together hold more by what the allocator has
reserved, once for each registration: whatever sizes are asked for, whoever frees a block, and whatever becomes of
scopes, threads and contexts meanwhile.
-/

namespace HeapLedger

open Ledger

/-! ## What goes on meanwhile -/

/-- How a ledger goes on while nothing is charged but the blocks of one allocator. The memory behind the allocator may
change its mind about the usable size of any block that is not in use. -/
inductive Metered (m : AllocatorId) (h₀ : Holdings) (l₀ : Ledger) : Holdings → Ledger → Prop
  | here : Metered m h₀ l₀ h₀ l₀
  | start {h l} (hm : Metered m h₀ l₀ h l) : Metered m h₀ l₀ h l.newThread.1
  /-- A call of which no charge is skipped. Where the thread is inside the hook, it gives rise to none. -/
  | call {h l t a new} (hm : Metered m h₀ l₀ h l) (ht : t < l.threads.size) (he : t ∉ h.ended) (ha : l.Admits h a)
      (hc : a.Calls l m) (hj : (l.perform t a).1.journal = new ++ l.journal) (hu : Unskipped new)
      (hq : l.inHook t = true → reports (l.perform t a).1.journal = reports l.journal)
      (hs : (l.perform t a).1.Moderate m) : Metered m h₀ l₀ (h.after t a (l.perform t a).2) (l.perform t a).1
  /-- Anything else that makes no context take anything in. -/
  | other {h l t a new} (hm : Metered m h₀ l₀ h l) (ht : t < l.threads.size) (he : t ∉ h.ended) (ha : l.Admits h a)
      (hc : ¬ a.Calls l m) (hi : ¬ a.Equips m) (hb : ∀ s d, a ≠ .chargeBare s d)
      (hj : (l.perform t a).1.journal = new ++ l.journal) (hn : ∀ e ∈ new, e.intake? = none) :
      Metered m h₀ l₀ (h.after t a (l.perform t a).2) (l.perform t a).1
  | resize {h l} {u : UsableSize} (hm : Metered m h₀ l₀ h l)
      (hu : ∀ a layout, l.heap.find? a = some ⟨m, layout⟩ → u a layout = (l.allocator m).usable a layout) :
      Metered m h₀ l₀ h (l.modifyAllocator m fun al => { al with usable := u })

/-! ## What is kept meanwhile -/

structure Orderly (s : ServiceId) (h : Holdings) (l : Ledger) : Prop where
  sound : Sound l
  carries : Carries l
  held : Held h l
  fed : Fed l
  idle : ∀ t, (l.thread t).carriedFor s = 0

section
variable {m : AllocatorId} {s : ServiceId} {h h₀ : Holdings} {l l' l₀ : Ledger} {t : ThreadId} {a : Action}

theorem Moves.lasting {i i' : Moment} (hs : Sound i.1) (h : Moves t i i') : Lasting i.1 i'.1 :=
  (Passes.sound_onward hs h.passes).2.toLasting

theorem Orderly.perform (hk : Orderly s h l) (ht : t < l.threads.size) (ha : l.Admits h a) (hb : NeverBare s t a) :
    Orderly s (h.after t a (l.perform t a).2) (l.perform t a).1 ∧ Lasting l (l.perform t a).1 := by
  have hready : Ready t l := ⟨hk.sound, hk.carries, ht⟩
  have hmoves := perform_moves hk.held hready ha
  have hafter := Moves.ready hready hmoves
  refine ⟨⟨hafter.sound, hafter.carries, hk.held.perform hready ha, (Moves.flows hready hmoves).fed hk.fed, fun j => ?_⟩,
    Moves.lasting hk.sound hmoves⟩
  by_cases hj : j = t
  · subst hj
    exact carriedFor_perform hb ht (hk.idle j)
  · exact (Thread.carriedFor_congr (Moves.rests hk.sound hj hmoves).1.carry s).trans (hk.idle j)

theorem Orderly.tending (hk : Orderly s h l) (hm : Tending t (l, []) (l', []))
    (hi : ∀ j, (l'.thread j).carriedFor s = 0) : Orderly s h l' ∧ Lasting l l' where
  left := ⟨hm.sound hk.sound, hm.carries hk.carries, hk.held.still hm.still, (hm.flows hk.sound).fed hk.fed, hi⟩
  right := Moves.lasting hk.sound (.single (.tending hm))

theorem Orderly.newThread (hk : Orderly s h l) : Orderly s h l.newThread.1 ∧ Lasting l l.newThread.1 := by
  refine hk.tending (t := 0) .newThread fun j => ?_
  rw [thread_newThread]
  exact hk.idle j

/-! ## Other usable sizes -/

theorem table_resize (l : Ledger) (u : UsableSize) (m j : AllocatorId) :
    ((l.modifyAllocator m fun al => { al with usable := u }).allocator j).table = (l.allocator j).table :=
  Table.get_modify_of_eq l.allocators m j Allocator.table fun _ => rfl

theorem Orderly.resize (hk : Orderly s h l) (u : UsableSize) (m : AllocatorId) :
    Orderly s h (l.modifyAllocator m fun al => { al with usable := u }) ∧
      Lasting l (l.modifyAllocator m fun al => { al with usable := u }) := by
  refine hk.tending (t := 0) (.allocators fun j s hs => ?_) hk.idle
  have hadapter : .adapter s ∈ (l.allocator j).table.filled := table_resize l u m j ▸ hs
  exact hk.sound.hook_services j s hadapter

theorem intact_resize {u : UsableSize}
    (hu : ∀ a layout, l.heap.find? a = some ⟨m, layout⟩ → u a layout = (l.allocator m).usable a layout) :
    Intact m l (l.modifyAllocator m fun al => { al with usable := u }) where
  blocks _ _ := Iff.rfl
  hooks := congrArg HookTable.hooks (table_resize l u m m)
  usable a layout hblock := by
    show ((l.allocators.modify m _).get m).usable a layout = _
    rw [Table.get_modify]
    split
    · exact hu a layout hblock
    · rfl
  allocators_size := Nat.le_of_eq (Table.size_modify ..).symm

/-! ## What is taken in meanwhile -/

/-- Contexts have taken in as many times what the allocator has reserved as the service is registered. -/
structure Tally (m : AllocatorId) (s : ServiceId) (k : Nat) (l₀ : Ledger) (h : Holdings) (l : Ledger) : Prop where
  orderly : Orderly s h l
  lasting : Lasting l₀ l
  lt : m < l.allocators.size
  hooks : (l.allocator m).hooks = List.replicate k (.adapter s)
  moderate : l.Moderate m
  taken : ∃ since, l.journal = since ++ l₀.journal ∧ taken since = k * l.reserved m

variable {k : Nat}

theorem Tally.step (ht : Tally m s k l₀ h l) {h' : Holdings} (hk : Orderly s h' l' ∧ Lasting l l')
    (hlt : l.allocators.size ≤ l'.allocators.size) (hh : (l'.allocator m).hooks = (l.allocator m).hooks)
    (hm : l'.Moderate m) {new : List Entry} (hj : l'.journal = new ++ l.journal)
    (hn : HeapLedger.taken new = k * (l'.reserved m - l.reserved m)) : Tally m s k l₀ h' l' := by
  obtain ⟨since, hsince, htaken⟩ := ht.taken
  refine ⟨hk.1, ht.lasting.trans hk.2, Nat.lt_of_lt_of_le ht.lt hlt, hh.trans ht.hooks, hm, new ++ since, ?_, ?_⟩
  · rw [hj, hsince, List.append_assoc]
  · rw [taken_append, hn, htaken, ← Int.mul_add, Int.sub_add_cancel]

theorem hooks_of_call (ha : l.Admits h a) (hc : a.Calls l m) :
    ((l.perform t a).1.allocator m).hooks = (l.allocator m).hooks := by
  cases hc with
  | allocate layout granted => exact (allocate_faithful layout ha.2).hooks m
  | deallocate hblock => exact (deallocate_faithful _).hooks m
  | reallocate hblock size granted => exact (reallocate_faithful _ size ha.2).hooks m

theorem allocators_size_of_call (hc : a.Calls l m) : (l.perform t a).1.allocators.size = l.allocators.size := by
  have hcount : ∀ l' : Ledger, (l'.countCall t m).allocators.size = l'.allocators.size := fun _ =>
    (tells_countCall m).allocators_size
  have hhooks : ∀ l' kind a layout, (runHooks l' t m kind a layout).allocators.size = l'.allocators.size :=
    fun l' kind a layout => (runHooks_tells l' t m kind a layout).allocators_size
  have hfreed : ∀ a layout, ((l.runHooks t m .free a layout).countCall t m).allocators.size = l.allocators.size :=
    fun a layout => (hcount _).trans (hhooks l .free a layout)
  cases hc with
  | allocate layout granted =>
    show (l.allocate t m layout granted).allocators.size = _
    unfold allocate
    cases granted with
    | none => exact hcount l
    | some a => exact (hhooks _ .alloc a layout).trans (hcount l)
  | @deallocate a layout hblock =>
    show (l.deallocate t a).allocators.size = _
    unfold deallocate
    rw [hblock]
    exact hfreed a layout
  | @reallocate a layout hblock size granted =>
    show (l.reallocate t a size granted).allocators.size = _
    unfold reallocate
    rw [hblock]
    cases granted with
    | none => exact (hhooks _ .alloc a layout).trans (hfreed a layout)
    | some a' => exact (hhooks _ .alloc a' _).trans (hfreed a layout)

/-- What a call makes contexts take in is what it reserves or gives up, once for each registration. -/
theorem Tally.bill (ht : Tally m s k l₀ h l) (hlt : t < l.threads.size) (ha : l.Admits h a) (hc : a.Calls l m)
    {new : List Entry} (hj : (l.perform t a).1.journal = new ++ l.journal) (hu : Unskipped new)
    (hq : l.inHook t = true → reports (l.perform t a).1.journal = reports l.journal)
    (hs : (l.perform t a).1.Moderate m) :
    HeapLedger.taken new = k * ((l.perform t a).1.reserved m - l.reserved m) := by
  cases hn : l.inHook t with
  | false =>
    obtain ⟨-, billed, hbilled, htaken⟩ := call_bills ht.hooks ⟨hlt, hn, ht.orderly.idle t⟩ ha hc ht.moderate hs
    obtain rfl : new = billed := List.append_cancel_right (hj.symm.trans hbilled)
    exact htaken hu
  | true =>
    rcases unhooked_of_quiet hc (hq hn) with hnone | ⟨layout, rfl⟩
    · have hk : k = 0 := by simpa [hnone] using ht.hooks.symm
      obtain rfl : new = [] := List.append_left_eq_self.mp (hj.symm.trans (journal_of_unhooked hnone hc))
      rw [hk, Nat.cast_zero, Int.zero_mul]
      rfl
    · cases hc with
      | allocate =>
        have hintact : Intact m l (l.countCall t m) := (tells_countCall m).intact
        obtain rfl : new = [] := List.append_left_eq_self.mp (hj.symm.trans (journal_countCall l t m))
        show (0 : Int) = k * ((l.countCall t m).reserved m - l.reserved m)
        rw [hintact.reserved, Int.sub_self, Int.mul_zero]

theorem Tally.call (ht : Tally m s k l₀ h l) (hlt : t < l.threads.size) (ha : l.Admits h a) (hc : a.Calls l m)
    {new : List Entry} (hj : (l.perform t a).1.journal = new ++ l.journal) (hu : Unskipped new)
    (hq : l.inHook t = true → reports (l.perform t a).1.journal = reports l.journal)
    (hs : (l.perform t a).1.Moderate m) :
    Tally m s k l₀ (h.after t a (l.perform t a).2) (l.perform t a).1 := by
  have hb : NeverBare s t a := by
    rintro d rfl
    cases hc
  exact ht.step (ht.orderly.perform hlt ha hb) (Nat.le_of_eq (allocators_size_of_call hc).symm) (hooks_of_call ha hc) hs hj
    (ht.bill hlt ha hc hj hu hq hs)

theorem Tally.intact (ht : Tally m s k l₀ h l) {h' : Holdings} (hk : Orderly s h' l' ∧ Lasting l l') (ha : Intact m l l')
    {new : List Entry} (hj : l'.journal = new ++ l.journal) (hn : ∀ e ∈ new, e.intake? = none) :
    Tally m s k l₀ h' l' := by
  refine ht.step hk ha.allocators_size ha.hooks (ha.moderate ht.moderate) hj ?_
  rw [taken_eq_zero hn, ha.reserved, Int.sub_self, Int.mul_zero]

theorem Metered.tally (hk : Orderly s h₀ l₀) (hlt : m < l₀.allocators.size)
    (hh : (l₀.allocator m).hooks = List.replicate k (.adapter s)) (hn : ∀ a, l₀.Foreign m a)
    (hm : Metered m h₀ l₀ h l) : Tally m s k l₀ h l := by
  induction hm with
  | here =>
    refine ⟨hk, .refl l₀, hlt, hh, fun a layout hblock => absurd hblock (hn a layout), [], rfl, ?_⟩
    have hnothing : l₀.reserved m = 0 := Finset.sum_eq_zero fun a _ => footprint_of_foreign (hn a)
    rw [hnothing, Int.mul_zero]
    rfl
  | start _ ih =>
    exact ih.intact ih.orderly.newThread ⟨fun _ _ => Iff.rfl, rfl, fun _ _ _ => rfl, Nat.le_refl _⟩
      (List.nil_append _).symm fun _ he => by cases he
  | call _ ht he ha hc hj hu hq hs ih => exact ih.call ht ha hc hj hu hq hs
  | @other h l t a new _ ht he ha hc hi hb hj hq ih =>
    exact ih.intact (ih.orderly.perform ht ha (hb s)) (perform_intact t ih.lt ha hc hi) hj hq
  | resize _ hu ih =>
    exact ih.intact (ih.orderly.resize _ m) (intact_resize hu) (List.nil_append _).symm fun _ he => by cases he

end

/-! ## Balance -/

/-- A service that nobody charges but as a service is registered a number of times with an allocator that has no other
hooks and no block in use. From then on, whatever calls are made to the allocator and whatever is done between them, as
long as nothing else is charged, no charge is skipped and no addition is cut off: contexts together hold more, in what
they have pending and what they have committed, by as many times what the allocator has reserved as the service is
registered. -/
theorem level_follows_reserved {m : AllocatorId} {s : ServiceId} {k : Nat} {h₀ h : Holdings} {l₀ l : Ledger}
    {since : List Entry} (hr : RunOf (NeverBare s) h₀ l₀) (hlt : m < l₀.allocators.size)
    (hh : (l₀.allocator m).hooks = List.replicate k (.adapter s)) (hn : ∀ a, l₀.Foreign m a)
    (hm : Metered m h₀ l₀ h l) (hj : l.journal = since ++ l₀.journal) (he : Exact l₀ l since) :
    l.level - l₀.level = k * l.reserved m := by
  obtain ⟨hsound, hcarries, hheld⟩ := hr.run.reach
  have horderly : Orderly s h₀ l₀ := ⟨hsound, hcarries, hheld, hr.run.fed, hr.carriedFor⟩
  have htally := hm.tally horderly hlt hh hn
  obtain ⟨entries, hentries, htaken⟩ := htally.taken
  obtain rfl : since = entries := List.append_cancel_right (hj.symm.trans hentries)
  rw [level_since horderly.fed htally.orderly.fed htally.lasting hj he, htaken, add_sub_cancel_left]

/-! ## A block that moves -/

def wired : Ledger := ((unhooked.perform 0 (.register 0 0)).1.perform 0 (.register 0 0)).1

theorem runOf_wired : RunOf (NeverBare 0) { accounts := [⟨⟨1⟩, 0⟩] } wired := by
  have hstart : RunOf (NeverBare 0) {} (Ledger.newThread {}).1 := .start .nil
  have hservice := hstart.act (t := 0) (a := .newService { threshold := 10 }) (by decide) (by decide)
    (fun _ h => by cases h) fun _ => nofun
  have hopen := hservice.act (t := 0) (a := .openAccount 0 0) (by decide) (by decide) (by constructor <;> decide)
    fun _ => nofun
  have henter := hopen.act (t := 0) (a := .enter ⟨⟨1⟩, 0⟩) (by decide) (by decide) (List.mem_cons_self ..) fun _ => nofun
  have hcharge := henter.act (t := 0) (a := .charge 0 7) (by decide) (by decide) (show 0 < Table.size _ by decide)
    fun _ => nofun
  have hunhooked := hcharge.act (t := 0) (a := .newAllocator .exact) (by decide) (by decide) trivial fun _ => nofun
  have hfirst := hunhooked.act (t := 0) (a := .register 0 0) (by decide) (by decide) (by constructor <;> decide)
    fun _ => nofun
  exact hfirst.act (t := 0) (a := .register 0 0) (by decide) (by decide) (by constructor <;> decide) fun _ => nofun

theorem run_wired : Run { accounts := [⟨⟨1⟩, 0⟩] } wired := runOf_wired.run

theorem moderate_of_entries {l : Ledger} {m : AllocatorId}
    (h : ∀ e ∈ l.heap.entries, ((l.allocator m).usable e.1 e.2.layout).toNat ≤ Delta.greatest) : l.Moderate m :=
  fun a layout hblock => h (a, ⟨m, layout⟩) (Directory.mem_of_find? hblock)

theorem Run.journal_suffix {h : Holdings} {l : Ledger} {t : ThreadId} {a : Action} (hr : Run h l)
    (ht : t < l.threads.size) (ha : l.Admits h a) : l.journal <:+ (l.perform t a).1.journal := by
  obtain ⟨hsound, hcarries, hheld⟩ := hr.reach
  have hready : Ready t l := ⟨hsound, hcarries, ht⟩
  exact (Moves.flows hready (perform_moves hheld hready ha)).journal_suffix

theorem journal_eq_take {older entries : List Entry} (h : older <:+ entries) :
    entries = entries.take (entries.length - older.length) ++ older := (List.suffix_iff_eq_append.mp h).symm

def stocked : Ledger := (wired.perform 0 (.allocate 0 ⟨8, 8⟩ (some 16))).1.newThread.1

theorem run_stocked : Run { accounts := [⟨⟨1⟩, 0⟩] } stocked :=
  (run_wired.act (t := 0) (a := .allocate 0 ⟨8, 8⟩ (some 16)) (by decide) (by decide) (by constructor <;> decide)).start

def restocked : Ledger := (stocked.perform 1 (.reallocate 16 24 (some 64))).1

theorem admits_stocked : wired.Admits { accounts := [⟨⟨1⟩, 0⟩] } (.allocate 0 ⟨8, 8⟩ (some 16)) := by
  constructor <;> decide

theorem admits_restocked : stocked.Admits { accounts := [⟨⟨1⟩, 0⟩] } (.reallocate 16 24 (some 64)) := by
  constructor <;> decide +kernel

theorem metered_restocked : Metered 0 { accounts := [⟨⟨1⟩, 0⟩] } wired { accounts := [⟨⟨1⟩, 0⟩] } restocked := by
  have hstocked : Metered 0 { accounts := [⟨⟨1⟩, 0⟩] } wired { accounts := [⟨⟨1⟩, 0⟩] } stocked := by
    refine .start (.call (t := 0) (a := .allocate 0 ⟨8, 8⟩ (some 16)) .here (by decide) (by decide) admits_stocked
      (.allocate ..) (journal_eq_take (run_wired.journal_suffix (by decide) admits_stocked)) ?_
      (fun hn => absurd hn (by decide +kernel)) ?_)
    · unfold Unskipped
      decide +kernel
    · exact moderate_of_entries (by decide +kernel)
  have hblock : stocked.heap.find? 16 = some ⟨0, ⟨8, 8⟩⟩ := by decide +kernel
  refine Metered.call (t := 1) (a := .reallocate 16 24 (some 64)) hstocked (by decide +kernel) (by decide)
    admits_restocked (.reallocate hblock ..)
    (journal_eq_take (run_stocked.journal_suffix (by decide +kernel) admits_restocked)) ?_
    (fun hn => absurd hn (by decide +kernel)) ?_
  · unfold Unskipped
    decide +kernel
  · exact moderate_of_entries (by decide +kernel)

theorem level_follows_reserved_restocked :
    RunOf (NeverBare 0) { accounts := [⟨⟨1⟩, 0⟩] } wired ∧ wired.level = 7 ∧ restocked.level = 7 + 2 * 24 := by
  have hforeign : ∀ a, wired.Foreign 0 a := by
    intro a layout hblock
    have hempty : wired.heap.find? a = none := rfl
    cases hempty.symm.trans hblock
  have hsince : wired.journal <:+ restocked.journal :=
    (run_wired.journal_suffix (by decide) admits_stocked).trans
      (run_stocked.journal_suffix (t := 1) (by decide +kernel) admits_restocked)
  have hexact : Exact wired restocked (restocked.journal.take (restocked.journal.length - wired.journal.length)) := by
    unfold Exact
    decide +kernel
  have hlevel := level_follows_reserved (s := 0) (k := 2) runOf_wired (by decide +kernel) rfl hforeign
    metered_restocked (journal_eq_take hsince) hexact
  have hreserved : restocked.reserved 0 = 24 := by decide +kernel
  have hwired : wired.level = 7 := by decide +kernel
  rw [hreserved, hwired] at hlevel
  exact ⟨runOf_wired, hwired, by omega⟩

end HeapLedger
