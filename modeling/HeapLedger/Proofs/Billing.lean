import HeapLedger.Proofs.HookFlag
import HeapLedger.Proofs.Level
import HeapLedger.Proofs.Reserved
import HeapLedger.Proofs.Written

/-!
# What calls to an allocator are billed

A service that is registered with an allocator is charged, for every block that is handed out or taken back, with the
usable size of the block, once for each registration. As long as none of these charges is skipped, contexts take in by
every call as many times what it has reserved or given up.
-/

namespace HeapLedger

open Ledger

def Entry.skips : Entry → Bool
  | charged v =>
    match v.charge with
    | .skipped _ => true
    | _ => false
  | _ => false

def Unskipped (entries : List Entry) : Prop := ∀ e ∈ entries, e.skips = false

theorem Delta.toInt_delta {usable : UInt64} (h : usable.toNat ≤ Delta.greatest) (kind : BlockEvent) :
    (kind.delta usable).toInt = step kind * usable.toNat := by
  have hsize : (Delta.ofSize usable).toInt = usable.toNat := by rw [Delta.toInt_ofSize, min_eq_left h]
  cases kind with
  | alloc => exact hsize.trans (Int.one_mul _).symm
  | free =>
    have hleast : Delta.least ≤ -(usable.toNat : Int) := by
      simp only [Delta.least, Delta.greatest] at h ⊢
      omega
    have hgreatest : -(usable.toNat : Int) ≤ Delta.greatest := by
      simp only [Delta.greatest]
      omega
    show (Delta.negClamped (Delta.ofSize usable)).toInt = -1 * (usable.toNat : Int)
    rw [Delta.negClamped, hsize, Delta.toInt_clamp_of_mem hleast hgreatest, Int.neg_one_mul]

namespace Ledger

/-- A thread outside of the hook, with nothing held for it from the service. -/
structure Payable (l : Ledger) (t : ThreadId) (s : ServiceId) : Prop where
  lt : t < l.threads.size
  out : l.inHook t = false
  carriedFor : (l.thread t).carriedFor s = 0

/-- Contexts take in an amount, unless a charge is skipped. -/
structure Bills (t : ThreadId) (s : ServiceId) (n : Int) (l l' : Ledger) : Prop where
  payable : l'.Payable t s
  journal : ∃ new, l'.journal = new ++ l.journal ∧ (Unskipped new → taken new = n)

section
variable {l l' l'' : Ledger} {t : ThreadId} {s : ServiceId} {m : AllocatorId} {k : Nat} {n n' : Int} {d : Delta}

theorem Bills.trans (h : Bills t s n l l') (h' : Bills t s n' l' l'') : Bills t s (n + n') l l'' := by
  obtain ⟨new, hnew, htaken⟩ := h.journal
  obtain ⟨newer, hnewer, htaken'⟩ := h'.journal
  refine ⟨h'.payable, newer ++ new, by rw [hnewer, hnew, List.append_assoc], fun hu => ?_⟩
  rw [taken_append, htaken' fun e he => hu e (List.mem_append_left _ he),
    htaken fun e he => hu e (List.mem_append_right _ he), Int.add_comm]

theorem bills_of_eq (h : l.Payable t s) (ht : l'.threads = l.threads) (hj : l'.journal = l.journal) : Bills t s 0 l l' where
  payable := ⟨ht ▸ h.lt, by rw [inHook, thread, ht]; exact h.out, by rw [thread, ht]; exact h.carriedFor⟩
  journal := ⟨[], hj, fun _ => rfl⟩

/-! ## Charges -/

theorem Payable.charge (h : l.Payable t s) (d : Delta) : (l.charge t s d).1.Payable t s := by
  obtain ⟨hlt, hheld⟩ := Built.turns (I := fun l => (l.thread t).carriedFor s = 0)
    (fun _ _ ht hl => carriedFor_turn ht hl) (charge_step t s d).handling h.lt h.carriedFor
  have hflags := (charge_step t s d).keepsHooks_outer l t
  exact ⟨hlt, (congrArg Prod.fst hflags).trans h.out, hheld⟩

theorem taken_outgoing {entries : List Entry} (h : ∀ e ∈ entries, e.Outgoing) : taken entries = 0 :=
  taken_eq_zero fun e he => (h e he).intake?

theorem taken_inquiry (l : Ledger) (t : ThreadId) (s : ServiceId) : taken (l.inquiry t s) = 0 :=
  taken_eq_zero (intake?_of_inquiry l t s)

/-- A charge that is not skipped is taken in, also one that is parked before. -/
theorem charge_bills (h : l.Payable t s) (d : Delta) : Bills t s d.toInt l (l.charge t s d).1 := by
  refine ⟨h.charge d, ?_⟩
  -- nothing was held before, so what the new context takes in of what was parked is the amount itself
  have hheld : ((l.thread t).carriedFor s).addClamped d = d := by
    rw [h.carriedFor]
    simp [Delta.addClamped, Delta.clamp_toInt]
  have hsum : ∀ after v, taken (after ++ .charged v :: l.inquiry t s) = taken after + worth (Entry.charged v).amount? := by
    intro after v
    rw [taken_append, taken_cons, taken_inquiry, Int.add_zero]
  have hnew : ∀ {after context}, (l.charge t s d).1.journal =
      after ++ .charged (l.verdict t s d context (l.charge t s d).2) :: (l.inquiry t s ++ l.journal) →
      (Unskipped (after ++ .charged (l.verdict t s d context (l.charge t s d).2) :: l.inquiry t s) →
        taken after + worth (Entry.charged (l.verdict t s d context (l.charge t s d).2)).amount? = d.toInt) →
      ∃ new, (l.charge t s d).1.journal = new ++ l.journal ∧ (Unskipped new → taken new = d.toInt) :=
    fun {after context} hj hd => ⟨_, hj.trans (by simp), fun hu => (hsum after _).trans (hd hu)⟩
  by_cases hp : (l.charge t s d).2 = .parked
  · obtain ⟨after, ⟨hjournal, -⟩, hnothing, hcarried⟩ := charge_written_of_parked h.lt hp
    rw [hheld] at hnothing hcarried
    have hsilent : (Entry.charged (l.verdict t s d (l.comesTo t s) (l.charge t s d).2)).amount? = none := by rw [hp]; rfl
    have hafter : taken after = d.toInt := by
      by_cases hz : d = 0
      · rw [hnothing hz, hz]
        rfl
      · obtain ⟨out, hout, rfl⟩ := hcarried hz
        rw [taken_append, taken_outgoing hout, Int.zero_add, taken_cons]
        exact Int.add_zero _
    exact hnew hjournal fun _ => by rw [hsilent, hafter]; exact Int.add_zero _
  · obtain ⟨after, ⟨hjournal, hcontext⟩, hafter⟩ := charge_written_of_not_parked h.out hp
    refine hnew hjournal fun hu => ?_
    rw [taken_outgoing hafter, Int.zero_add]
    have hskip := hu (.charged (l.verdict t s d (l.comesTo t s) (l.charge t s d).2)) (by simp)
    cases hcharge : (l.charge t s d).2 with
    | parked => exact absurd hcharge hp
    | skipped reason =>
      rw [hcharge] at hskip
      cases hskip
    | task | thread =>
      cases hc : l.comesTo t s with
      | some c => rfl
      | none =>
        rcases hcontext hc with hc | ⟨reason, hc⟩
        · cases hcharge.symm.trans hc
        · cases hcharge.symm.trans hc

/-! ## Hooks -/

theorem countCall_bills (h : l.Payable t s) (m : AllocatorId) : Bills t s 0 l (l.countCall t m) := by
  unfold countCall
  split <;> exact bills_of_eq h rfl rfl

theorem tellHook_bills (h : l.Payable t s) (kind : BlockEvent) (a : Address) (layout : Layout) (i : Nat) :
    Bills t s (kind.delta ((l.allocator m).usable a layout)).toInt l (tellHook t m kind a layout l (.adapter s, i)) := by
  let told : Ledger := l.post (.reported (l.report m kind a layout i))
  have htold : Bills t s 0 l told := ⟨⟨h.lt, h.out, h.carriedFor⟩, [_], rfl, fun _ => rfl⟩
  have hcount := countCall_bills htold.payable m
  have hcharge := (htold.trans hcount).trans
    (charge_bills hcount.payable (kind.delta ((l.allocator m).usable a layout)))
  rw [Int.zero_add, Int.zero_add] at hcharge
  exact hcharge

theorem tellHooks_bills (kind : BlockEvent) (a : Address) (layout : Layout) :
    ∀ {hooks : List (Hook × Nat)} {l : Ledger}, l.Payable t s → (∀ hook ∈ hooks, hook.1 = .adapter s) →
      Bills t s (hooks.length * (kind.delta ((l.allocator m).usable a layout)).toInt) l
        (hooks.foldl (tellHook t m kind a layout) l)
  | [], l, h, _ => by
    rw [List.length_nil, Nat.cast_zero, Int.zero_mul]
    exact bills_of_eq h rfl rfl
  | (hook, i) :: hooks, l, h, hs => by
    obtain rfl : hook = .adapter s := hs (hook, i) (List.mem_cons_self ..)
    have hfirst : Bills t s _ l _ := tellHook_bills (m := m) (s := s) h kind a layout i
    have hrest := tellHooks_bills kind a layout hfirst.payable fun hook' hh => hs hook' (List.mem_cons_of_mem _ hh)
    rw [(tellHook_tells l t m kind a layout (.adapter s, i)).usable] at hrest
    have hall := hfirst.trans hrest
    rwa [List.length_cons, Nat.cast_succ, Int.add_mul, Int.one_mul, Int.add_comm]

/-- A block is billed once for each registration. -/
theorem runHooks_bills (hh : (l.allocator m).hooks = List.replicate k (.adapter s)) (h : l.Payable t s) (kind : BlockEvent)
    {a : Address} {layout : Layout} (hu : ((l.allocator m).usable a layout).toNat ≤ Delta.greatest) :
    Bills t s (k * (step kind * ((l.allocator m).usable a layout).toNat)) l (l.runHooks t m kind a layout) := by
  have hhooks : ∀ hook ∈ (l.allocator m).hooks.zipIdx, hook.1 = .adapter s := fun hook hm =>
    List.eq_of_mem_replicate (hh ▸ List.fst_mem_of_mem_zipIdx hm)
  have hlength : (l.allocator m).hooks.zipIdx.length = k := by rw [List.length_zipIdx, hh, List.length_replicate]
  have hbills := tellHooks_bills (m := m) kind a layout h hhooks
  rwa [hlength, Delta.toInt_delta hu] at hbills

/-! ## Calls -/

def Moderate (l : Ledger) (m : AllocatorId) : Prop :=
  ∀ a layout, l.heap.find? a = some ⟨m, layout⟩ → ((l.allocator m).usable a layout).toNat ≤ Delta.greatest

theorem Intact.moderate (h : Intact m l l') (hm : l.Moderate m) : l'.Moderate m := by
  intro a layout hblock
  have hblock := (h.blocks a layout).mp hblock
  rw [h.usable a layout hblock]
  exact hm a layout hblock

/-- What is handed out is not larger than an amount can be, if no block is once the hooks are told of it. -/
theorem Moderate.put {a : Address} {layout : Layout}
    (hm : ({ l with heap := l.heap.put a ⟨m, layout⟩ }.runHooks t m .alloc a layout).Moderate m) :
    ((l.allocator m).usable a layout).toNat ≤ Delta.greatest := by
  let put : Ledger := { l with heap := l.heap.put a ⟨m, layout⟩ }
  have htold : Intact m put (put.runHooks t m .alloc a layout) := (runHooks_tells put t m .alloc a layout).intact
  have hblock : put.heap.find? a = some ⟨m, layout⟩ := by rw [Directory.find?_put, if_pos rfl]
  have hlarge := hm a layout ((htold.blocks a layout).mpr hblock)
  rwa [htold.usable a layout hblock] at hlarge

theorem Bills.eq (h : Bills t s n l l') (hn : n = n') : Bills t s n' l l' := hn ▸ h

section
variable {a : Address} {layout : Layout} (hh : (l.allocator m).hooks = List.replicate k (.adapter s)) (h : l.Payable t s)

include hh h

theorem put_bills (hfree : l.heap.find? a = none) (hu : ((l.allocator m).usable a layout).toNat ≤ Delta.greatest) :
    let l' := { l with heap := l.heap.put a ⟨m, layout⟩ }.runHooks t m .alloc a layout
    Bills t s (k * (l'.reserved m - l.reserved m)) l l' := by
  intro l'
  let put : Ledger := { l with heap := l.heap.put a ⟨m, layout⟩ }
  have hput : Bills t s 0 l put := bills_of_eq h rfl rfl
  have hreserved : l'.reserved m = l.reserved m + ((l.allocator m).usable a layout).toNat := by
    rw [((runHooks_tells put t m .alloc a layout).intact (m := m)).reserved]
    exact reserved_put hfree rfl rfl
  have hbills : Bills t s _ l l' := hput.trans (runHooks_bills (l := put) hh hput.payable .alloc hu)
  refine hbills.eq ?_
  rw [hreserved, Int.zero_add, add_sub_cancel_left]
  exact congrArg ((k : Int) * ·) (Int.one_mul _)

theorem freed_bills (hu : ((l.allocator m).usable a layout).toNat ≤ Delta.greatest) :
    Bills t s (k * -((l.allocator m).usable a layout).toNat) l ((l.runHooks t m .free a layout).countCall t m) := by
  have hfree := runHooks_bills hh h .free hu
  refine (hfree.trans (countCall_bills hfree.payable m)).eq ?_
  rw [Int.add_zero]
  exact congrArg ((k : Int) * ·) (Int.neg_one_mul _)

theorem erase_bills (hblock : l.heap.find? a = some ⟨m, layout⟩)
    (hu : ((l.allocator m).usable a layout).toNat ≤ Delta.greatest) :
    let l' : Ledger := { (l.runHooks t m .free a layout).countCall t m with
      heap := ((l.runHooks t m .free a layout).countCall t m).heap.erase a }
    Bills t s (k * (l'.reserved m - l.reserved m)) l l' := by
  intro l'
  have hfreed := freed_bills hh h hu
  have hintact : Intact m l ((l.runHooks t m .free a layout).countCall t m) := freed_intact m a layout
  have hreserved : l'.reserved m = l.reserved m - ((l.allocator m).usable a layout).toNat := by
    rw [← hintact.reserved, ← hintact.usable a layout hblock]
    exact reserved_erase ((hintact.blocks a layout).mpr hblock) rfl rfl
  have herase : Bills t s 0 _ l' := bills_of_eq hfreed.payable rfl rfl
  refine (hfreed.trans herase).eq ?_
  rw [hreserved, Int.add_zero, sub_sub_cancel_left]

theorem allocate_bills (layout : Layout) {granted : Option Address} (hfree : ∀ a ∈ granted, l.heap.find? a = none)
    (hm : (l.allocate t m layout granted).Moderate m) :
    Bills t s (k * ((l.allocate t m layout granted).reserved m - l.reserved m)) l (l.allocate t m layout granted) := by
  have hcount := countCall_bills h m
  have hintact : Intact m l (l.countCall t m) := (tells_countCall m).intact
  unfold allocate at hm ⊢
  cases granted with
  | none =>
    refine hcount.eq ?_
    rw [hintact.reserved, Int.sub_self, Int.mul_zero]
  | some a =>
    have hheap : (l.countCall t m).heap.find? a = none := (congrArg (·.find? a) heap_countCall).trans (hfree a rfl)
    refine (hcount.trans (put_bills (hintact.hooks.trans hh) hcount.payable hheap (Moderate.put hm))).eq ?_
    rw [Int.zero_add, hintact.reserved]

theorem deallocate_bills (hblock : l.heap.find? a = some ⟨m, layout⟩) (hm : l.Moderate m) :
    Bills t s (k * ((l.deallocate t a).reserved m - l.reserved m)) l (l.deallocate t a) := by
  unfold deallocate
  rw [hblock]
  exact erase_bills hh h hblock (hm a layout hblock)

theorem reallocate_bills (hblock : l.heap.find? a = some ⟨m, layout⟩) (size : UInt64) {granted : Option Address}
    (hfree : ∀ a' ∈ granted, a' = a ∨ l.heap.find? a' = none) (hm : l.Moderate m)
    (hm' : (l.reallocate t a size granted).Moderate m) :
    Bills t s (k * ((l.reallocate t a size granted).reserved m - l.reserved m)) l (l.reallocate t a size granted) := by
  have hu := hm a layout hblock
  have hintact : Intact m l ((l.runHooks t m .free a layout).countCall t m) := freed_intact m a layout
  unfold reallocate at hm' ⊢
  rw [hblock] at hm' ⊢
  cases granted with
  | none =>
    -- the block is billed back
    have hfreed := freed_bills hh h hu
    have hkept := runHooks_bills (hintact.hooks.trans hh) hfreed.payable .alloc
      (hintact.usable a layout hblock ▸ hu)
    have htold : Intact m _ _ := (runHooks_tells ((l.runHooks t m .free a layout).countCall t m) t m .alloc a layout).intact
    refine (hfreed.trans hkept).eq ?_
    rw [(hintact.trans htold).reserved, Int.sub_self, Int.mul_zero, hintact.usable a layout hblock,
      ← Int.mul_add]
    exact (congrArg ((k : Int) * ·) (by rw [step]; omega)).trans (Int.mul_zero _)
  | some a' =>
    let freed : Ledger := (l.runHooks t m .free a layout).countCall t m
    let erased : Ledger := { freed with heap := freed.heap.erase a }
    have herased : Bills t s _ l erased := erase_bills hh h hblock hu
    have hfree' : erased.heap.find? a' = none := by
      show (freed.heap.erase a).find? a' = none
      rw [Directory.find?_erase, heap_countCall, heap_runHooks]
      rcases hfree a' rfl with ha | ha
      · exact if_pos ha
      · rw [ha, ite_self]
    have hput := put_bills (l := erased) (hintact.hooks.trans hh) herased.payable hfree' (Moderate.put hm')
    refine (herased.trans hput).eq ?_
    rw [← Int.mul_add]
    exact congrArg ((k : Int) * ·) (sub_add_sub_cancel' ..)

/-- Every call is billed as many times what it reserves or gives up. -/
theorem call_bills {holdings : Holdings} {action : Action} (ha : l.Admits holdings action) (hc : action.Calls l m)
    (hm : l.Moderate m) (hm' : (l.perform t action).1.Moderate m) :
    Bills t s (k * ((l.perform t action).1.reserved m - l.reserved m)) l (l.perform t action).1 := by
  cases hc with
  | allocate layout granted => exact allocate_bills hh h layout ha.2 hm'
  | deallocate hblock => exact deallocate_bills hh h hblock hm
  | reallocate hblock size granted => exact reallocate_bills hh h hblock size ha.2 hm hm'

end

/-! ## Calls that no hook is told of -/

theorem unhooked_of_quiet {action : Action} (hc : action.Calls l m)
    (hq : reports (l.perform t action).1.journal = reports l.journal) :
    (l.allocator m).hooks = [] ∨ ∃ layout, action = .allocate m layout none := by
  rcases Nat.eq_zero_or_pos (l.allocator m).hooks.length with hn | hi
  · exact .inl (List.eq_nil_of_length_eq_zero hn)
  · have htold : Announces l t m 0 := announces hi
    have hheard : (l.perform t action).1.heard m 0 = l.heard m 0 := congrArg (·.filterMap (Report.toward? m 0)) hq
    have hnothing : ∀ new, (l.perform t action).1.heard m 0 = new ++ l.heard m 0 → new = [] := fun _ hnew =>
      List.append_left_eq_self.mp (hnew.symm.trans hheard)
    cases hc with
    | allocate layout granted =>
      cases granted with
      | none => exact .inr ⟨layout, rfl⟩
      | some a => exact absurd (hnothing [_] (htold.granted layout a)) nofun
    | deallocate hblock => exact absurd (hnothing [_] (htold.freed _ _ hblock)) nofun
    | reallocate hblock size granted =>
      cases granted with
      | none => exact absurd (hnothing [_, _] (htold.kept _ _ size hblock)) nofun
      | some a' => exact absurd (hnothing [_, _] (htold.moved _ _ size a' hblock)) nofun

theorem runHooks_of_unhooked (hn : (l.allocator m).hooks = []) (kind : BlockEvent) (a : Address) (layout : Layout) :
    l.runHooks t m kind a layout = l := by
  rw [runHooks, hn]
  rfl

theorem journal_countCall (l : Ledger) (t : ThreadId) (m : AllocatorId) : (l.countCall t m).journal = l.journal := by
  unfold countCall
  split <;> rfl

theorem journal_of_unhooked {action : Action} (hn : (l.allocator m).hooks = []) (hc : action.Calls l m) :
    (l.perform t action).1.journal = l.journal := by
  have hfreed : ∀ a layout, (((l.runHooks t m .free a layout).countCall t m).allocator m).hooks = [] ∧
      ((l.runHooks t m .free a layout).countCall t m).journal = l.journal := by
    intro a layout
    rw [runHooks_of_unhooked hn, journal_countCall, (tells_countCall m).hooks]
    exact ⟨hn, rfl⟩
  cases hc with
  | allocate layout granted =>
    show (l.allocate t m layout granted).journal = l.journal
    unfold allocate
    cases granted with
    | none => exact journal_countCall l t m
    | some a =>
      dsimp only
      rw [runHooks_of_unhooked]
      · exact journal_countCall l t m
      · exact ((tells_countCall m).hooks m).trans hn
  | @deallocate a layout hblock =>
    show (l.deallocate t a).journal = l.journal
    unfold deallocate
    rw [hblock]
    exact (hfreed a layout).2
  | @reallocate a layout hblock size granted =>
    show (l.reallocate t a size granted).journal = l.journal
    unfold reallocate
    rw [hblock]
    cases granted with
    | none =>
      dsimp only
      rw [runHooks_of_unhooked (l := countCall _ t m) (hfreed a layout).1]
      exact (hfreed a layout).2
    | some a' =>
      dsimp only
      rw [runHooks_of_unhooked]
      · exact (hfreed a layout).2
      · exact (hfreed a layout).1

end

end Ledger

end HeapLedger
