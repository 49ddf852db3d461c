import HeapLedger.Proofs.Attempts
import HeapLedger.Proofs.HookFlag
import HeapLedger.Proofs.Reserved
import HeapLedger.Proofs.Served
import HeapLedger.Proofs.Written

/-!
# Rounds of hooks

Whatever becomes of a block, the hooks of its allocator are told one after the other. A service has a turn for each of
the places that it was registered in, and is charged once in each of them.
-/

namespace HeapLedger

open Ledger

inductive Dealing
  | told (m : AllocatorId) (place : Nat) (kind : BlockEvent) (a : Address) (layout : Layout)
  /-- A charge, or an attempt that was refused, which nothing is written of. -/
  | charged (refused : Bool) (t : ThreadId) (s : ServiceId) (d : Delta)
  | wrote (name : String) (kind : BlockEvent) (a : Address) (layout : Layout)

def Entry.dealing? : Entry → Option Dealing
  | reported r => some (.told r.allocator r.hook r.kind r.address r.layout)
  | charged v => some (.charged false v.thread v.service v.delta)
  | event (.block name kind a layout) => some (.wrote name kind a layout)
  | _ => none

/-- What entries tell of hooks, the first first. -/
def dealings (entries : List Entry) : List Dealing := (entries.filterMap Entry.dealing?).reverse

namespace Dealing

def charges (s : ServiceId) : Dealing → Bool
  | charged _ _ s' _ => s' = s
  | _ => false

def refused : Dealing → Bool
  | charged refused .. => refused
  | _ => false

end Dealing

namespace Hook

def charges (s : ServiceId) : Hook → Bool
  | adapter s' => s' = s
  | recorder _ => false

def dealing (inHook : Bool) (t : ThreadId) (d : Delta) (kind : BlockEvent) (a : Address) (layout : Layout) :
    Hook → Dealing
  | adapter s => .charged inHook t s d
  | recorder name => .wrote name kind a layout

end Hook

def HookTable.held (s : ServiceId) (t : HookTable) : Nat := t.places.countP (·.any (Hook.charges s))

theorem Entry.Outgoing.dealing? {e : Entry} (h : e.Outgoing) : e.dealing? = none := by
  cases e with
  | event e =>
    cases e with
    | received | answered => rfl
    | _ => cases h
  | committed => rfl
  | _ => cases h

theorem dealings_append (newer older : List Entry) : dealings (newer ++ older) = dealings older ++ dealings newer := by
  rw [dealings, List.filterMap_append, List.reverse_append]
  rfl

theorem dealings_eq_nil {entries : List Entry} (h : ∀ e ∈ entries, e.dealing? = none) : dealings entries = [] := by
  rw [dealings, List.filterMap_eq_nil_iff.mpr h]
  rfl

namespace Ledger

def events (l : Ledger) : Action → List (BlockEvent × Address × Layout)
  | .allocate _ layout granted => granted.toList.map (.alloc, ·, layout)
  | .deallocate a => (l.heap.find? a).toList.map fun block => (.free, a, block.layout)
  | .reallocate a size granted => (l.heap.find? a).toList.flatMap fun block =>
    [(.free, a, block.layout),
      match granted with
      | none => (.alloc, a, block.layout)
      | some a' => (.alloc, a', { block.layout with size })]
  | _ => []

/-- What the hooks of an allocator do when they are told what becomes of a block, the first installed first. Inside the
hook charges are refused. -/
def round (l : Ledger) (t : ThreadId) (m : AllocatorId) (e : BlockEvent × Address × Layout) : List Dealing :=
  (l.allocator m).hooks.zipIdx.flatMap fun hook =>
    [.told m hook.2 e.1 e.2.1 e.2.2,
      hook.1.dealing (l.inHook t) t (e.1.delta ((l.allocator m).usable e.2.1 e.2.2)) e.1 e.2.1 e.2.2]

structure Refuses (refused : ServiceId → Nat) (l l' : Ledger) : Prop where
  services_size : l'.services.size = l.services.size
  skipped : ∀ s < l.services.size, (l'.service s).skipped = (l.service s).skipped + refused s

/-- Hooks do this on a thread, which is inside the hook or outside of it as before. -/
structure Rounds (t : ThreadId) (ds : List Dealing) (l l' : Ledger) : Prop where
  journal : ∃ new, l'.journal = new ++ l.journal ∧ dealings new = ds.filter fun d => !d.refused
  refuses : l.inHook t = true → Refuses (fun s => ds.countP fun d => d.refused && d.charges s) l l'
  threads_size : l.threads.size ≤ l'.threads.size
  hook : l'.inHook t = l.inHook t

section
variable {l l' l'' : Ledger} {t : ThreadId} {s : ServiceId} {m : AllocatorId} {d : Delta} {kind : BlockEvent} {a : Address}
  {layout : Layout} {ds ds' : List Dealing} {refused refused' : ServiceId → Nat}

theorem Refuses.trans (h : Refuses refused l l') (h' : Refuses refused' l' l'') :
    Refuses (fun s => refused s + refused' s) l l'' where
  services_size := h'.services_size.trans h.services_size
  skipped s hs := by rw [h'.skipped s (h.services_size ▸ hs), h.skipped s hs, Nat.add_assoc]

theorem refuses_of_eq (h : l'.services = l.services) : Refuses (fun _ => 0) l l' where
  services_size := congrArg Table.size h
  skipped s _ := by rw [service, h]; rfl

theorem refuses_countSkip (s : ServiceId) : Refuses (fun s' => if s = s' then 1 else 0) l (l.countSkip s) where
  services_size := services_size_modifyService ..
  skipped s' hs' := by
    rw [countSkip, service_modifyService]
    by_cases hs : s = s'
    · rw [if_pos ⟨hs, hs ▸ hs'⟩, if_pos hs]
    · rw [if_neg fun he => hs he.1, if_neg hs, Nat.add_zero]

theorem Rounds.trans (h : Rounds t ds l l') (h' : Rounds t ds' l' l'') : Rounds t (ds ++ ds') l l'' where
  journal := by
    obtain ⟨new, hnew, hds⟩ := h.journal
    obtain ⟨newer, hnewer, hds'⟩ := h'.journal
    exact ⟨newer ++ new, by rw [hnewer, hnew, List.append_assoc],
      by rw [dealings_append, hds, hds', List.filter_append]⟩
  refuses hi := by
    simp only [List.countP_append]
    exact (h.refuses hi).trans (h'.refuses (h.hook.trans hi))
  threads_size := Nat.le_trans h.threads_size h'.threads_size
  hook := h'.hook.trans h.hook

theorem rounds_of_eq (ht : l'.threads = l.threads) (hs : l'.services = l.services) (hj : l'.journal = l.journal) :
    Rounds t [] l l' where
  journal := ⟨[], hj, rfl⟩
  refuses _ := refuses_of_eq hs
  threads_size := Nat.le_of_eq (congrArg Table.size ht.symm)
  hook := by rw [inHook, thread, ht]; rfl

theorem rounds_post {e : Entry} {x : Dealing} (he : e.dealing? = some x) (hx : x.refused = false) :
    Rounds t [x] l (l.post e) where
  journal := ⟨[e], rfl, by simp [dealings, he, hx]⟩
  refuses _ := by
    simp only [List.countP_singleton, hx]
    exact refuses_of_eq rfl
  threads_size := Nat.le_refl _
  hook := rfl

/-! ## Charges -/

/-- However a charge ends, it is written down once. -/
theorem journal_charge (ht : t < l.threads.size) (hn : l.inHook t = false) (s : ServiceId) (d : Delta) :
    ∃ new, (l.charge t s d).1.journal = new ++ l.journal ∧ dealings new = [.charged false t s d] := by
  have hinquiry : dealings (l.inquiry t s) = [] := by
    refine dealings_eq_nil fun e he => ?_
    obtain ⟨k, -, rfl⟩ := Option.map_eq_some_iff.mp (Option.mem_toList.mp he)
    rfl
  -- besides the charge itself, only the inquiry before it and the commits after it are written down
  have hwritten : ∀ {after : List Entry}, Written l t s d after (l.charge t s d) → (∀ e ∈ after, e.dealing? = none) →
      ∃ new, (l.charge t s d).1.journal = new ++ l.journal ∧ dealings new = [.charged false t s d] := by
    intro after hw hafter
    refine ⟨_, hw.journal.trans (List.append_assoc after (.charged _ :: l.inquiry t s) l.journal).symm, ?_⟩
    rw [dealings_append, dealings_eq_nil hafter, ← List.singleton_append, dealings_append, hinquiry]
    rfl
  by_cases hp : (l.charge t s d).2 = .parked
  · obtain ⟨after, hw, hnothing, hcarried⟩ := charge_written_of_parked ht hp
    refine hwritten hw fun e he => ?_
    by_cases hz : ((l.thread t).carriedFor s).addClamped d = 0
    · rw [hnothing hz] at he
      cases he
    · obtain ⟨out, hout, rfl⟩ := hcarried hz
      rcases List.mem_append.mp he with he | he
      · exact (hout e he).dealing?
      · rw [List.mem_singleton.mp he]
        rfl
  · obtain ⟨after, hw, hafter⟩ := charge_written_of_not_parked hn hp
    exact hwritten hw fun e he => (hafter e he).dealing?

theorem charge_rounds (ht : t < l.threads.size) (s : ServiceId) (d : Delta) :
    Rounds t [.charged (l.inHook t) t s d] l (l.charge t s d).1 := by
  cases hi : l.inHook t with
  | true =>
    rw [charge_of_inHook hi]
    have hcount : (fun s' => [Dealing.charged true t s d].countP fun d => d.refused && d.charges s') =
        fun s' => if s = s' then 1 else 0 := by
      funext s'
      simp [Dealing.refused, Dealing.charges, List.countP_singleton]
    exact ⟨⟨[], rfl, rfl⟩, fun _ => hcount ▸ refuses_countSkip s, Nat.le_refl _, rfl⟩
  | false =>
    have hsize := Built.turns (I := fun l' => l.threads.size ≤ l'.threads.size)
      (fun _ _ _ hle hturn => Nat.le_trans hle hturn.threads_size) (charge_step t s d).handling ht (Nat.le_refl _)
    refine ⟨journal_charge ht hi s d, fun htrue => ?_, hsize.2, congrArg Prod.fst ((charge_step t s d).keepsHooks_outer l t)⟩
    cases hi.symm.trans htrue

/-! ## Hooks -/

theorem countCall_rounds (m : AllocatorId) : Rounds t [] l (l.countCall t m) := by
  unfold countCall
  split <;> exact rounds_of_eq rfl rfl rfl

theorem tellHook_rounds (ht : t < l.threads.size) (hook : Hook × Nat) :
    Rounds t [.told m hook.2 kind a layout,
        hook.1.dealing (l.inHook t) t (kind.delta ((l.allocator m).usable a layout)) kind a layout] l
      (tellHook t m kind a layout l hook) := by
  obtain ⟨hook, i⟩ := hook
  have htold : Rounds t [.told m i kind a layout] l (l.post (.reported (l.report m kind a layout i))) := rounds_post rfl rfl
  refine htold.trans ?_
  cases hook with
  | adapter s =>
    have hcount : Rounds t [] _ ((l.post (.reported (l.report m kind a layout i))).countCall t m) := countCall_rounds m
    have hcharge := charge_rounds (Nat.lt_of_lt_of_le ht hcount.threads_size) s
      (kind.delta ((l.allocator m).usable a layout))
    rw [hcount.hook] at hcharge
    exact hcount.trans hcharge
  | recorder name => exact rounds_post rfl rfl

theorem tellHooks_rounds : ∀ (hooks : List (Hook × Nat)) {l : Ledger}, t < l.threads.size →
    Rounds t (hooks.flatMap fun hook => [.told m hook.2 kind a layout,
        hook.1.dealing (l.inHook t) t (kind.delta ((l.allocator m).usable a layout)) kind a layout]) l
      (hooks.foldl (tellHook t m kind a layout) l)
  | [], _, _ => rounds_of_eq rfl rfl rfl
  | hook :: hooks, l, ht => by
    have hfirst : Rounds t _ l (tellHook t m kind a layout l hook) := tellHook_rounds ht hook
    have hrest := tellHooks_rounds hooks (Nat.lt_of_lt_of_le ht hfirst.threads_size)
    -- the next hook finds the flag and the usable size as this one did
    rw [hfirst.hook, (tellHook_tells l t m kind a layout hook).usable] at hrest
    exact hfirst.trans hrest

theorem runHooks_rounds (ht : t < l.threads.size) (kind : BlockEvent) (a : Address) (layout : Layout) :
    Rounds t (l.round t m (kind, a, layout)) l (l.runHooks t m kind a layout) := tellHooks_rounds _ ht

/-! ## Calls -/

/-- What hooks do does not change what they are going to do. -/
theorem Rounds.round {rs : List Report} (h : Rounds t ds l l') (htold : Tells rs l l') (m : AllocatorId) :
    l'.round t m = l.round t m := by
  funext e
  simp only [Ledger.round, htold.hooks, htold.usable, h.hook]

theorem told_rounds (ht : t < l.threads.size) (heap : Directory Address Block) (kind : BlockEvent) (a : Address)
    (layout : Layout) :
    Rounds t (l.round t m (kind, a, layout)) l ({ l with heap }.runHooks t m kind a layout) :=
  have hheap : Rounds t [] l { l with heap } := rounds_of_eq rfl rfl rfl
  hheap.trans (runHooks_rounds (l := { l with heap }) ht kind a layout)

theorem freed_rounds (ht : t < l.threads.size) (a : Address) (layout : Layout) :
    Rounds t (l.round t m (.free, a, layout)) l ((l.runHooks t m .free a layout).countCall t m) := by
  have hfreed := (runHooks_rounds (m := m) ht .free a layout).trans (countCall_rounds m)
  rwa [List.append_nil] at hfreed

theorem allocate_rounds (ht : t < l.threads.size) (layout : Layout) (granted : Option Address) :
    Rounds t ((l.events (.allocate m layout granted)).flatMap (l.round t m)) l (l.allocate t m layout granted) := by
  have hcount : Rounds t [] l (l.countCall t m) := countCall_rounds m
  unfold allocate
  cases granted with
  | none => exact hcount
  | some a =>
    have htold := told_rounds (m := m) (Nat.lt_of_lt_of_le ht hcount.threads_size)
      ((l.countCall t m).heap.put a ⟨m, layout⟩) .alloc a layout
    rw [hcount.round (tells_countCall m)] at htold
    exact (List.flatMap_singleton ..).symm ▸ hcount.trans htold

theorem deallocate_rounds (ht : t < l.threads.size) (h : l.heap.find? a = some ⟨m, layout⟩) :
    Rounds t ((l.events (.deallocate a)).flatMap (l.round t m)) l (l.deallocate t a) := by
  have hevents : l.events (.deallocate a) = [(.free, a, layout)] := by
    rw [events, h]
    rfl
  have hfreed : Rounds t _ l ((l.runHooks t m .free a layout).countCall t m) := freed_rounds ht a layout
  have hheap : Rounds t [] ((l.runHooks t m .free a layout).countCall t m) (l.deallocate t a) := by
    rw [deallocate, h]
    exact rounds_of_eq rfl rfl rfl
  rw [hevents]
  exact hfreed.trans hheap

theorem reallocate_rounds (ht : t < l.threads.size) (h : l.heap.find? a = some ⟨m, layout⟩) (size : UInt64)
    (granted : Option Address) :
    Rounds t ((l.events (.reallocate a size granted)).flatMap (l.round t m)) l (l.reallocate t a size granted) := by
  have hfreed : Rounds t _ l ((l.runHooks t m .free a layout).countCall t m) := freed_rounds ht a layout
  have htells : Tells _ l ((l.runHooks t m .free a layout).countCall t m) :=
    (runHooks_tells l t m .free a layout).trans (tells_countCall m)
  have hthreads : t < ((l.runHooks t m .free a layout).countCall t m).threads.size :=
    Nat.lt_of_lt_of_le ht hfreed.threads_size
  -- the hooks that are told of the block that is handed out are those that were told of the one that is taken back
  have hnext : ∀ heap a' layout', Rounds t (l.round t m (.alloc, a', layout')) ((l.runHooks t m .free a layout).countCall t m)
      ({ (l.runHooks t m .free a layout).countCall t m with heap }.runHooks t m .alloc a' layout') := by
    intro heap a' layout'
    rw [← hfreed.round htells m]
    exact told_rounds hthreads heap .alloc a' layout'
  unfold reallocate
  rw [h, events, h]
  cases granted with
  | none => simpa using hfreed.trans (hnext ((l.runHooks t m .free a layout).countCall t m).heap a layout)
  | some a' => simpa using hfreed.trans (hnext
      ((((l.runHooks t m .free a layout).countCall t m).heap.erase a).put a' ⟨m, { layout with size }⟩) a'
      { layout with size })

theorem call_rounds {a : Action} (ht : t < l.threads.size) (hc : a.Calls l m) :
    Rounds t ((l.events a).flatMap (l.round t m)) l (l.perform t a).1 := by
  cases hc with
  | allocate layout granted => exact allocate_rounds ht layout granted
  | deallocate h => exact deallocate_rounds ht h
  | reallocate h size granted => exact reallocate_rounds ht h size granted

/-! ## How often a service is charged -/

theorem charges_dealing (hook : Hook) (inHook : Bool) (t : ThreadId) (s : ServiceId) (d : Delta) (kind : BlockEvent)
    (a : Address) (layout : Layout) : (hook.dealing inHook t d kind a layout).charges s = hook.charges s := by
  cases hook <;> rfl

theorem countP_round (l : Ledger) (t : ThreadId) (m : AllocatorId) (s : ServiceId) (e : BlockEvent × Address × Layout) :
    (l.round t m e).countP (Dealing.charges s) = (l.allocator m).hooks.countP (Hook.charges s) := by
  refine Eq.trans ?_ (congrArg (List.countP (Hook.charges s)) (List.zipIdx_map_fst 0 (l.allocator m).hooks))
  unfold round
  generalize (l.allocator m).hooks.zipIdx = hooks
  induction hooks with
  | nil => rfl
  | cons hook hooks ih =>
    rw [List.flatMap_cons, List.countP_append, ih, List.map_cons, List.countP_cons, List.countP_cons,
      List.countP_cons, charges_dealing, List.countP_nil, Nat.zero_add, Nat.add_comm]
    rfl

theorem countP_rounds (l : Ledger) (t : ThreadId) (m : AllocatorId) (s : ServiceId)
    (es : List (BlockEvent × Address × Layout)) :
    (es.flatMap (l.round t m)).countP (Dealing.charges s) =
      es.length * (l.allocator m).hooks.countP (Hook.charges s) := by
  induction es with
  | nil => exact (Nat.zero_mul _).symm
  | cons e es ih => rw [List.flatMap_cons, List.countP_append, countP_round, ih, List.length_cons, Nat.succ_mul, Nat.add_comm]

theorem History.held {tries : Attempts} (h : History tries l) (m : AllocatorId) (s : ServiceId) :
    (l.allocator m).hooks.countP (Hook.charges s) = (l.allocator m).table.held s := by
  have hfilled : (l.allocator m).hooks = (l.allocator m).table.filled := by
    rw [Allocator.hooks, h.table, HookTable.hooks_after, HookTable.filled_after]
  rw [hfilled, HookTable.filled, List.countP_filterMap, HookTable.held]
  refine List.countP_congr fun place _ => ?_
  cases place <;> rfl

end

end Ledger

/-- Every run is made of attempts to install hooks and of what else is done in between. However these were mixed, the
first attempts at an allocator have filled its places in order, all later ones have failed and will fail for want of
room alone, and what failed has changed nothing there. A service is warned from its second attempt on, wherever that
is made and however the others ended. The hooks have their turns in the order of the places, and a service has as many
turns as it has places, in each of which it is charged, unless that is refused inside the hook. -/
theorem hook_table_history :
    (∀ {h : Holdings} {l : Ledger}, Run h l → ∃ tries, History tries l) ∧
    ∀ {tries : Attempts} {l : Ledger}, History tries l →
      (∀ m, (l.allocator m).Equipped (tries.hooks m) (tries.answers m)) ∧
      (∀ m hook, (l.install m hook).2 = HookTable.answer (tries.hooks m).length ∧
        (maxHooks ≤ (tries.hooks m).length → (l.install m hook).1 = l)) ∧
      (∀ s, (l.service s).registrations = tries.registrations s ∧ ∀ m, l.Registers m s (tries.registrations s + 1)) ∧
      ∀ t < l.threads.size, ∀ m a, a.Calls l m →
        Rounds t ((l.events a).flatMap (l.round t m)) l (l.perform t a).1 ∧
        ∀ s, ((l.events a).flatMap (l.round t m)).countP (Dealing.charges s) =
          (l.events a).length * (l.allocator m).table.held s := by
  refine ⟨Run.history, fun {tries l} h => ⟨h.equipped, fun m hook => ?_, fun s => ?_, fun t ht m a hc => ?_⟩⟩
  · exact ⟨h.attempt_snd (.install m hook), fun hfull => h.install_of_full hfull hook⟩
  · exact ⟨h.registrations s, fun m => h.registers m s⟩
  · exact ⟨call_rounds ht hc, fun s => by rw [countP_rounds, h.held]⟩

def bare : Ledger :=
  let l := (perform (newThread {}).1 0 (.newCounter "count" none)).1
  let l := (l.perform 0 (.newService { threshold := 10, tracker := some 0 })).1
  (l.perform 0 (.newAllocator .exact)).1

def crowded : Ledger :=
  [.register 0 0, .install 0 (.recorder "a"), .register 0 0, .install 0 (.recorder "b"), .register 0 0].foldl
    (fun l x => (l.attempt x).1) bare

def crowding : Attempts :=
  [(.register 0 0, .error .hookTableFull), (.install 0 (.recorder "b"), .ok 4), (.register 0 0, .ok 3),
    (.install 0 (.recorder "a"), .ok 2), (.register 0 0, .ok 1)]

theorem history_crowded : History crowding crowded := by
  have hcounter := (History.start .nil).act 0 (a := .newCounter "count" none) rfl
  have hservice := hcounter.act 0 (a := .newService { threshold := 10, tracker := some 0 }) rfl
  have hbare : History [] bare := hservice.act 0 (a := .newAllocator .exact) rfl
  have hfirst := hbare.attempt (x := .register 0 0) ⟨by decide, by decide⟩
  have ha := hfirst.attempt (x := .install 0 (.recorder "a")) (show 0 < Table.size _ by decide)
  have hsecond := ha.attempt (x := .register 0 0) ⟨by decide, by decide⟩
  have hb := hsecond.attempt (x := .install 0 (.recorder "b")) (show 0 < Table.size _ by decide)
  exact hb.attempt (x := .register 0 0) ⟨by decide, by decide⟩

/-- The service is charged for a block in the first place and in the third. To register again is in vain. -/
theorem hook_table_history_crowded :
    History crowding crowded ∧ (crowded.allocator 0).installed = 4 ∧
      (crowded.register 0 0).2 = .error .hookTableFull ∧
      (crowded.register 0 0).1.allocators = crowded.allocators ∧
      (crowded.register 0 0).1.journal =
        .notice (.registrationFailed .hookTableFull) :: .notice (.registeredAgain 4) :: crowded.journal ∧
      Rounds 0 [.told 0 0 .alloc 16 ⟨8, 8⟩, .charged false 0 0 8, .told 0 1 .alloc 16 ⟨8, 8⟩, .wrote "a" .alloc 16 ⟨8, 8⟩,
          .told 0 2 .alloc 16 ⟨8, 8⟩, .charged false 0 0 8, .told 0 3 .alloc 16 ⟨8, 8⟩, .wrote "b" .alloc 16 ⟨8, 8⟩]
        crowded (crowded.perform 0 (.allocate 0 ⟨8, 8⟩ (some 16))).1 := by
  obtain ⟨hequipped, hinstall, hregisters, hrounds⟩ := hook_table_history.2 history_crowded
  obtain ⟨hanswer, hsame⟩ := hinstall 0 (.adapter 0)
  have hagain : crowded.Registers 0 0 4 := (hregisters 0).2 0
  have hfull : (crowded.register 0 0).2 = .error .hookTableFull := hagain.answer.trans hanswer
  refine ⟨history_crowded, (hequipped 0).installed, hfull,
    hagain.allocators.trans (congrArg Ledger.allocators (hsame (by decide))), ?_, ?_⟩
  · rw [hagain.journal, hfull]
    rfl
  · exact (hrounds 0 (by decide) 0 (.allocate 0 ⟨8, 8⟩ (some 16)) (.allocate ..)).1

end HeapLedger
