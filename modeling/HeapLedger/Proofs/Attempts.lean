import HeapLedger.Proofs.Heard

/-!
# Attempts to install hooks

A place in a hook table is claimed before it is filled, and the number of claimed places is kept beside the places. Both
follow from the attempts that were made: the places that were claimed are those that are filled, and come first. So what
is claimed next is there and is free, and once nothing is left to claim an attempt changes nothing.
-/

namespace HeapLedger

open Ledger

/-! ## Tables -/

namespace HookTable

def after (hooks : List Hook) : HookTable where
  places := (hooks.take maxHooks).map some ++ List.replicate (maxHooks - hooks.length) none
  claimed := min hooks.length maxHooks

theorem filled_after (hooks : List Hook) : (after hooks).filled = hooks.take maxHooks := by
  have hfree : (List.replicate (maxHooks - hooks.length) (none : Option Hook)).filterMap id = [] := by simp
  rw [filled, after, List.filterMap_append, hfree, List.append_nil, List.filterMap_map]
  exact List.filterMap_some

theorem hooks_after (hooks : List Hook) : (after hooks).hooks = hooks.take maxHooks := by
  unfold HookTable.hooks
  split
  · rename_i hnone
    have hlength : (hooks.take maxHooks).length = 0 := List.length_take.trans ((Nat.min_comm ..).trans hnone)
    exact (List.eq_nil_of_length_eq_zero hlength).symm
  · exact filled_after hooks

theorem claimed_after (hooks : List Hook) : (after hooks).claimed = (after hooks).places.countP Option.isSome := by
  rw [← length_filled, filled_after, List.length_take, Nat.min_comm]
  rfl

def answer (earlier : Nat) : Except RegisterError Nat :=
  if earlier < maxHooks then .ok (earlier + 1) else .error .hookTableFull

/-- The next place is there and is free. -/
theorem install_of_room {hooks : List Hook} (hlt : hooks.length < maxHooks) (h : Hook) :
    (after hooks).install h = (after (hooks ++ [h]), .ok hooks.length) := by
  obtain ⟨free, hfree⟩ := Nat.exists_eq_succ_of_ne_zero (Nat.sub_ne_zero_of_lt hlt)
  have hclaimed : (after hooks).claimed = hooks.length := Nat.min_eq_left (Nat.le_of_lt hlt)
  have hplaces : (after hooks).places = hooks.map some ++ none :: List.replicate free none := by
    rw [after, List.take_of_length_le (Nat.le_of_lt hlt), hfree, List.replicate_succ]
  -- the first free place is right behind the filled ones, and that is the place that is claimed
  have hnext : (after hooks).places[hooks.length]? = some none := by simp [hplaces]
  have hset : (after hooks).places.set hooks.length (some h) = (hooks ++ [h]).map some ++ List.replicate free none := by
    simp [hplaces]
  have hlength : (hooks ++ [h]).length = hooks.length + 1 := List.length_append
  have hafter : after (hooks ++ [h]) = ⟨(hooks ++ [h]).map some ++ List.replicate free none, hooks.length + 1⟩ := by
    have hrest : maxHooks - (hooks.length + 1) = free := by omega
    rw [after, hlength, hrest, List.take_of_length_le (hlength ▸ hlt), Nat.min_eq_left hlt]
  rw [install, hclaimed, if_pos hlt, hnext, hafter, ← hset]

theorem install_of_full {hooks : List Hook} (hfull : maxHooks ≤ hooks.length) (h : Hook) :
    (after hooks).install h = (after hooks, .error .hookTableFull) := by
  have hclaimed : (after hooks).claimed = maxHooks := Nat.min_eq_right hfull
  rw [install, hclaimed, if_neg (Nat.lt_irrefl _)]

theorem after_append_of_full {hooks : List Hook} (hfull : maxHooks ≤ hooks.length) (h : Hook) :
    after (hooks ++ [h]) = after hooks := by
  have hlength : (hooks ++ [h]).length = hooks.length + 1 := List.length_append
  unfold after
  rw [List.take_append_of_le_length hfull, hlength, Nat.sub_eq_zero_of_le hfull,
    Nat.sub_eq_zero_of_le (Nat.le_succ_of_le hfull), Nat.min_eq_right hfull, Nat.min_eq_right (Nat.le_succ_of_le hfull)]

theorem install_after (hooks : List Hook) (h : Hook) :
    ((after hooks).install h).1 = after (hooks ++ [h]) ∧
      ((after hooks).install h).2.map (fun _ => ((after hooks).install h).1.claimed) = answer hooks.length := by
  rcases Nat.lt_or_ge hooks.length maxHooks with hlt | hfull
  · have hclaimed : (after (hooks ++ [h])).claimed = hooks.length + 1 := by
      rw [after, List.length_append]
      exact Nat.min_eq_left hlt
    rw [install_of_room hlt, answer, if_pos hlt]
    exact ⟨rfl, congrArg Except.ok hclaimed⟩
  · rw [install_of_full hfull, after_append_of_full hfull, answer, if_neg (Nat.not_lt.mpr hfull)]
    exact ⟨rfl, rfl⟩

end HookTable

/-! ## Attempts -/

/-- An attempt to install a hook, be it that a service registers. -/
inductive Attempt
  | register (m : AllocatorId) (s : ServiceId)
  | install (m : AllocatorId) (hook : Hook)

namespace Attempt

def allocator : Attempt → AllocatorId
  | register m _ | install m _ => m

def hook : Attempt → Hook
  | register _ s => .adapter s
  | install _ hook => hook

def registers (s : ServiceId) : Attempt → Bool
  | register _ s' => s' = s
  | install .. => false

end Attempt

abbrev Attempts := List (Attempt × Except RegisterError Nat)

namespace Attempts

def hooks (m : AllocatorId) (tries : Attempts) : List Hook :=
  ((tries.filter fun x => x.1.allocator = m).map fun x => x.1.hook).reverse

def answers (m : AllocatorId) (tries : Attempts) : List (Except RegisterError Nat) :=
  ((tries.filter fun x => x.1.allocator = m).map Prod.snd).reverse

def registrations (s : ServiceId) (tries : Attempts) : Nat := tries.countP fun x => x.1.registers s

section
variable {tries : Attempts} {x : Attempt} {r : Except RegisterError Nat} {m : AllocatorId}

theorem hooks_cons_self : hooks x.allocator ((x, r) :: tries) = hooks x.allocator tries ++ [x.hook] := by simp [hooks]

theorem hooks_cons_ne (hm : x.allocator ≠ m) : hooks m ((x, r) :: tries) = hooks m tries := by simp [hooks, hm]

theorem answers_cons_self : answers x.allocator ((x, r) :: tries) = answers x.allocator tries ++ [r] := by simp [answers]

theorem answers_cons_ne (hm : x.allocator ≠ m) : answers m ((x, r) :: tries) = answers m tries := by simp [answers, hm]

theorem registrations_cons (s : ServiceId) :
    registrations s ((x, r) :: tries) = registrations s tries + if x.registers s then 1 else 0 := List.countP_cons

end

end Attempts

/-- What an allocator has of the hooks that were tried to be installed in it, and what the attempts were answered with. -/
structure Allocator.Equipped (al : Allocator) (tried : List Hook) (answers : List (Except RegisterError Nat)) : Prop where
  answers : answers = (List.range tried.length).map HookTable.answer
  places : al.table.places = (tried.take maxHooks).map some ++ List.replicate (maxHooks - tried.length) none
  hooks : al.hooks = tried.take maxHooks
  installed : al.installed = min tried.length maxHooks
  filled : al.installed = al.table.places.countP Option.isSome

def Action.installs : Action → Bool
  | register .. | install .. | systemBlocks .. => true
  | _ => false

namespace Ledger

def attempt (l : Ledger) : Attempt → Ledger × Except RegisterError Nat
  | .register m s => l.register m s
  | .install m hook => l.install m hook

def Knows (l : Ledger) : Attempt → Prop
  | .register m s => m < l.allocators.size ∧ s < l.services.size
  | .install m _ => m < l.allocators.size

/-- Attempts that were made, and whatever else was done in between. -/
inductive History : Attempts → Ledger → Prop
  | nil : History [] {}
  | start {tries l} (h : History tries l) : History tries l.newThread.1
  | act {tries l} (h : History tries l) (t : ThreadId) {a : Action} (ha : a.installs = false) :
      History tries (l.perform t a).1
  | attempt {tries l} (h : History tries l) {x : Attempt} (hx : l.Knows x) :
      History ((x, (l.attempt x).2) :: tries) (l.attempt x).1

def conclusion (threshold : UInt64) : Except RegisterError Nat → Notice
  | .ok installed => .hooksRegistered installed threshold
  | .error e => .registrationFailed e

/-- A service is to register for the n-th time. It is warned unless it is the first time, and otherwise installs a hook
like anybody else. -/
structure Registers (l : Ledger) (m : AllocatorId) (s : ServiceId) (n : Nat) : Prop where
  answer : (l.register m s).2 = (l.install m (.adapter s)).2
  allocators : (l.register m s).1.allocators = (l.install m (.adapter s)).1.allocators
  registrations : s < l.services.size → ((l.register m s).1.service s).registrations = n
  journal : (l.register m s).1.journal = .notice (conclusion (l.service s).threshold (l.register m s).2) ::
    ((if 1 < n then [.notice (.registeredAgain n)] else []) ++ l.journal)

/-! ## What is done in between -/

structure Uninstalled (l l' : Ledger) : Prop where
  table : ∀ m, (l'.allocator m).table = (l.allocator m).table
  registrations : ∀ s, (l'.service s).registrations = (l.service s).registrations

section
variable {l l' l'' : Ledger} {t : ThreadId} {m : AllocatorId} {s : ServiceId}

theorem Uninstalled.refl (l : Ledger) : Uninstalled l l := ⟨fun _ => rfl, fun _ => rfl⟩

theorem Uninstalled.trans (h : Uninstalled l l') (h' : Uninstalled l' l'') : Uninstalled l l'' where
  table m := (h'.table m).trans (h.table m)
  registrations s := (h'.registrations s).trans (h.registrations s)

theorem Tells.uninstalled {rs : List Report} (h : Tells rs l l') : Uninstalled l l' := ⟨h.table, h.registrations⟩

theorem uninstalled_runHooks (heap : Directory Address Block) (kind : BlockEvent) (a : Address) (layout : Layout) :
    Uninstalled l ({ l with heap }.runHooks t m kind a layout) :=
  have htold := (runHooks_tells { l with heap } t m kind a layout).uninstalled
  ⟨htold.table, htold.registrations⟩

theorem uninstalled_freed (a : Address) (layout : Layout) :
    Uninstalled l ((l.runHooks t m .free a layout).countCall t m) :=
  (runHooks_tells l t m .free a layout).uninstalled.trans (tells_countCall m).uninstalled

theorem allocate_uninstalled (layout : Layout) (granted : Option Address) :
    Uninstalled l (l.allocate t m layout granted) := by
  have hcount : Uninstalled l (l.countCall t m) := (tells_countCall m).uninstalled
  unfold allocate
  cases granted with
  | none => exact hcount
  | some a => exact hcount.trans (uninstalled_runHooks _ .alloc a layout)

theorem deallocate_uninstalled (a : Address) : Uninstalled l (l.deallocate t a) := by
  unfold deallocate
  split
  · exact .refl l
  · rename_i block _
    have hfreed : Uninstalled l ((l.runHooks t block.allocator .free a block.layout).countCall t block.allocator) :=
      uninstalled_freed a block.layout
    exact ⟨hfreed.table, hfreed.registrations⟩

theorem reallocate_uninstalled (a : Address) (size : UInt64) (granted : Option Address) :
    Uninstalled l (l.reallocate t a size granted) := by
  unfold reallocate
  split
  · exact .refl l
  · rename_i block _
    have hfreed : Uninstalled l ((l.runHooks t block.allocator .free a block.layout).countCall t block.allocator) :=
      uninstalled_freed a block.layout
    cases granted with
    | none => exact hfreed.trans (runHooks_tells _ t block.allocator .alloc a block.layout).uninstalled
    | some a' => exact hfreed.trans (uninstalled_runHooks _ .alloc a' _)

theorem newAllocator_uninstalled (usable : UsableSize) : Uninstalled l (l.newAllocator usable).1 where
  table m := by
    show ((l.allocators.add _).get m).table = (l.allocators.get m).table
    rw [Table.get_add]
    split
    · rename_i hm
      rw [Table.get_of_size_le (Nat.le_of_eq hm.symm)]
      rfl
    · rfl
  registrations _ := rfl

theorem perform_uninstalled {a : Action} (ha : a.installs = false) : Uninstalled l (l.perform t a).1 := by
  cases hb : a.handles with
  | false => exact (perform_tells l t hb).uninstalled
  | true =>
    cases a with
    | newAllocator usable => exact newAllocator_uninstalled usable
    | allocate m layout granted => exact allocate_uninstalled layout granted
    | reallocate a size granted => exact reallocate_uninstalled a size granted
    | deallocate a => exact deallocate_uninstalled a
    | usable m a layout => exact (tells_countCall m).uninstalled
    | notify m s kind a layout =>
      show Uninstalled l (l.notify t m s kind a layout)
      cases a with
      | none => exact .refl l
      | some a => exact (chargeBlock_tells l t m kind a layout s).uninstalled
    | register | install | systemBlocks => cases ha
    | _ => cases hb

/-! ## One attempt -/

theorem table_install (hm : m < l.allocators.size) (hook : Hook) (j : AllocatorId) :
    ((l.install m hook).1.allocator j).table =
      if m = j then ((l.allocator m).table.install hook).1 else (l.allocator j).table := by
  show ((l.allocators.modify m _).get j).table = _
  rw [Table.get_modify]
  by_cases hj : m = j
  · rw [if_pos ⟨hj, hm⟩, if_pos hj]
    rfl
  · rw [if_neg fun he => hj he.1, if_neg hj]
    rfl

theorem allocators_countRegistration (s : ServiceId) : (l.countRegistration s).allocators = l.allocators := by
  unfold countRegistration
  dsimp only
  split <;> rfl

theorem allocators_register : (l.register m s).1.allocators = (l.install m (.adapter s)).1.allocators := by
  have htold : ∀ (l : Ledger) threshold installed, (l.tellInstalled threshold installed).allocators = l.allocators := by
    intro l threshold installed
    unfold tellInstalled
    split <;> rfl
  have hallocator : (l.countRegistration s).allocator m = l.allocator m :=
    congrArg (·.get m) (allocators_countRegistration s)
  unfold register
  rw [htold]
  show (l.countRegistration s).allocators.modify m (fun _ => (((l.countRegistration s).allocator m).install _).1) = _
  rw [hallocator, allocators_countRegistration]
  rfl

theorem register_snd : (l.register m s).2 = (l.install m (.adapter s)).2 :=
  congrArg (fun al : Allocator => (al.install (.adapter s)).2) (congrArg (·.get m) (allocators_countRegistration s))

theorem services_tellInstalled (threshold : UInt64) (installed : Except RegisterError Nat) :
    (l.tellInstalled threshold installed).services = l.services := by
  unfold tellInstalled
  split <;> rfl

theorem registrations_countRegistration (hs : s < l.services.size) (j : ServiceId) :
    ((l.countRegistration s).service j).registrations = (l.service j).registrations + if s = j then 1 else 0 := by
  let counted : Ledger := l.modifyService s fun svc => { svc with registrations := svc.registrations + 1 }
  have hcount : (l.countRegistration s).services = counted.services := by
    unfold countRegistration
    dsimp only
    split <;> rfl
  rw [service, hcount]
  show ((l.modifyService s _).service j).registrations = _
  rw [service_modifyService]
  by_cases hj : s = j
  · rw [if_pos ⟨hj, hs⟩, if_pos hj]
  · rw [if_neg fun he => hj he.1, if_neg hj, Nat.add_zero]

theorem registrations_register (hs : s < l.services.size) (j : ServiceId) :
    ((l.register m s).1.service j).registrations = (l.service j).registrations + if s = j then 1 else 0 := by
  have hservices : (l.register m s).1.services = (l.countRegistration s).services := services_tellInstalled _ _
  rw [← registrations_countRegistration hs, service, hservices]
  rfl

theorem table_attempt {x : Attempt} (hx : l.Knows x) (j : AllocatorId) :
    ((l.attempt x).1.allocator j).table =
      if x.allocator = j then ((l.allocator j).table.install x.hook).1 else (l.allocator j).table := by
  have hinstall : ∀ {m} (hook : Hook), m < l.allocators.size → ((l.install m hook).1.allocator j).table =
      if m = j then ((l.allocator j).table.install hook).1 else (l.allocator j).table := by
    intro m hook hm
    rw [table_install hm]
    split
    · rename_i hj
      rw [hj]
    · rfl
  cases x with
  | register m s =>
    have hsame : (l.register m s).1.allocator j = (l.install m (.adapter s)).1.allocator j :=
      congrArg (·.get j) allocators_register
    exact (congrArg Allocator.table hsame).trans (hinstall (.adapter s) hx.1)
  | install m hook => exact hinstall hook hx

theorem attempt_snd (x : Attempt) : (l.attempt x).2 =
    ((l.allocator x.allocator).table.install x.hook).2.map
      fun _ => ((l.allocator x.allocator).table.install x.hook).1.claimed := by
  cases x with
  | register m s => exact register_snd
  | install m hook => rfl

theorem registrations_attempt {x : Attempt} (hx : l.Knows x) (j : ServiceId) :
    ((l.attempt x).1.service j).registrations = (l.service j).registrations + if x.registers j then 1 else 0 := by
  cases x with
  | register m s => exact (registrations_register hx.2 j).trans (by simp [Attempt.registers])
  | install m hook => rfl

/-! ## All attempts -/

section
variable {tries : Attempts}

theorem History.table (h : History tries l) (m : AllocatorId) : (l.allocator m).table = .after (tries.hooks m) := by
  induction h with
  | nil => rfl
  | start _ ih => exact ih
  | act _ t ha ih => exact ((perform_uninstalled ha).table m).trans ih
  | @attempt tries l _ x hx ih =>
    rw [table_attempt hx]
    by_cases hm : x.allocator = m
    · subst hm
      rw [if_pos rfl, ih, (HookTable.install_after _ _).1, Attempts.hooks_cons_self]
    · rw [if_neg hm, ih, Attempts.hooks_cons_ne hm]

theorem History.attempt_snd (h : History tries l) (x : Attempt) :
    (l.attempt x).2 = HookTable.answer (tries.hooks x.allocator).length := by
  rw [Ledger.attempt_snd, h.table]
  exact (HookTable.install_after _ _).2

theorem History.answers (h : History tries l) (m : AllocatorId) :
    tries.answers m = (List.range (tries.hooks m).length).map HookTable.answer := by
  induction h with
  | nil => rfl
  | start _ ih => exact ih
  | act _ _ _ ih => exact ih
  | @attempt tries l h x _ ih =>
    by_cases hm : x.allocator = m
    · subst hm
      rw [Attempts.answers_cons_self, Attempts.hooks_cons_self, ih, h.attempt_snd, List.length_append,
        List.length_singleton, List.range_succ, List.map_append]
      rfl
    · rw [Attempts.answers_cons_ne hm, Attempts.hooks_cons_ne hm, ih]

theorem History.registrations (h : History tries l) (s : ServiceId) :
    (l.service s).registrations = tries.registrations s := by
  induction h with
  | nil => rfl
  | start _ ih => exact ih
  | act _ t ha ih => exact ((perform_uninstalled ha).registrations s).trans ih
  | attempt _ hx ih => rw [registrations_attempt hx, ih, Attempts.registrations_cons]

/-! ## What an allocator and a service have of it -/

theorem History.equipped (h : History tries l) (m : AllocatorId) :
    (l.allocator m).Equipped (tries.hooks m) (tries.answers m) where
  answers := h.answers m
  places := by rw [h.table]; rfl
  hooks := by rw [Allocator.hooks, h.table, HookTable.hooks_after]
  installed := by rw [Allocator.installed, h.table]; rfl
  filled := by rw [Allocator.installed, h.table, HookTable.claimed_after]

/-- Once a table is full, nothing at all changes. -/
theorem History.install_of_full (h : History tries l) (hfull : maxHooks ≤ (tries.hooks m).length) (hook : Hook) :
    (l.install m hook).1 = l := by
  have hsame : ((l.allocator m).install hook).1 = l.allocator m := by
    have htable : ((l.allocator m).table.install hook).1 = (l.allocator m).table := by
      rw [h.table, HookTable.install_of_full hfull]
    rw [Allocator.install, htable]
  have hallocators : l.allocators.modify m (fun _ => ((l.allocator m).install hook).1) = l.allocators :=
    (Table.modify_congr hsame).trans (l.allocators.modify_id m)
  exact congrArg (fun allocators => { l with allocators }) hallocators

theorem journal_countRegistration (s : ServiceId) : (l.countRegistration s).journal =
    (if (l.service s).registrations = 0 then [] else [.notice (.registeredAgain ((l.service s).registrations + 1))]) ++
      l.journal := by
  unfold countRegistration
  dsimp only
  split <;> rfl

/-- A table that is not broken lets every attempt end in a notice. -/
theorem journal_tellInstalled (threshold : UInt64) (earlier : Nat) :
    (l.tellInstalled threshold (HookTable.answer earlier)).journal =
      .notice (conclusion threshold (HookTable.answer earlier)) :: l.journal := by
  unfold HookTable.answer
  split <;> rfl

theorem History.registers (h : History tries l) (m : AllocatorId) (s : ServiceId) :
    l.Registers m s (tries.registrations s + 1) where
  answer := register_snd
  allocators := allocators_register
  registrations hs := (registrations_register hs s).trans (by rw [if_pos rfl, h.registrations])
  journal := by
    have hanswer : (l.register m s).2 = HookTable.answer (tries.hooks m).length := h.attempt_snd (.register m s)
    show (tellInstalled _ _ (l.register m s).2).journal = _
    rw [hanswer, journal_tellInstalled]
    refine congrArg (List.cons _) ((journal_countRegistration s).trans ?_)
    rw [h.registrations]
    by_cases hfirst : tries.registrations s = 0
    · rw [if_pos hfirst, if_neg (by omega)]
    · rw [if_neg hfirst, if_pos (by omega)]

/-! ## Runs -/

theorem History.foldl {α : Type} {f : Ledger → α → Ledger} (hf : ∀ l a, History tries l → History tries (f l a)) :
    ∀ (as : List α) {l : Ledger}, History tries l → History tries (as.foldl f l)
  | [], _, h => h
  | a :: as, _, h => History.foldl hf as (hf _ a h)

theorem History.systemBlocks (h : History tries l) (t : ThreadId) (hs : s < l.services.size) (sizes : List UInt64)
    (align : UInt64) : ∃ tries, History tries (l.systemBlocks t s sizes align).1 := by
  let m : AllocatorId := l.allocators.size
  have hnew : History tries (l.newAllocator .exact).1 := h.act t (a := .newAllocator .exact) rfl
  have hknows : (l.newAllocator .exact).1.Knows (.register m s) :=
    ⟨lt_of_lt_of_eq (Nat.lt_succ_self _) (Table.size_add ..).symm, hs⟩
  refine ⟨_, History.foldl (fun l b hl => ?_) _ (History.foldl (fun l b hl => ?_) _ (hnew.attempt hknows))⟩
  · exact hl.act t (a := .deallocate b.2) rfl
  · exact hl.act t (a := .allocate m b.1 (some b.2)) rfl

/-- Every run is made of attempts and whatever else is done in between. -/
theorem Run.history {h : Holdings} (hr : Run h l) : ∃ tries, History tries l := by
  induction hr with
  | nil => exact ⟨[], .nil⟩
  | start _ ih =>
    obtain ⟨tries, hl⟩ := ih
    exact ⟨tries, hl.start⟩
  | @act h l t a _ _ _ ha ih =>
    obtain ⟨tries, hl⟩ := ih
    cases hi : a.installs with
    | false => exact ⟨tries, hl.act t hi⟩
    | true =>
      cases a with
      | register m s => exact ⟨_, toldOr_fst .. ▸ hl.attempt (x := .register m s) ha⟩
      | install m name => exact ⟨_, toldOr_fst .. ▸ hl.attempt (x := .install m (.recorder name)) ha⟩
      | systemBlocks s sizes align => exact hl.systemBlocks t ha sizes align
      | _ => cases hi

end

end

end Ledger

end HeapLedger
