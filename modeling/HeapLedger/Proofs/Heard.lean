import HeapLedger.Proofs.Reports
import HeapLedger.Proofs.Run

/-!
# Hooks and the blocks in use

What a hook is told of a block follows what becomes of the block. So whatever a hook was told since it was installed,
the allocations of a block less its frees say whether the block is in use now, against what was in use by then.
-/

namespace HeapLedger

open Ledger

def Report.toward? (m : AllocatorId) (i : Nat) (r : Report) : Option (BlockEvent × Address × Layout) :=
  if r.allocator = m ∧ r.hook = i then some (r.kind, r.address, r.layout) else none

namespace Ledger

def heard (l : Ledger) (m : AllocatorId) (i : Nat) : List (BlockEvent × Address × Layout) :=
  (reports l.journal).filterMap (Report.toward? m i)

/-- How many more allocations of a block than frees a hook was told of. -/
def unmatched (l : Ledger) (m : AllocatorId) (i : Nat) (a : Address) (layout : Layout) : Int :=
  (l.heard m i).count (.alloc, a, layout) - (l.heard m i).count (.free, a, layout)

def live (l : Ledger) (m : AllocatorId) (a : Address) (layout : Layout) : Int :=
  if l.heap.find? a = some ⟨m, layout⟩ then 1 else 0

def skew (l : Ledger) (m : AllocatorId) (i : Nat) (a : Address) (layout : Layout) : Int :=
  l.unmatched m i a layout - l.live m a layout

section
variable {rs : List Report} {l l' l'' : Ledger} {t : ThreadId} {m : AllocatorId} {kind : BlockEvent} {a : Address}
  {layout : Layout}

theorem Tells.heard (h : Tells rs l l') (m : AllocatorId) (i : Nat) :
    l'.heard m i = rs.filterMap (Report.toward? m i) ++ l.heard m i := by
  rw [Ledger.heard, h.reports, List.filterMap_append]
  rfl

theorem filterMap_range_eq {α : Type} (n i : Nat) (x : α) :
    (List.range n).filterMap (fun j => if j = i then some x else none) = if i < n then [x] else [] := by
  induction n with
  | zero => rfl
  | succ n ih =>
    rw [List.range_succ, List.filterMap_append, ih]
    by_cases hn : n = i
    · simp [hn]
    · by_cases hlt : i < n
      · simp [hn, hlt, Nat.lt_succ_of_lt hlt]
      · have hge : ¬ i < n + 1 := by omega
        simp [hn, hlt, hge]

theorem heard_runHooks (j : AllocatorId) (i : Nat) : (l.runHooks t m kind a layout).heard j i =
    if j = m ∧ i < (l.allocator m).hooks.length then (kind, a, layout) :: l.heard j i else l.heard j i := by
  rw [(runHooks_tells l t m kind a layout).heard, List.filterMap_reverse, List.filterMap_map]
  by_cases hj : j = m
  · subst hj
    have hplace : Report.toward? j i ∘ l.report j kind a layout =
        fun n => if n = i then some (kind, a, layout) else none := by
      funext n
      simp [Report.toward?, report]
    rw [hplace, filterMap_range_eq]
    by_cases hi : i < (l.allocator j).hooks.length <;> simp [hi]
  · have hplace : Report.toward? j i ∘ l.report m kind a layout = fun _ => none := by
      funext n
      simp [Report.toward?, report, Ne.symm hj]
    rw [hplace]
    simp [hj]

/-! ## Calls -/

/-- Hooks are told what becomes of blocks, as far as they are installed. -/
structure Faithful (l l' : Ledger) : Prop where
  hooks : ∀ m, (l'.allocator m).hooks = (l.allocator m).hooks
  installed : ∀ m i, i < (l.allocator m).hooks.length → ∀ a layout, l'.skew m i a layout = l.skew m i a layout
  absent : ∀ m i, (l.allocator m).hooks.length ≤ i → l'.heard m i = l.heard m i

theorem Faithful.refl (l : Ledger) : Faithful l l := ⟨fun _ => rfl, fun _ _ _ _ _ => rfl, fun _ _ _ => rfl⟩

theorem Faithful.trans (h : Faithful l l') (h' : Faithful l' l'') : Faithful l l'' where
  hooks m := (h'.hooks m).trans (h.hooks m)
  installed m i hi a layout := (h'.installed m i (h.hooks m ▸ hi) a layout).trans (h.installed m i hi a layout)
  absent m i hi := (h'.absent m i (h.hooks m ▸ hi)).trans (h.absent m i hi)

theorem Tells.faithful (h : Tells [] l l') : Faithful l l' where
  hooks := h.hooks
  installed m i _ a layout := by
    simp only [skew, unmatched, live, h.heard, h.heap, List.filterMap_nil, List.nil_append]
  absent m i _ := h.heard m i

def step : BlockEvent → Int
  | .alloc => 1
  | .free => -1

theorem unmatched_of_heard {i : Nat} (h : l'.heard m i = (kind, a, layout) :: l.heard m i) (b : Address)
    (layout' : Layout) :
    l'.unmatched m i b layout' = l.unmatched m i b layout' + if b = a ∧ layout' = layout then step kind else 0 := by
  unfold unmatched
  rw [h, List.count_cons, List.count_cons]
  by_cases hb : b = a ∧ layout' = layout
  · obtain ⟨rfl, rfl⟩ := hb
    cases kind <;> simp [step] <;> omega
  · have hne : ∀ kind', ((kind, a, layout) == (kind', b, layout')) = false := by
      intro kind'
      refine beq_eq_false_iff_ne.mpr fun he => hb ?_
      simp only [Prod.mk.injEq] at he
      exact ⟨he.2.1.symm, he.2.2.symm⟩
    simp [hb, hne]

theorem live_put {heap : Directory Address Block} (hfree : heap.find? a = none) (j : AllocatorId) (b : Address)
    (layout' : Layout) : live { l with heap := heap.put a ⟨m, layout⟩ } j b layout' =
      live { l with heap } j b layout' + if j = m ∧ b = a ∧ layout' = layout then 1 else 0 := by
  unfold live
  rw [Directory.find?_put]
  by_cases hb : b = a
  · subst hb
    simp [hfree, eq_comm]
  · simp [hb]

theorem live_erase {heap : Directory Address Block} (hblock : heap.find? a = some ⟨m, layout⟩) (j : AllocatorId)
    (b : Address) (layout' : Layout) : live { l with heap := heap.erase a } j b layout' =
      live { l with heap } j b layout' + if j = m ∧ b = a ∧ layout' = layout then -1 else 0 := by
  unfold live
  rw [Directory.find?_erase]
  by_cases hb : b = a
  · subst hb
    by_cases hj : j = m ∧ layout' = layout
    · obtain ⟨rfl, rfl⟩ := hj
      simp [hblock]
    · have hne : ¬ (m = j ∧ layout = layout') := fun he => hj ⟨he.1.symm, he.2.symm⟩
      simp [hblock, hj, hne]
  · simp [hb]

/-- What becomes of a block is told to the hooks of its allocator. -/
theorem faithful_of_told (hooks : ∀ j, (l'.allocator j).hooks = (l.allocator j).hooks)
    (hheard : ∀ j i, l'.heard j i =
      if j = m ∧ i < (l.allocator m).hooks.length then (kind, a, layout) :: l.heard j i else l.heard j i)
    (hlive : ∀ j b layout', l'.live j b layout' =
      l.live j b layout' + if j = m ∧ b = a ∧ layout' = layout then step kind else 0) : Faithful l l' where
  hooks := hooks
  installed j i hi b layout' := by
    unfold skew
    rw [hlive]
    by_cases hj : j = m
    · subst hj
      rw [unmatched_of_heard ((hheard j i).trans (if_pos ⟨rfl, hi⟩))]
      simp only [true_and]
      omega
    · have hsame : l'.heard j i = l.heard j i := (hheard j i).trans (if_neg fun he => hj he.1)
      simp only [unmatched, hsame, hj, false_and, if_false, Int.add_zero]
  absent j i hi := by
    rw [hheard, if_neg]
    rintro ⟨rfl, hlt⟩
    exact absurd hlt (Nat.not_lt.mpr hi)

theorem faithful_put (hfree : l.heap.find? a = none) :
    Faithful l ({ l with heap := l.heap.put a ⟨m, layout⟩ }.runHooks t m .alloc a layout) := by
  let put : Ledger := { l with heap := l.heap.put a ⟨m, layout⟩ }
  have hheap : (put.runHooks t m .alloc a layout).heap = put.heap := (runHooks_tells put t m .alloc a layout).heap
  refine faithful_of_told (runHooks_tells put t m .alloc a layout).hooks (heard_runHooks (l := put)) fun j b layout' => ?_
  rw [live, hheap]
  exact live_put (l := l) hfree j b layout'

theorem faithful_erase (hblock : l.heap.find? a = some ⟨m, layout⟩) :
    Faithful l { (l.runHooks t m .free a layout).countCall t m with heap := l.heap.erase a } := by
  have hcount := tells_countCall (t := t) (l := l.runHooks t m .free a layout) m
  refine faithful_of_told (fun j => (hcount.hooks j).trans ((runHooks_tells l t m .free a layout).hooks j))
    (fun j i => (hcount.heard j i).trans (heard_runHooks j i)) ?_
  exact live_erase (l := l) hblock

theorem allocate_faithful (layout : Layout) {granted : Option Address} (hfree : ∀ a ∈ granted, l.heap.find? a = none) :
    Faithful l (l.allocate t m layout granted) := by
  have hcount := tells_countCall (t := t) (l := l) m
  unfold allocate
  cases granted with
  | none => exact hcount.faithful
  | some a => exact hcount.faithful.trans (faithful_put (hcount.heap ▸ hfree a rfl))

theorem heap_runHooks : (l.runHooks t m kind a layout).heap = l.heap := (runHooks_tells l t m kind a layout).heap

theorem heap_countCall : (l.countCall t m).heap = l.heap := (tells_countCall m).heap

theorem deallocate_faithful (a : Address) : Faithful l (l.deallocate t a) := by
  unfold deallocate
  split
  · exact .refl l
  · rename_i block hblock
    dsimp only
    rw [heap_countCall, heap_runHooks]
    exact faithful_erase hblock

/-- A block that is told of as taken back, and then as handed out again, stays as it is. -/
theorem faithful_kept (hblock : l.heap.find? a = some ⟨m, layout⟩) :
    Faithful l (((l.runHooks t m .free a layout).countCall t m).runHooks t m .alloc a layout) := by
  let freed : Ledger := (l.runHooks t m .free a layout).countCall t m
  have hcount := tells_countCall (t := t) (l := l.runHooks t m .free a layout) m
  have hfreed : ∀ j i, freed.heard j i =
      if j = m ∧ i < (l.allocator m).hooks.length then (.free, a, layout) :: l.heard j i else l.heard j i :=
    fun j i => (hcount.heard j i).trans (heard_runHooks j i)
  have hhooks : ∀ j, (freed.allocator j).hooks = (l.allocator j).hooks := fun j =>
    (hcount.hooks j).trans ((runHooks_tells l t m .free a layout).hooks j)
  have hheard : ∀ j i, (freed.runHooks t m .alloc a layout).heard j i =
      if j = m ∧ i < (l.allocator m).hooks.length then (.alloc, a, layout) :: freed.heard j i else freed.heard j i := by
    intro j i
    rw [heard_runHooks, hhooks]
  have hheap : (freed.runHooks t m .alloc a layout).heap = l.heap :=
    heap_runHooks.trans (heap_countCall.trans heap_runHooks)
  show Faithful l (freed.runHooks t m .alloc a layout)
  refine ⟨fun j => ((runHooks_tells freed t m .alloc a layout).hooks j).trans (hhooks j), fun j i hi b layout' => ?_,
    fun j i hi => ?_⟩
  · unfold skew live
    rw [hheap]
    by_cases hj : j = m
    · subst hj
      rw [unmatched_of_heard ((hheard j i).trans (if_pos ⟨rfl, hi⟩)),
        unmatched_of_heard ((hfreed j i).trans (if_pos ⟨rfl, hi⟩))]
      simp only [step]
      split <;> omega
    · have hsame : (freed.runHooks t m .alloc a layout).heard j i = l.heard j i := by
        rw [hheard, hfreed, if_neg fun he => hj he.1, if_neg fun he => hj he.1]
      simp only [unmatched, hsame]
  · have hnot : ¬ (j = m ∧ i < (l.allocator m).hooks.length) := by
      rintro ⟨rfl, hlt⟩
      exact absurd hlt (Nat.not_lt.mpr hi)
    rw [hheard, hfreed, if_neg hnot, if_neg hnot]

theorem reallocate_faithful (a : Address) (size : UInt64) {granted : Option Address}
    (hfree : ∀ a' ∈ granted, a' = a ∨ l.heap.find? a' = none) : Faithful l (l.reallocate t a size granted) := by
  unfold reallocate
  split
  · exact .refl l
  · rename_i block hblock
    cases granted with
    | none => exact faithful_kept hblock
    | some a' =>
      dsimp only
      rw [heap_countCall, heap_runHooks]
      refine (faithful_erase (t := t) hblock).trans (faithful_put ?_)
      show (l.heap.erase a).find? a' = none
      rw [Directory.find?_erase]
      rcases hfree a' rfl with ha | ha
      · exact if_pos ha
      · rw [ha, ite_self]

end

/-! ## Installing hooks -/

structure Equips (l l' : Ledger) : Prop where
  heap : l'.heap = l.heap
  reports : reports l'.journal = reports l.journal
  hooks : ∀ m, (l.allocator m).hooks.length ≤ (l'.allocator m).hooks.length

section
variable {l l' l'' : Ledger} {t : ThreadId}

theorem Equips.trans (h : Equips l l') (h' : Equips l' l'') : Equips l l'' where
  heap := h'.heap.trans h.heap
  reports := h'.reports.trans h.reports
  hooks m := Nat.le_trans (h.hooks m) (h'.hooks m)

theorem Tells.equips (h : Tells [] l l') : Equips l l' where
  heap := h.heap
  reports := h.reports
  hooks m := Nat.le_of_eq (congrArg List.length (h.hooks m).symm)

theorem Equips.heard (h : Equips l l') (m : AllocatorId) (i : Nat) : l'.heard m i = l.heard m i := by
  rw [Ledger.heard, h.reports]
  rfl

theorem Equips.skew (h : Equips l l') (m : AllocatorId) (i : Nat) (a : Address) (layout : Layout) :
    l'.skew m i a layout = l.skew m i a layout := by
  simp only [Ledger.skew, unmatched, live, h.heard, h.heap]

theorem equips_newAllocator (usable : UsableSize) : Equips l (l.newAllocator usable).1 where
  heap := rfl
  reports := rfl
  hooks m := by
    show (l.allocators.get m).hooks.length ≤ ((l.allocators.add _).get m).hooks.length
    rw [Table.get_add]
    split
    · rename_i hm
      rw [Table.get_of_size_le (Nat.le_of_eq hm.symm)]
      exact Nat.zero_le _
    · exact Nat.le_refl _

theorem equips_install (m : AllocatorId) (hook : Hook) : Equips l (l.install m hook).1 := by
  refine ⟨rfl, rfl, fun j => ?_⟩
  show _ ≤ ((l.allocators.modify m _).get j).hooks.length
  rw [Table.get_modify]
  split
  · rename_i hj
    rw [← hj.1]
    exact HookTable.length_hooks_install_le
  · exact Nat.le_refl _

theorem equips_countRegistration (s : ServiceId) : Equips l (l.countRegistration s) := by
  let counted : Ledger := l.modifyService s fun svc => { svc with registrations := svc.registrations + 1 }
  have hcount : Equips l counted := ⟨rfl, rfl, fun _ => Nat.le_refl _⟩
  unfold countRegistration
  dsimp only
  split
  · exact hcount
  · exact hcount.trans (tells_post rfl).equips

theorem tellInstalled_tells (threshold : UInt64) (installed : Except RegisterError Nat) :
    Tells [] l (l.tellInstalled threshold installed) := by
  unfold tellInstalled
  split
  · exact tells_post rfl
  · exact tells_post rfl
  · exact .refl l

theorem equips_register (m : AllocatorId) (s : ServiceId) : Equips l (l.register m s).1 :=
  ((equips_countRegistration s).trans (equips_install m (.adapter s))).trans (tellInstalled_tells _ _).equips

/-! ## Actions -/

theorem lt_foldl_max : ∀ (entries : List (Nat × Block)) (n : Nat),
    n ≤ entries.foldl (fun a e => max a (e.1 + 1)) n ∧
      ∀ e ∈ entries, e.1 < entries.foldl (fun a e => max a (e.1 + 1)) n
  | [], n => ⟨Nat.le_refl n, fun _ he => by cases he⟩
  | e :: entries, n => by
    obtain ⟨hle, hall⟩ := lt_foldl_max entries (max n (e.1 + 1))
    refine ⟨by simp only [List.foldl_cons]; omega, fun e' he => ?_⟩
    rcases List.mem_cons.mp he with rfl | he
    · simp only [List.foldl_cons]; omega
    · exact hall e' he

theorem find?_of_freshAddress {a : Address} (h : l.freshAddress ≤ a) : l.heap.find? a = none := by
  cases hfind : l.heap.find? a with
  | none => rfl
  | some block =>
    have hlt : a < l.freshAddress := (lt_foldl_max _ _).2 _ (Directory.mem_of_find? hfind)
    exact absurd hlt (Nat.not_lt.mpr h)

theorem allocates_faithful (m : AllocatorId) : ∀ (layouts : List Layout) (n : Nat) (l : Ledger),
    (∀ a, n ≤ a → l.heap.find? a = none) →
      Faithful l ((layouts.zipIdx n).foldl (fun l b => l.allocate t m b.1 (some b.2)) l)
  | [], _, l, _ => .refl l
  | layout :: layouts, n, l, hfree => by
    have hfirst : Faithful l (l.allocate t m layout (some n)) := by
      refine allocate_faithful layout fun a ha => ?_
      obtain rfl := Option.some.inj ha
      exact hfree n (Nat.le_refl n)
    refine hfirst.trans (allocates_faithful m layouts (n + 1) _ fun a ha => ?_)
    show ({ l.countCall t m with heap := (l.countCall t m).heap.put n ⟨m, layout⟩ }.runHooks t m .alloc n layout).heap.find? a
      = none
    rw [heap_runHooks, heap_countCall, Directory.find?_put, if_neg (Nat.ne_of_gt ha)]
    exact hfree a (Nat.le_of_lt ha)

theorem deallocates_faithful : ∀ (blocks : List (Layout × Address)) (l : Ledger),
    Faithful l (blocks.foldl (fun l b => l.deallocate t b.2) l)
  | [], l => .refl l
  | b :: blocks, _ => (deallocate_faithful b.2).trans (deallocates_faithful blocks _)

def Informs (l l' : Ledger) : Prop := ∃ mid, Equips l mid ∧ Faithful mid l'

theorem systemBlocks_informs (s : ServiceId) (sizes : List UInt64) (align : UInt64) :
    Informs l (l.systemBlocks t s sizes align).1 := by
  let equipped : Ledger := ((l.newAllocator .exact).1.register l.allocators.size s).1
  have hequips : Equips l equipped := (equips_newAllocator .exact).trans (equips_register _ s)
  have hall := allocates_faithful (t := t) l.allocators.size (sizes.map fun size => Layout.mk size align)
    equipped.freshAddress equipped fun a => find?_of_freshAddress
  exact ⟨equipped, hequips, hall.trans (deallocates_faithful _ _)⟩

theorem perform_informs {h : Holdings} {a : Action} (t : ThreadId) (ha : l.Admits h a) : Informs l (l.perform t a).1 := by
  have hequips : ∀ {l'}, Equips l l' → Informs l l' := fun hl => ⟨_, hl, .refl _⟩
  have hfaithful : ∀ {l'}, Faithful l l' → Informs l l' := fun hl => ⟨l, (Tells.refl l).equips, hl⟩
  cases hb : a.handles with
  | false => exact hequips (perform_tells l t hb).equips
  | true =>
    cases a with
    | newAllocator usable => exact hequips (equips_newAllocator usable)
    | register m s =>
      show Informs l (toldOr .register .installed (l.register m s)).1
      rw [toldOr_fst]
      exact hequips (equips_register m s)
    | install m name =>
      show Informs l (toldOr .register .installed (l.install m (.recorder name))).1
      rw [toldOr_fst]
      exact hequips (equips_install m _)
    | allocate m layout granted => exact hfaithful (allocate_faithful layout ha.2)
    | reallocate a size granted => exact hfaithful (reallocate_faithful a size ha.2)
    | deallocate a => exact hfaithful (deallocate_faithful a)
    | usable m a layout => exact hequips (tells_countCall m).equips
    | notify m s kind a layout =>
      show Informs l (l.notify t m s kind a layout)
      cases a with
      | none => exact hequips (Tells.refl l).equips
      | some a => exact hequips (chargeBlock_tells l t m kind a layout s).equips
    | systemBlocks s sizes align => exact systemBlocks_informs s sizes align
    | _ => cases hb

theorem Informs.hooks (h : Informs l l') (m : AllocatorId) :
    (l.allocator m).hooks.length ≤ (l'.allocator m).hooks.length := by
  obtain ⟨mid, hequips, hfaithful⟩ := h
  rw [hfaithful.hooks]
  exact hequips.hooks m

theorem Informs.skew (h : Informs l l') {m : AllocatorId} {i : Nat} (hi : i < (l'.allocator m).hooks.length)
    (a : Address) (layout : Layout) : l'.skew m i a layout = l.skew m i a layout := by
  obtain ⟨mid, hequips, hfaithful⟩ := h
  exact (hfaithful.installed m i (hfaithful.hooks m ▸ hi) a layout).trans (hequips.skew m i a layout)

theorem Informs.heard (h : Informs l l') {m : AllocatorId} {i : Nat} (hi : (l'.allocator m).hooks.length ≤ i) :
    l'.heard m i = l.heard m i := by
  obtain ⟨mid, hequips, hfaithful⟩ := h
  exact (hfaithful.absent m i (hfaithful.hooks m ▸ hi)).trans (hequips.heard m i)

/-! ## When hooks are told -/

/-- Whatever hooks are told of is in use at that time, with the layout that they are told. -/
def Truthful (l : Ledger) : Prop := ∀ r ∈ reports l.journal, r.found = some ⟨r.allocator, r.layout⟩

theorem Truthful.tells (h : Truthful l) (ht : Tells [] l l') : Truthful l' := by
  intro r hr
  rw [ht.reports] at hr
  exact h r hr

theorem Truthful.runHooks (h : Truthful l) {m : AllocatorId} {kind : BlockEvent} {a : Address} {layout : Layout}
    (hblock : l.heap.find? a = some ⟨m, layout⟩) : Truthful (l.runHooks t m kind a layout) := by
  intro r hr
  rw [(runHooks_tells l t m kind a layout).reports] at hr
  rcases List.mem_append.mp hr with hr | hr
  · obtain ⟨i, -, rfl⟩ := List.mem_map.mp (List.mem_reverse.mp hr)
    exact hblock
  · exact h r hr

theorem Truthful.put (h : Truthful l) (heap : Directory Address Block) (m : AllocatorId) (a : Address) (layout : Layout) :
    Truthful ({ l with heap := heap.put a ⟨m, layout⟩ }.runHooks t m .alloc a layout) := by
  let put : Ledger := { l with heap := heap.put a ⟨m, layout⟩ }
  have hput : Truthful put := h
  refine hput.runHooks ?_
  show (heap.put a ⟨m, layout⟩).find? a = _
  rw [Directory.find?_put, if_pos rfl]

theorem Truthful.allocate (h : Truthful l) (m : AllocatorId) (layout : Layout) (granted : Option Address) :
    Truthful (l.allocate t m layout granted) := by
  have hcount := h.tells (tells_countCall (t := t) m)
  unfold Ledger.allocate
  cases granted with
  | none => exact hcount
  | some a => exact hcount.put _ m a layout

theorem Truthful.deallocate (h : Truthful l) (a : Address) : Truthful (l.deallocate t a) := by
  unfold Ledger.deallocate
  split
  · exact h
  · rename_i block hblock
    have htold : Truthful (l.runHooks t block.allocator .free a block.layout) := h.runHooks hblock
    have hfreed := htold.tells (tells_countCall (t := t) block.allocator)
    exact fun r hr => hfreed r hr

theorem Truthful.reallocate (h : Truthful l) (a : Address) (size : UInt64) (granted : Option Address) :
    Truthful (l.reallocate t a size granted) := by
  unfold Ledger.reallocate
  split
  · exact h
  · rename_i block hblock
    have htold : Truthful (l.runHooks t block.allocator .free a block.layout) := h.runHooks hblock
    have hfreed := htold.tells (tells_countCall (t := t) block.allocator)
    cases granted with
    | none => exact hfreed.runHooks (by rw [heap_countCall, heap_runHooks]; exact hblock)
    | some a' => exact hfreed.put _ block.allocator a' _

theorem Truthful.equips (h : Truthful l) (he : Equips l l') : Truthful l' := by
  intro r hr
  rw [he.reports] at hr
  exact h r hr

theorem Truthful.allocates (m : AllocatorId) : ∀ (blocks : List (Layout × Address)) {l : Ledger}, Truthful l →
    Truthful (blocks.foldl (fun l b => l.allocate t m b.1 (some b.2)) l)
  | [], _, h => h
  | b :: blocks, _, h => allocates m blocks (h.allocate m b.1 (some b.2))

theorem Truthful.deallocates : ∀ (blocks : List (Layout × Address)) {l : Ledger}, Truthful l →
    Truthful (blocks.foldl (fun l b => l.deallocate t b.2) l)
  | [], _, h => h
  | b :: blocks, _, h => deallocates blocks (h.deallocate b.2)

theorem Truthful.systemBlocks (h : Truthful l) (s : ServiceId) (sizes : List UInt64) (align : UInt64) :
    Truthful (l.systemBlocks t s sizes align).1 := by
  have hequipped := (h.equips (equips_newAllocator .exact)).equips (equips_register l.allocators.size s)
  exact deallocates _ (allocates _ _ hequipped)

theorem Truthful.perform (h : Truthful l) (a : Action) : Truthful (l.perform t a).1 := by
  cases hb : a.handles with
  | false => exact h.tells (perform_tells l t hb)
  | true =>
    cases a with
    | newAllocator usable => exact h.equips (equips_newAllocator usable)
    | register m s =>
      show Truthful (toldOr .register .installed (l.register m s)).1
      rw [toldOr_fst]
      exact h.equips (equips_register m s)
    | install m name =>
      show Truthful (toldOr .register .installed (l.install m (.recorder name))).1
      rw [toldOr_fst]
      exact h.equips (equips_install m _)
    | allocate m layout granted => exact h.allocate m layout granted
    | reallocate a size granted => exact h.reallocate a size granted
    | deallocate a => exact h.deallocate a
    | usable m a layout => exact h.tells (tells_countCall m)
    | notify m s kind a layout =>
      cases a with
      | none => exact h
      | some a => exact h.tells (chargeBlock_tells l t m kind a layout s)
    | systemBlocks s sizes align => exact h.systemBlocks s sizes align
    | _ => cases hb

/-- What a hook of an allocator is told by each call. -/
structure Announces (l : Ledger) (t : ThreadId) (m : AllocatorId) (i : Nat) : Prop where
  refused : ∀ layout, reports (l.allocate t m layout none).journal = reports l.journal
  granted : ∀ layout a, (l.allocate t m layout (some a)).heard m i = (.alloc, a, layout) :: l.heard m i
  freed : ∀ a layout, l.heap.find? a = some ⟨m, layout⟩ →
    (l.deallocate t a).heard m i = (.free, a, layout) :: l.heard m i
  moved : ∀ a layout size a', l.heap.find? a = some ⟨m, layout⟩ →
    (l.reallocate t a size (some a')).heard m i =
      (.alloc, a', { layout with size }) :: (.free, a, layout) :: l.heard m i
  kept : ∀ a layout size, l.heap.find? a = some ⟨m, layout⟩ →
    (l.reallocate t a size none).heard m i = (.alloc, a, layout) :: (.free, a, layout) :: l.heard m i

theorem announces {m : AllocatorId} {i : Nat} (hi : i < (l.allocator m).hooks.length) : Announces l t m i := by
  have hcount : ∀ l : Ledger, (l.countCall t m).heard m i = l.heard m i := fun _ => (tells_countCall m).heard m i
  have hlt : ∀ l' : Ledger, i < (l'.allocator m).hooks.length → i < ((l'.countCall t m).allocator m).hooks.length :=
    fun l' h => (tells_countCall (t := t) (l := l') m).hooks m ▸ h
  have htold : ∀ (l' : Ledger) heap kind a layout, i < (l'.allocator m).hooks.length →
      ({ l' with heap }.runHooks t m kind a layout).heard m i = (kind, a, layout) :: l'.heard m i :=
    fun l' heap kind a layout h => (heard_runHooks (l := { l' with heap }) m i).trans (if_pos ⟨rfl, h⟩)
  have hfreed : ∀ a layout, i < (((l.runHooks t m .free a layout).countCall t m).allocator m).hooks.length ∧
      ((l.runHooks t m .free a layout).countCall t m).heard m i = (.free, a, layout) :: l.heard m i := fun a layout =>
    ⟨hlt _ ((runHooks_tells l t m .free a layout).hooks m ▸ hi), (hcount _).trans (htold l l.heap .free a layout hi)⟩
  refine ⟨fun layout => (tells_countCall m).reports, fun layout a => ?_, fun a layout h => ?_, fun a layout size a' h => ?_,
    fun a layout size h => ?_⟩
  · exact (htold (l.countCall t m) _ .alloc a layout (hlt l hi)).trans (congrArg _ (hcount l))
  · simp only [deallocate, h]
    exact (hfreed a layout).2
  · simp only [reallocate, h]
    exact (htold (countCall _ t m) _ .alloc a' _ (hfreed a layout).1).trans (congrArg _ (hfreed a layout).2)
  · simp only [reallocate, h]
    exact (htold (countCall _ t m) _ .alloc a layout (hfreed a layout).1).trans (congrArg _ (hfreed a layout).2)

end

end Ledger

/-! ## Runs -/

inductive Since (h₀ : Holdings) (l₀ : Ledger) : Holdings → Ledger → Prop
  | here : Since h₀ l₀ h₀ l₀
  | start {h l} (hr : Since h₀ l₀ h l) : Since h₀ l₀ h l.newThread.1
  | act {h l t a} (hr : Since h₀ l₀ h l) (ht : t < l.threads.size) (he : t ∉ h.ended) (ha : l.Admits h a) :
      Since h₀ l₀ (h.after t a (l.perform t a).2) (l.perform t a).1

section
variable {h h' : Holdings} {l l' : Ledger}

theorem Since.hooks (hs : Since h l h' l') (m : AllocatorId) :
    (l.allocator m).hooks.length ≤ (l'.allocator m).hooks.length := by
  induction hs with
  | here => exact Nat.le_refl _
  | start _ ih => exact ih
  | act _ _ _ ha ih => exact Nat.le_trans ih ((perform_informs _ ha).hooks m)

theorem Since.skew (hs : Since h l h' l') {m : AllocatorId} {i : Nat} (hi : i < (l.allocator m).hooks.length)
    (a : Address) (layout : Layout) : l'.skew m i a layout = l.skew m i a layout := by
  induction hs with
  | here => rfl
  | start _ ih => exact ih
  | @act _ _ t _ hs _ _ ha ih =>
    have hinforms := perform_informs t ha
    have hlt := Nat.lt_of_lt_of_le hi (Nat.le_trans (hs.hooks m) (hinforms.hooks m))
    exact (hinforms.skew hlt a layout).trans ih

theorem Run.heard (hr : Run h l) {m : AllocatorId} {i : Nat} (hi : (l.allocator m).hooks.length ≤ i) :
    l.heard m i = [] := by
  induction hr with
  | nil => rfl
  | start _ ih => exact ih hi
  | @act _ _ t _ _ _ _ ha ih =>
    have hinforms := perform_informs t ha
    exact (hinforms.heard hi).trans (ih (Nat.le_trans (hinforms.hooks m) hi))

theorem Run.truthful (hr : Run h l) : Truthful l := by
  induction hr with
  | nil => exact fun _ hm => by cases hm
  | start _ ih => exact ih
  | act _ _ _ _ ih => exact ih.perform _

end

/-- In every run, whatever a hook is told of is in use at that time with the layout that it is told. A block that is
refused is not told of. Every other call tells each hook of its allocator once of what becomes of the block: what is
resized is told of as freed and then as allocated, with the old layout both times if that fails. From its
installation on, however memory is granted and addresses are used again, a hook has heard of as many more allocations
of a block than frees as the block is in use now, less whether it was in use by then. -/
theorem hooks_mirror_heap {h : Holdings} {l : Ledger} (hr : Run h l) :
    (∀ r ∈ reports l.journal, r.found = some ⟨r.allocator, r.layout⟩) ∧
    (∀ t m i, i < (l.allocator m).hooks.length → l.Announces t m i) ∧
    ∀ t < l.threads.size, t ∉ h.ended → ∀ a, l.Admits h a → ∀ m i,
      (l.allocator m).hooks.length ≤ i → i < ((l.perform t a).1.allocator m).hooks.length →
      ∀ h' l', Since (h.after t a (l.perform t a).2) (l.perform t a).1 h' l' →
        (∀ b layout, l'.unmatched m i b layout = l'.live m b layout - l.live m b layout) ∧
        ((∀ b layout, l.heap.find? b ≠ some ⟨m, layout⟩) → ∀ b layout, l'.unmatched m i b layout = l'.live m b layout) := by
  refine ⟨hr.truthful, fun t m i hi => announces hi, fun t _ _ a ha m i hnew hi h' l' hs => ?_⟩
  have hbalance : ∀ b layout, l'.unmatched m i b layout = l'.live m b layout - l.live m b layout := by
    intro b layout
    have hnothing : l.unmatched m i b layout = 0 := by
      rw [unmatched, hr.heard hnew]
      rfl
    have hskew := (hs.skew hi b layout).trans ((perform_informs t ha).skew hi b layout)
    simp only [skew, hnothing] at hskew
    omega
  refine ⟨hbalance, fun hnone b layout => ?_⟩
  have hdead : l.live m b layout = 0 := if_neg (hnone b layout)
  rw [hbalance, hdead, Int.sub_zero]

def unhooked : Ledger := (entered.perform 0 (.newAllocator .exact)).1

theorem run_unhooked : Run { accounts := [⟨⟨1⟩, 0⟩] } unhooked :=
  run_entered.act (t := 0) (a := .newAllocator .exact) (by decide) (by decide) trivial

def hooked : Ledger := (unhooked.perform 0 (.install 0 "audit")).1

theorem hooks_mirror_heap_unhooked :
    Run { accounts := [⟨⟨1⟩, 0⟩] } unhooked ∧
      (hooked.perform 0 (.allocate 0 ⟨8, 8⟩ (some 16))).1.unmatched 0 0 16 ⟨8, 8⟩ = 1 := by
  obtain ⟨-, -, hbalance⟩ := hooks_mirror_heap run_unhooked
  have hsince : Since { accounts := [⟨⟨1⟩, 0⟩] } hooked { accounts := [⟨⟨1⟩, 0⟩] }
      (hooked.perform 0 (.allocate 0 ⟨8, 8⟩ (some 16))).1 :=
    Since.act (t := 0) (a := .allocate 0 ⟨8, 8⟩ (some 16)) .here (by decide) (by decide) (by constructor <;> decide)
  have hinstalled := hbalance 0 (by decide) (by decide) (.install 0 "audit") (show 0 < Table.size _ by decide) 0 0
    (by decide) (by decide) _ _ hsince
  exact ⟨run_unhooked, hinstalled.1 16 ⟨8, 8⟩⟩

end HeapLedger
