import Mathlib
import HeapLedger.Proofs.Heard

/-!
# How much an allocator has reserved

An allocator has reserved the usable sizes of its blocks in use. Only calls to the allocator itself change that, and
only calls that hand out a block, take one back or put one in the place of another.
-/

namespace HeapLedger

open Ledger

namespace Ledger

def addresses (l : Ledger) : Finset Address := (l.heap.entries.map (·.1)).toFinset

def footprint (l : Ledger) (m : AllocatorId) (a : Address) : Int :=
  match l.heap.find? a with
  | some block => if block.allocator = m then ((l.allocator m).usable a block.layout).toNat else 0
  | none => 0

/-- The usable sizes of an allocator's blocks in use, together. -/
def reserved (l : Ledger) (m : AllocatorId) : Int := ∑ a ∈ l.addresses, l.footprint m a

def Foreign (l : Ledger) (m : AllocatorId) (a : Address) : Prop := ∀ layout, l.heap.find? a ≠ some ⟨m, layout⟩

/-- Blocks and hooks of one allocator stay as they are. -/
structure Intact (m : AllocatorId) (l l' : Ledger) : Prop where
  blocks : ∀ a layout, l'.heap.find? a = some ⟨m, layout⟩ ↔ l.heap.find? a = some ⟨m, layout⟩
  hooks : (l'.allocator m).hooks = (l.allocator m).hooks
  usable : ∀ a layout, l.heap.find? a = some ⟨m, layout⟩ →
    (l'.allocator m).usable a layout = (l.allocator m).usable a layout
  allocators_size : l.allocators.size ≤ l'.allocators.size

section
variable {l l' l'' : Ledger} {m m' : AllocatorId} {a : Address} {layout : Layout}

/-! ## Sums over addresses -/

theorem footprint_of_block (h : l.heap.find? a = some ⟨m, layout⟩) :
    l.footprint m a = ((l.allocator m).usable a layout).toNat := by
  simp only [footprint, h, if_true]

theorem footprint_of_foreign (h : l.Foreign m a) : l.footprint m a = 0 := by
  unfold footprint
  split
  · rename_i block hblock
    refine if_neg fun hm => h block.layout ?_
    rw [hblock, ← hm]
  · rfl

theorem mem_addresses {block : Block} (h : l.heap.find? a = some block) : a ∈ l.addresses :=
  List.mem_toFinset.mpr (List.mem_map.mpr ⟨(a, block), Directory.mem_of_find? h, rfl⟩)

theorem reserved_eq_sum {s : Finset Address} (h : l.addresses ⊆ s) : l.reserved m = ∑ a ∈ s, l.footprint m a :=
  Finset.sum_subset h fun _ _ ha => footprint_of_foreign fun _ hblock => ha (mem_addresses hblock)

/-- What changes at one address changes the sum. -/
theorem reserved_of_footprint {n : Int}
    (h : ∀ b, l'.footprint m b = l.footprint m b + if b = a then n else 0) : l'.reserved m = l.reserved m + n := by
  have hl : l.addresses ⊆ insert a (l.addresses ∪ l'.addresses) :=
    Finset.subset_union_left.trans (Finset.subset_insert ..)
  have hl' : l'.addresses ⊆ insert a (l.addresses ∪ l'.addresses) :=
    Finset.subset_union_right.trans (Finset.subset_insert ..)
  rw [reserved_eq_sum hl, reserved_eq_sum hl', Finset.sum_congr rfl fun b _ => h b, Finset.sum_add_distrib,
    Finset.sum_ite_eq', if_pos (Finset.mem_insert_self ..)]

/-! ## Blocks of the allocator -/

theorem reserved_put (hfree : l.heap.find? a = none) (h : l'.heap = l.heap.put a ⟨m, layout⟩)
    (hu : (l'.allocator m).usable = (l.allocator m).usable) :
    l'.reserved m = l.reserved m + ((l.allocator m).usable a layout).toNat := by
  refine reserved_of_footprint (a := a) fun b => ?_
  by_cases hb : b = a
  · subst hb
    have hblock : l'.heap.find? b = some ⟨m, layout⟩ := by rw [h, Directory.find?_put, if_pos rfl]
    have hforeign : l.Foreign m b := fun _ he => absurd (hfree.symm.trans he) nofun
    rw [footprint_of_block hblock, footprint_of_foreign hforeign, if_pos rfl, hu, Int.zero_add]
  · have hsame : l'.heap.find? b = l.heap.find? b := by rw [h, Directory.find?_put, if_neg hb]
    rw [if_neg hb, Int.add_zero, footprint, footprint, hsame, hu]

theorem reserved_erase (hblock : l.heap.find? a = some ⟨m, layout⟩) (h : l'.heap = l.heap.erase a)
    (hu : (l'.allocator m).usable = (l.allocator m).usable) :
    l'.reserved m = l.reserved m - ((l.allocator m).usable a layout).toNat := by
  refine reserved_of_footprint (a := a) fun b => ?_
  by_cases hb : b = a
  · subst hb
    have hforeign : l'.Foreign m b := fun _ he => by
      rw [h, Directory.find?_erase, if_pos rfl] at he
      cases he
    rw [footprint_of_block hblock, footprint_of_foreign hforeign, if_pos rfl, Int.add_right_neg]
  · have hsame : l'.heap.find? b = l.heap.find? b := by rw [h, Directory.find?_erase, if_neg hb]
    rw [if_neg hb, Int.add_zero, footprint, footprint, hsame, hu]

/-! ## Blocks of other allocators -/

theorem Intact.refl (l : Ledger) : Intact m l l := ⟨fun _ _ => Iff.rfl, rfl, fun _ _ _ => rfl, Nat.le_refl _⟩

theorem Intact.trans (h : Intact m l l') (h' : Intact m l' l'') : Intact m l l'' where
  blocks a layout := (h'.blocks a layout).trans (h.blocks a layout)
  hooks := h'.hooks.trans h.hooks
  usable a layout hblock := (h'.usable a layout ((h.blocks a layout).mpr hblock)).trans (h.usable a layout hblock)
  allocators_size := Nat.le_trans h.allocators_size h'.allocators_size

theorem Tells.intact {rs : List Report} (h : Tells rs l l') : Intact m l l' where
  blocks a layout := by rw [h.heap]
  hooks := h.hooks m
  usable a layout _ := by rw [h.usable]
  allocators_size := Nat.le_of_eq h.allocators_size.symm

theorem Intact.foreign (h : Intact m l l') (hf : l.Foreign m a) : l'.Foreign m a :=
  fun layout hblock => hf layout ((h.blocks a layout).mp hblock)

theorem Intact.reserved (h : Intact m l l') : l'.reserved m = l.reserved m := by
  have hfootprint : ∀ b, l'.footprint m b = l.footprint m b := by
    intro b
    by_cases hb : l.Foreign m b
    · rw [footprint_of_foreign hb, footprint_of_foreign (h.foreign hb)]
    · obtain ⟨layout, hblock⟩ := not_forall_not.mp hb
      rw [footprint_of_block hblock, footprint_of_block ((h.blocks b layout).mpr hblock), h.usable b layout hblock]
  refine (reserved_of_footprint (a := 0) (n := 0) fun b => ?_).trans (Int.add_zero _)
  rw [ite_self, Int.add_zero]
  exact hfootprint b

theorem intact_put (hm : m' ≠ m) (hf : l.Foreign m a) (heap : l'.heap = l.heap.put a ⟨m', layout⟩)
    (hall : l'.allocators = l.allocators) : Intact m l l' where
  blocks b layout' := by
    rw [heap, Directory.find?_put]
    split
    · rename_i hb
      subst hb
      refine iff_of_false (fun he => hm ?_) (hf layout')
      exact congrArg Block.allocator (Option.some.inj he)
    · exact Iff.rfl
  hooks := by rw [allocator, hall]; rfl
  usable _ _ _ := by rw [allocator, hall]; rfl
  allocators_size := Nat.le_of_eq (congrArg Table.size hall.symm)

theorem intact_erase (hf : l.Foreign m a) (heap : l'.heap = l.heap.erase a) (hall : l'.allocators = l.allocators) :
    Intact m l l' where
  blocks b layout' := by
    rw [heap, Directory.find?_erase]
    split
    · rename_i hb
      subst hb
      exact iff_of_false (fun he => by cases he) (hf layout')
    · exact Iff.rfl
  hooks := by rw [allocator, hall]; rfl
  usable _ _ _ := by rw [allocator, hall]; rfl
  allocators_size := Nat.le_of_eq (congrArg Table.size hall.symm)

/-! ## Calls to other allocators -/

variable {t : ThreadId}

theorem allocate_intact (hm : m' ≠ m) (layout : Layout) {granted : Option Address} (hf : ∀ a ∈ granted, l.Foreign m a) :
    Intact m l (l.allocate t m' layout granted) := by
  have hcount : Intact m l (l.countCall t m') := (tells_countCall m').intact
  unfold allocate
  cases granted with
  | none => exact hcount
  | some a =>
    let put : Ledger := { l.countCall t m' with heap := (l.countCall t m').heap.put a ⟨m', layout⟩ }
    have hput : Intact m (l.countCall t m') put := intact_put hm (hcount.foreign (hf a rfl)) rfl rfl
    exact (hcount.trans hput).trans (runHooks_tells put t m' .alloc a layout).intact

theorem freed_intact (m' : AllocatorId) (a : Address) (layout : Layout) :
    Intact m l ((l.runHooks t m' .free a layout).countCall t m') :=
  (runHooks_tells l t m' .free a layout).intact.trans (tells_countCall m').intact

theorem deallocate_intact (hf : l.Foreign m a) : Intact m l (l.deallocate t a) := by
  unfold deallocate
  split
  · exact .refl l
  · rename_i block hblock
    have hfreed : Intact m l _ := freed_intact (t := t) block.allocator a block.layout
    exact hfreed.trans (intact_erase (hfreed.foreign hf) rfl rfl)

theorem reallocate_intact (hf : l.Foreign m a) (size : UInt64) {granted : Option Address}
    (hg : ∀ a' ∈ granted, l.Foreign m a') : Intact m l (l.reallocate t a size granted) := by
  unfold reallocate
  split
  · exact .refl l
  · rename_i block hblock
    have hm : block.allocator ≠ m := fun hm => hf block.layout (by rw [hblock, ← hm])
    let freed : Ledger := (l.runHooks t block.allocator .free a block.layout).countCall t block.allocator
    have hfreed : Intact m l freed := freed_intact block.allocator a block.layout
    cases granted with
    | none => exact hfreed.trans (runHooks_tells freed t block.allocator .alloc a block.layout).intact
    | some a' =>
      let erased : Ledger := { freed with heap := freed.heap.erase a }
      let moved : Ledger := { erased with heap := erased.heap.put a' ⟨block.allocator, { block.layout with size }⟩ }
      have herased : Intact m freed erased := intact_erase (hfreed.foreign hf) rfl rfl
      have hmoved : Intact m erased moved := intact_put hm ((hfreed.trans herased).foreign (hg a' rfl)) rfl rfl
      exact ((hfreed.trans herased).trans hmoved).trans
        (runHooks_tells moved t block.allocator .alloc a' { block.layout with size }).intact

theorem intact_newAllocator (hm : m < l.allocators.size) (usable : UsableSize) : Intact m l (l.newAllocator usable).1 := by
  have hsame : (l.newAllocator usable).1.allocator m = l.allocator m := by
    show (l.allocators.add _).get m = l.allocators.get m
    rw [Table.get_add, if_neg (Nat.ne_of_lt hm)]
  refine ⟨fun _ _ => Iff.rfl, congrArg Allocator.hooks hsame, fun _ _ _ => by rw [hsame], ?_⟩
  exact Nat.le_trans (Nat.le_succ _) (Nat.le_of_eq (Table.size_add ..).symm)

theorem intact_install (hm : m' ≠ m) (hook : Hook) : Intact m l (l.install m' hook).1 := by
  have hsame : (l.install m' hook).1.allocator m = l.allocator m := Table.get_modify_ne _ _ hm
  exact ⟨fun _ _ => Iff.rfl, congrArg Allocator.hooks hsame, fun _ _ _ => by rw [hsame],
    Nat.le_of_eq (Table.size_modify ..).symm⟩

theorem intact_countRegistration (s : ServiceId) : Intact m l (l.countRegistration s) := by
  let counted : Ledger := l.modifyService s fun svc => { svc with registrations := svc.registrations + 1 }
  have hcount : Intact m l counted := ⟨fun _ _ => Iff.rfl, rfl, fun _ _ _ => rfl, Nat.le_refl _⟩
  unfold countRegistration
  dsimp only
  split
  · exact hcount
  · exact hcount.trans (tells_post rfl).intact

theorem intact_register (hm : m' ≠ m) (s : ServiceId) : Intact m l (l.register m' s).1 :=
  ((intact_countRegistration s).trans (intact_install hm (.adapter s))).trans (tellInstalled_tells _ _).intact

theorem allocates_intact (hm : m' ≠ m) : ∀ (blocks : List (Layout × Address)) {l : Ledger},
    (∀ b ∈ blocks, l.Foreign m b.2) → Intact m l (blocks.foldl (fun l b => l.allocate t m' b.1 (some b.2)) l)
  | [], l, _ => .refl l
  | b :: blocks, l, hf => by
    have hfirst : Intact m l (l.allocate t m' b.1 (some b.2)) := by
      refine allocate_intact hm b.1 fun a ha => ?_
      obtain rfl := Option.some.inj ha
      exact hf b (List.mem_cons_self ..)
    exact hfirst.trans (allocates_intact hm blocks fun b' hb' => hfirst.foreign (hf b' (List.mem_cons_of_mem _ hb')))

theorem deallocates_intact : ∀ (blocks : List (Layout × Address)) {l : Ledger}, (∀ b ∈ blocks, l.Foreign m b.2) →
    Intact m l (blocks.foldl (fun l b => l.deallocate t b.2) l)
  | [], l, _ => .refl l
  | b :: blocks, l, hf => by
    have hfirst : Intact m l (l.deallocate t b.2) := deallocate_intact (hf b (List.mem_cons_self ..))
    exact hfirst.trans (deallocates_intact blocks fun b' hb' => hfirst.foreign (hf b' (List.mem_cons_of_mem _ hb')))

theorem systemBlocks_intact (hm : m < l.allocators.size) (s : ServiceId) (sizes : List UInt64) (align : UInt64) :
    Intact m l (l.systemBlocks t s sizes align).1 := by
  have hne : l.allocators.size ≠ m := Ne.symm (Nat.ne_of_lt hm)
  let equipped : Ledger := ((l.newAllocator .exact).1.register l.allocators.size s).1
  have hequipped : Intact m l equipped := (intact_newAllocator hm .exact).trans (intact_register hne s)
  let blocks := (sizes.map fun size => Layout.mk size align).zipIdx equipped.freshAddress
  have hforeign : ∀ b ∈ blocks, equipped.Foreign m b.2 := by
    intro b hb layout hblock
    have hfresh : equipped.heap.find? b.2 = none := find?_of_freshAddress (List.mem_zipIdx hb).1
    exact absurd (hfresh.symm.trans hblock) nofun
  have hallocated := allocates_intact (t := t) hne blocks hforeign
  exact (hequipped.trans hallocated).trans (deallocates_intact blocks fun b hb => hallocated.foreign (hforeign b hb))

end

end Ledger

/-! ## Actions -/

inductive Action.Calls (l : Ledger) (m : AllocatorId) : Action → Prop
  | allocate (layout : Layout) (granted : Option Address) : Calls l m (.allocate m layout granted)
  | deallocate {a layout} (h : l.heap.find? a = some ⟨m, layout⟩) : Calls l m (.deallocate a)
  | reallocate {a layout} (h : l.heap.find? a = some ⟨m, layout⟩) (size : UInt64) (granted : Option Address) :
      Calls l m (.reallocate a size granted)

inductive Action.Equips (m : AllocatorId) : Action → Prop
  | register (s : ServiceId) : Equips m (.register m s)
  | install (name : String) : Equips m (.install m name)

namespace Ledger

/-- Whatever is neither done with the allocator nor with its blocks leaves them as they are. -/
theorem perform_intact {l : Ledger} {m : AllocatorId} {h : Holdings} {a : Action} (t : ThreadId)
    (hm : m < l.allocators.size) (ha : l.Admits h a) (hc : ¬ a.Calls l m) (he : ¬ a.Equips m) :
    Intact m l (l.perform t a).1 := by
  have hdealt : ∀ {a'}, l.heap.find? a' = none → l.Foreign m a' := fun hn _ hblock => absurd (hn.symm.trans hblock) nofun
  cases hb : a.handles with
  | false => exact (perform_tells l t hb).intact
  | true =>
    cases a with
    | newAllocator usable => exact intact_newAllocator hm usable
    | register m' s =>
      show Intact m l (toldOr .register .installed (l.register m' s)).1
      rw [toldOr_fst]
      exact intact_register (by rintro rfl; exact he (.register s)) s
    | install m' name =>
      show Intact m l (toldOr .register .installed (l.install m' (.recorder name))).1
      rw [toldOr_fst]
      exact intact_install (by rintro rfl; exact he (.install name)) _
    | allocate m' layout granted =>
      exact allocate_intact (by rintro rfl; exact hc (.allocate layout granted)) layout fun a' ha' => hdealt (ha.2 a' ha')
    | reallocate a size granted =>
      have hforeign : l.Foreign m a := fun layout hblock => hc (.reallocate hblock size granted)
      refine reallocate_intact hforeign size fun a' ha' => ?_
      rcases ha.2 a' ha' with rfl | hn
      · exact hforeign
      · exact hdealt hn
    | deallocate a => exact deallocate_intact fun layout hblock => hc (.deallocate hblock)
    | usable m' a layout => exact (tells_countCall m').intact
    | notify m' s kind a layout =>
      cases a with
      | none => exact .refl l
      | some a => exact (chargeBlock_tells l t m' kind a layout s).intact
    | systemBlocks s sizes align => exact systemBlocks_intact hm s sizes align
    | _ => cases hb

end Ledger

end HeapLedger
