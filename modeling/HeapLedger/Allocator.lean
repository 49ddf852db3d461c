import HeapLedger.Delta
import HeapLedger.Key
import HeapLedger.SizeClass

/-!
# Allocators and their hooks

An allocator hands out blocks and tells up to four hooks about them. A hook either charges the usable
size of a block to a service, or writes down what it was told.
-/

namespace HeapLedger

structure Layout where
  size : UInt64
  align : UInt64
  deriving DecidableEq, Inhabited

def isPowerOfTwo (n : UInt64) : Bool := n != 0 && n &&& (n - 1) == 0

/-- Whether a block fits into the address space after its size is rounded up to its alignment. -/
def Layout.fits (l : Layout) : Bool := l.size.toNat + l.align.toNat ≤ UInt64.size / 2

abbrev UsableSize := Address → Layout → UInt64

namespace UsableSize

def exact : UsableSize := fun _ layout => layout.size

def rounded : UsableSize := fun _ layout => sizeClass layout.size

def fixed (n : UInt64) : UsableSize := fun _ _ => n

def padded (n : UInt64) : UsableSize := fun _ layout =>
  if layout.size.toNat + n.toNat < UInt64.size then layout.size + n else greatestSize

end UsableSize

inductive Hook
  | adapter (service : ServiceId)
  | recorder (name : String)

inductive BlockEvent
  | alloc
  | free
  deriving DecidableEq

def BlockEvent.delta : BlockEvent → UInt64 → Delta
  | .alloc, usable => Delta.ofSize usable
  | .free, usable => (Delta.ofSize usable).negClamped

def maxHooks : Nat := 4

/-- Why a hook could not be installed. A full table is for the caller to deal with; in the other cases the table is
broken, and nothing goes on. -/
inductive RegisterError
  | hookTableFull
  /-- There is no place of the number that was claimed. -/
  | placeMissing
  /-- The place that was claimed has a hook already. -/
  | placeFilled
  deriving DecidableEq

def RegisterError.message : RegisterError → String
  | .hookTableFull =>
    "allocator hook table is full: all " ++ toString maxHooks ++ " slots are occupied"
  | .placeMissing => "index was bounds-checked when the slot was claimed"
  | .placeFilled => "slot was claimed exclusively so it cannot already be set: ()"

/-! ## Hook tables -/

/-- A fixed number of places for hooks. A place is claimed first, and then filled, and never filled again. -/
structure HookTable where
  places : List (Option Hook) := List.replicate maxHooks none
  claimed : Nat := 0

namespace HookTable

def install (t : HookTable) (h : Hook) : HookTable × Except RegisterError Nat :=
  if t.claimed < maxHooks then
    let claimed := { t with claimed := t.claimed + 1 }
    match t.places[t.claimed]? with
    | none => (claimed, .error .placeMissing)
    | some (some _) => (claimed, .error .placeFilled)
    | some none => ({ claimed with places := t.places.set t.claimed (some h) }, .ok t.claimed)
  else (t, .error .hookTableFull)

def filled (t : HookTable) : List Hook := t.places.filterMap id

def hooks (t : HookTable) : List Hook := if t.claimed = 0 then [] else t.filled

end HookTable

/-! ## Allocators -/

structure Allocator where
  usable : UsableSize := .exact
  table : HookTable := {}
  /-- How often the memory behind the allocator was called from inside a hook. -/
  nested : Nat := 0

instance : Inhabited Allocator := ⟨{}⟩

namespace Allocator

def hooks (m : Allocator) : List Hook := m.table.hooks

def installed (m : Allocator) : Nat := m.table.claimed

def install (m : Allocator) (h : Hook) : Allocator × Except RegisterError Nat :=
  let r := m.table.install h
  ({ m with table := r.1 }, r.2.map fun _ => r.1.claimed)

end Allocator

structure Block where
  allocator : AllocatorId
  layout : Layout
  deriving DecidableEq, Inhabited

/-! ## Installing hooks -/

namespace HookTable

variable {t : HookTable} {h h' : Hook}

theorem mem_filled_of_mem_hooks (hm : h ∈ t.hooks) : h ∈ t.filled := by
  unfold hooks at hm
  split at hm
  · cases hm
  · exact hm

theorem mem_filled_install (hm : h' ∈ (t.install h).1.filled) : h' = h ∨ h' ∈ t.filled := by
  unfold install at hm
  split at hm
  · dsimp only at hm
    split at hm
    · exact .inr hm
    · exact .inr hm
    · obtain ⟨place, hplace, heq⟩ := List.mem_filterMap.mp hm
      rcases List.mem_or_eq_of_mem_set hplace with hplace | rfl
      · exact .inr (List.mem_filterMap.mpr ⟨place, hplace, heq⟩)
      · exact .inl (Option.some.inj heq).symm
  · exact .inr hm

theorem length_filled (t : HookTable) : t.filled.length = t.places.countP Option.isSome :=
  List.length_filterMap_eq_countP ..

/-- Nothing is taken out of a place. -/
theorem length_filled_install_le (t : HookTable) (h : Hook) : t.filled.length ≤ (t.install h).1.filled.length := by
  unfold install
  split
  · dsimp only
    split
    · exact Nat.le_refl _
    · exact Nat.le_refl _
    · rename_i hfree
      obtain ⟨hlt, hnone⟩ := List.getElem?_eq_some_iff.mp hfree
      rw [length_filled, length_filled, List.countP_set hlt]
      simp [hnone]
  · exact Nat.le_refl _

theorem claimed_le_install (t : HookTable) (h : Hook) : t.claimed ≤ (t.install h).1.claimed := by
  unfold install
  split
  · dsimp only
    split <;> exact Nat.le_succ _
  · exact Nat.le_refl _

theorem length_hooks_install_le : t.hooks.length ≤ (t.install h).1.hooks.length := by
  have hclaimed := claimed_le_install t h
  have hfilled := length_filled_install_le t h
  by_cases hz : t.claimed = 0
  · rw [hooks, if_pos hz]
    exact Nat.zero_le _
  · rwa [hooks, hooks, if_neg hz, if_neg (by omega)]

end HookTable

end HeapLedger
