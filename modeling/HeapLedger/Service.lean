import HeapLedger.Table
import HeapLedger.Roster

/-!
# Services

A service decides who is charged. It has a tracker for threads, a source of active tasks, and a
number of slots, each of which lets one worker thread remember the task it resolved last.

What a service counts has no bound, and is what 64 bits show of it as long as it is less than `2 ^ 64`.
-/

namespace HeapLedger

def defaultThreshold : UInt64 := 1048576

def defaultSlots : Nat := 64

/-- The most slots that a service can have. A slot takes 24 bytes of an array, which has fewer than half
as many as there are addresses. -/
def maxSlots : Nat := (UInt64.size / 2 - 1) / 24

/-- The task that was resolved last in a slot is remembered in two cells, which are written one after the
other. -/
structure Slot where
  bound : Bool := false
  key : Option TaskKey := none
  context : Option ContextId := none
  deriving Inhabited

structure Service where
  source : TaskSource := .scopes
  threadTracker : TrackerId
  threshold : UInt64 := defaultThreshold
  slots : Table Slot := {}
  /-- How often the source was asked for a context. -/
  lookups : Nat := 0
  skipped : Nat := 0
  registrations : Nat := 0

instance : Inhabited Service := ⟨{ threadTracker := 0 }⟩

inductive BuildError
  | capacityOverflow
  deriving DecidableEq

def BuildError.message : BuildError → String
  | .capacityOverflow => "capacity overflow"

inductive BindError
  | noFreeSlot (capacity : Nat)
  | threadAlreadyBound
  deriving DecidableEq

def BindError.message : BindError → String
  | .noFreeSlot capacity => "all " ++ toString capacity ++ " worker slots are already bound"
  | .threadAlreadyBound => "the current thread is already bound as a worker"

def Slot.recall? (slot : Slot) (k : TaskKey) : Option ContextId := if slot.key = some k then slot.context else none

/-- What a slot remembers, if both cells are set. -/
def Slot.cached (slot : Slot) : Option (TaskKey × ContextId) := slot.key.bind fun k => slot.context.map (k, ·)

def Slot.Paired (slot : Slot) : Prop := slot.key.isSome = slot.context.isSome

def Slot.Blank (slot : Slot) : Prop := slot.key = none ∧ slot.context = none

theorem Slot.cached_eq_some_iff {slot : Slot} {k : TaskKey} {c : ContextId} :
    slot.cached = some (k, c) ↔ slot.key = some k ∧ slot.context = some c := by
  cases hk : slot.key <;> cases hc : slot.context <;> simp [Slot.cached, hk, hc]

theorem Slot.recall?_eq (slot : Slot) (k : TaskKey) :
    slot.recall? k = slot.cached.bind fun e => if e.1 = k then some e.2 else none := by
  cases hk : slot.key <;> cases hc : slot.context <;> simp [Slot.recall?, Slot.cached, hk, hc]

theorem Slot.recall?_eq_some_iff {slot : Slot} {k : TaskKey} {c : ContextId} :
    slot.recall? k = some c ↔ slot.cached = some (k, c) := by
  rw [Slot.cached_eq_some_iff]
  unfold Slot.recall?
  split
  · rename_i hk
    simp [hk]
  · rename_i hk
    simp [hk]

theorem Slot.Blank.paired {slot : Slot} (h : slot.Blank) : slot.Paired := by
  rw [Slot.Paired, h.1, h.2]
  rfl

theorem Slot.Blank.eq_of_bound {slot : Slot} (h : slot.Blank) (hb : slot.bound = true) : slot = { bound := true } := by
  obtain ⟨hkey, hcontext⟩ := h
  cases slot
  simp only at hb hkey hcontext
  rw [hb, hkey, hcontext]

end HeapLedger
