import HeapLedger.Proofs.Slots

/-!
# Taking a slot step by step

A thread that asks a service for a slot tries one after the other, sets the flag of the first that it finds free,
clears the two cells and then sits down. A thread that gives its slot back clears the cells, gets up and resets the
flag. Done in a row, these steps are what binds and unbinds a thread at once.
-/

namespace HeapLedger

open Ledger

/-- How far a thread is with taking a slot, or with giving it back. -/
inductive Stage
  /-- The slot is the next to be tried. -/
  | trying (s : ServiceId) (i : Nat)
  /-- The flag is set. -/
  | claimed (w : Worker)
  | keyless (w : Worker)
  | blank (w : Worker)
  /-- It is known whether there is a slot. -/
  | told (s : ServiceId) (r : Except BindError Nat)
  | leaving (w : Worker)
  | leavingKeyless (w : Worker)
  | leavingBlank (w : Worker)
  /-- The flag is set still. -/
  | unseated (w : Worker)

namespace Stage

/-- The slot whose flag is set for a thread that does not sit in it. -/
def kept : Stage → Option Worker
  | claimed w | keyless w | blank w | unseated w => some w
  | _ => none

def blank? : Stage → Option Worker
  | claimed w | keyless w | blank w | leavingBlank w | unseated w => some w
  | told s (.ok i) => some ⟨s, i⟩
  | _ => none

def service? : Stage → Option ServiceId
  | trying s _ => some s
  | claimed w | keyless w | blank w | leaving w | leavingKeyless w | leavingBlank w | unseated w => some w.service
  | told .. => none

end Stage

namespace Ledger

/-- How a thread begins that asks for a slot. -/
def firstStage (l : Ledger) (t : ThreadId) (s : ServiceId) : Stage :=
  if (l.thread t).worker.isSome then .told s (.error .threadAlreadyBound) else .trying s 0

def stride (l : Ledger) (t : ThreadId) : Stage → Ledger × Option Stage
  | .trying s i =>
    if i < (l.service s).slots.size then
      let r := l.claim s i
      (r.1, if r.2 then some (.claimed ⟨s, i⟩) else some (.trying s (i + 1)))
    else (l, some (.told s (.error (.noFreeSlot (l.service s).slots.size))))
  | .claimed w => (l.clearKey w, some (.keyless w))
  | .keyless w => (l.clearContext w, some (.blank w))
  | .blank w => (l.seat t w, some (.told w.service (.ok w.slot)))
  | .told .. => (l, none)
  | .leaving w => (l.clearKey w, some (.leavingKeyless w))
  | .leavingKeyless w => (l.clearContext w, some (.leavingBlank w))
  | .leavingBlank w => (l.unseat t, some (.unseated w))
  | .unseated w => (l.vacate w, none)

def strides (l : Ledger) (t : ThreadId) : Nat → Option Stage → Ledger × Option Stage
  | n + 1, some g => let r := l.stride t g; r.1.strides t n r.2
  | _, g => (l, g)

/-! ## Undisturbed -/

section
variable {l : Ledger} {t : ThreadId} {s : ServiceId}

theorem stride_of_free {i : Nat} (hi : i < (l.service s).slots.size) (hb : (l.slot s i).bound = false) :
    l.stride t (.trying s i) = (l.modifySlot s i fun slot => { slot with bound := true }, some (.claimed ⟨s, i⟩)) := by
  simp [stride, claim, hi, hb]

theorem stride_of_taken {i : Nat} (hi : i < (l.service s).slots.size) (hb : (l.slot s i).bound = true) :
    l.stride t (.trying s i) = (l, some (.trying s (i + 1))) := by
  simp [stride, claim, hi, hb]

theorem stride_of_end {i : Nat} (hi : ¬ i < (l.service s).slots.size) :
    l.stride t (.trying s i) = (l, some (.told s (.error (.noFreeSlot (l.service s).slots.size)))) := by
  simp [stride, hi]

theorem strides_none (n : Nat) : l.strides t n none = (l, none) := by
  cases n <;> rfl

theorem strides_add (m n : Nat) (g : Option Stage) :
    l.strides t (m + n) g = (l.strides t m g).1.strides t n (l.strides t m g).2 := by
  induction m generalizing l g with
  | zero => cases g <;> simp [strides]
  | succ m ih =>
    cases g with
    | none => rw [strides_none, strides_none, strides_none]
    | some g =>
      rw [Nat.add_right_comm]
      exact ih _

def scanned (l : Ledger) (s : ServiceId) : Option Nat → Stage
  | none => .told s (.error (.noFreeSlot (l.service s).slots.size))
  | some i => .claimed ⟨s, i⟩

theorem strides_trying (n i : Nat) (hn : i + n = (l.service s).slots.size) : ∃ m,
    l.strides t m (some (.trying s i)) = ((l.claimFrom s i n).1, some (l.scanned s (l.claimFrom s i n).2)) := by
  induction n generalizing i with
  | zero =>
    have hend : ¬ i < (l.service s).slots.size := by omega
    refine ⟨1, ?_⟩
    simp only [strides, stride_of_end hend]
    rfl
  | succ n ih =>
    have hi : i < (l.service s).slots.size := by omega
    cases hb : (l.slot s i).bound with
    | true =>
      obtain ⟨m, hm⟩ := ih (i + 1) (by omega)
      refine ⟨m + 1, ?_⟩
      simp only [strides, stride_of_taken hi hb, claimFrom, claim, hb, if_true, Bool.false_eq_true, if_false]
      exact hm
    | false =>
      refine ⟨1, ?_⟩
      simp only [strides, stride_of_free hi hb, claimFrom, claim, hb, if_true, Bool.false_eq_true, if_false]
      rfl

/-- Who is not disturbed while asking for a slot binds itself at once. -/
theorem strides_firstStage (l : Ledger) (t : ThreadId) (s : ServiceId) : ∃ n,
    l.strides t n (some (l.firstStage t s)) = ((l.bindWorker t s).1, some (.told s (l.bindWorker t s).2)) := by
  unfold firstStage bindWorker
  cases (l.thread t).worker.isSome with
  | true => exact ⟨0, rfl⟩
  | false =>
    obtain ⟨m, hm⟩ := strides_trying (l := l) (t := t) (s := s) (l.service s).slots.size 0 (Nat.zero_add _)
    simp only [Bool.false_eq_true, if_false]
    cases hr : (l.claimFrom s 0 (l.service s).slots.size).2 with
    | none =>
      rw [hr] at hm
      exact ⟨m, hm⟩
    | some i =>
      rw [hr] at hm
      refine ⟨m + 3, ?_⟩
      rw [strides_add, hm]
      rfl

/-- Who is not disturbed while giving a slot back unbinds itself at once. -/
theorem strides_leaving {w : Worker} (hw : (l.thread t).binding = some w) :
    l.strides t 4 (some (.leaving w)) = ((l.unbindWorker t).1, none) := by
  unfold unbindWorker
  rw [hw]
  rfl

end

end Ledger

end HeapLedger
