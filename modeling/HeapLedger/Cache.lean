import HeapLedger.Delta

/-!
# Consumption caches

A cache gathers signed amounts until their sum is worth committing: it hands the sum out, and
starts again from zero, once the magnitude of the sum exceeds the threshold.
-/

namespace HeapLedger

structure Cache where
  threshold : UInt64
  pending : Delta := 0
  deriving Inhabited

namespace Cache

def exceeded (c : Cache) (a : Delta) : Bool := c.threshold.toNat < a.magnitude

/-- Adds an amount. Returns the sum to commit, if there is one. -/
def consume (c : Cache) (d : Delta) : Cache × Option Delta :=
  let sum := c.pending.addClamped d
  if c.exceeded sum then ({ c with pending := 0 }, some sum) else ({ c with pending := sum }, none)

def take (c : Cache) : Cache × Delta := ({ c with pending := 0 }, c.pending)

theorem consume_fst (c : Cache) (d : Delta) :
    (c.consume d).1 = { c with
      pending := if (c.pending.addClamped d).magnitude ≤ c.threshold.toNat then c.pending.addClamped d else 0 } := by
  by_cases h : (c.pending.addClamped d).magnitude ≤ c.threshold.toNat
  · simp [consume, exceeded, h, Nat.not_lt.mpr h]
  · simp [consume, exceeded, h, Nat.not_le.mp h]

theorem consume_snd (c : Cache) (d : Delta) :
    (c.consume d).2 =
      if (c.pending.addClamped d).magnitude ≤ c.threshold.toNat then none else some (c.pending.addClamped d) := by
  by_cases h : (c.pending.addClamped d).magnitude ≤ c.threshold.toNat
  · simp [consume, exceeded, h, Nat.not_lt.mpr h]
  · simp [consume, exceeded, h, Nat.not_le.mp h]

theorem threshold_consume (c : Cache) (d : Delta) : (c.consume d).1.threshold = c.threshold := by
  unfold consume; dsimp only; split <;> rfl

theorem consume_of_exceeded {c : Cache} {d : Delta} (h : c.exceeded (c.pending.addClamped d) = true) :
    c.consume d = ({ c with pending := 0 }, some (c.pending.addClamped d)) := by
  simp [consume, h]

theorem consume_of_not_exceeded {c : Cache} {d : Delta}
    (h : c.exceeded (c.pending.addClamped d) = false) :
    c.consume d = ({ c with pending := c.pending.addClamped d }, none) := by
  simp [consume, h]

end Cache

end HeapLedger
