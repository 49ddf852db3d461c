/-!
# Signed amounts of bytes

A `Delta` is a signed 64-bit amount. Additions in a cache stop at the ends of the range
(`addClamped`); the totals of a tracker add as words do.
-/

namespace HeapLedger

abbrev Delta := Int64

namespace Delta

def least : Int := -0x8000000000000000

def greatest : Int := 0x7fffffffffffffff

def InRange (n : Int) : Prop := least ≤ n ∧ n ≤ greatest
  deriving Decidable

def clamp (n : Int) : Delta := Int64.ofInt (max least (min n greatest))

def addClamped (a b : Delta) : Delta := clamp (a.toInt + b.toInt)

def negClamped (a : Delta) : Delta := clamp (-a.toInt)

/-- The distance from zero, which for the least amount is one more than any amount can hold. -/
def magnitude (a : Delta) : Nat := a.toInt.natAbs

def ofSize (n : UInt64) : Delta := clamp n.toNat

/-! ## Values in the range -/

theorem toInt_clamp (n : Int) : (clamp n).toInt = max least (min n greatest) := by
  unfold clamp
  apply Int64.toInt_ofInt_of_le <;> simp only [least, greatest] <;> omega

theorem toInt_clamp_of_mem {n : Int} (hl : least ≤ n) (hg : n ≤ greatest) : (clamp n).toInt = n := by
  rw [toInt_clamp]; omega

theorem least_le_toInt (a : Delta) : least ≤ a.toInt := Int64.le_toInt a

theorem toInt_le_greatest (a : Delta) : a.toInt ≤ greatest := by
  have := Int64.toInt_lt a
  simp only [greatest]; omega

theorem clamp_toInt (a : Delta) : clamp a.toInt = a :=
  Int64.toInt_inj.mp (toInt_clamp_of_mem (least_le_toInt a) (toInt_le_greatest a))

theorem toInt_addClamped (a b : Delta) :
    (addClamped a b).toInt = max least (min (a.toInt + b.toInt) greatest) := toInt_clamp _

theorem toInt_addClamped_of_inRange {a b : Delta} (h : InRange (a.toInt + b.toInt)) :
    (addClamped a b).toInt = a.toInt + b.toInt := toInt_clamp_of_mem h.1 h.2

theorem magnitude_addClamped_le (a b : Delta) : (addClamped a b).magnitude ≤ a.magnitude + b.magnitude := by
  have hsum := toInt_addClamped a b
  simp only [magnitude, least, greatest] at hsum ⊢
  omega

theorem toInt_ofSize (n : UInt64) : (ofSize n).toInt = min (n.toNat : Int) greatest := by
  rw [ofSize, toInt_clamp]
  simp only [least, greatest]; omega

end Delta

end HeapLedger
