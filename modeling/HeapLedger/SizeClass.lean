/-!
# Size classes

Block sizes rounded up to powers of two. `sizeClass_eq_shiftLeft` says that a class is a power of two
unless none is large enough.
-/

namespace HeapLedger

def minSizeClass : UInt64 := 16

def greatestSize : UInt64 := UInt64.ofNat (UInt64.size - 1)

def ceilLog2 (n : Nat) : Nat := if n ≤ 1 then 0 else (n - 1).log2 + 1

/-- The least power of two that is at least `n` and at least the smallest class, or the greatest
size when there is no such power. -/
def sizeClass (n : UInt64) : UInt64 :=
  let k := ceilLog2 (max n.toNat minSizeClass.toNat)
  if k < 64 then UInt64.ofNat (1 <<< k) else greatestSize

theorem le_shiftLeft_ceilLog2 (n : Nat) : n ≤ 1 <<< ceilLog2 n := by
  rw [Nat.one_shiftLeft]
  unfold ceilLog2
  split
  · simpa using ‹n ≤ 1›
  · have := Nat.lt_log2_self (n := n - 1)
    omega

theorem shiftLeft_lt_of_lt_ceilLog2 {n k : Nat} (h : k < ceilLog2 n) : 1 <<< k < n := by
  rw [Nat.one_shiftLeft]
  unfold ceilLog2 at h
  split at h
  · omega
  · have := (Nat.le_log2 (show n - 1 ≠ 0 by omega)).mp (show k ≤ (n - 1).log2 by omega)
    omega

theorem sizeClass_eq_shiftLeft {n : UInt64} (h : ceilLog2 (max n.toNat minSizeClass.toNat) < 64) :
    (sizeClass n).toNat = 1 <<< ceilLog2 (max n.toNat minSizeClass.toNat) := by
  unfold sizeClass
  simp only [h, ite_true]
  apply UInt64.toNat_ofNat_of_lt
  rw [Nat.one_shiftLeft]
  exact Nat.pow_lt_pow_right (by decide) h

end HeapLedger
