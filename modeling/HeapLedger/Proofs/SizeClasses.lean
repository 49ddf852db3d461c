import Mathlib.Order.Bounds.Basic
import Mathlib.Tactic.NormNum
import HeapLedger.SizeClass

/-!
# Size classes round up

Exponents of powers of two and sizes are adjoint: `ceilLog2 n ≤ k` says that `n` is at most `2 ^ k`. So the
class of a size is a least power of two for as long as there is one among the sizes, and everything else about classes
follows from that.
-/

namespace HeapLedger

/-! ## Exponents -/

theorem ceilLog2_le_iff {n k : Nat} : ceilLog2 n ≤ k ↔ n ≤ 2 ^ k := by
  constructor
  · intro h
    have hn := le_shiftLeft_ceilLog2 n
    rw [Nat.one_shiftLeft] at hn
    exact Nat.le_trans hn (Nat.pow_le_pow_right Nat.two_pos h)
  · intro h
    by_contra hlt
    have hn := shiftLeft_lt_of_lt_ceilLog2 (Nat.lt_of_not_le hlt)
    rw [Nat.one_shiftLeft] at hn
    exact Nat.not_lt.mpr h hn

theorem ceilLog2_two_pow (k : Nat) : ceilLog2 (2 ^ k) = k := by
  refine Nat.le_antisymm (ceilLog2_le_iff.mpr (Nat.le_refl _)) ?_
  exact (Nat.pow_le_pow_iff_right Nat.one_lt_two).mp (ceilLog2_le_iff.mp (Nat.le_refl _))

/-- The least power of two that is at least `n` is less than twice as large. -/
theorem two_pow_ceilLog2_lt {n : Nat} (h : 2 ≤ n) : 2 ^ ceilLog2 n < 2 * n := by
  have hpos : ceilLog2 n ≠ 0 := fun h0 => by
    have hn := ceilLog2_le_iff.mp (Nat.le_of_eq h0)
    omega
  have hlt : 2 ^ (ceilLog2 n - 1) < n := by
    by_contra hge
    have hle := ceilLog2_le_iff.mpr (Nat.le_of_not_lt hge)
    omega
  have hsucc : 2 ^ ceilLog2 n = 2 * 2 ^ (ceilLog2 n - 1) := by
    rw [← Nat.pow_succ', Nat.succ_eq_add_one, Nat.sub_add_cancel (Nat.pos_of_ne_zero hpos)]
  omega

/-! ## Classes -/

section
variable {n m : UInt64}

theorem toNat_sizeClass_of_le (h : n.toNat ≤ 2 ^ 63) : (sizeClass n).toNat = 2 ^ ceilLog2 (max n.toNat 16) := by
  have hk : ceilLog2 (max n.toNat 16) ≤ 63 := ceilLog2_le_iff.mpr (Nat.max_le.mpr ⟨h, by norm_num⟩)
  rw [← Nat.one_shiftLeft]
  exact sizeClass_eq_shiftLeft (Nat.lt_succ_of_le hk)

theorem sizeClass_of_lt (h : 2 ^ 63 < n.toNat) : sizeClass n = greatestSize := by
  have hk : ¬ ceilLog2 (max n.toNat 16) < 64 := fun hlt => by
    have hle := ceilLog2_le_iff.mp (Nat.le_of_lt_succ hlt)
    omega
  exact if_neg hk

theorem toNat_greatestSize : greatestSize.toNat = 2 ^ 64 - 1 := by decide

theorem isLeast_sizeClass (h : n.toNat ≤ 2 ^ 63) :
    IsLeast {p | (∃ k, p = 2 ^ k) ∧ max n.toNat 16 ≤ p} (sizeClass n).toNat := by
  rw [toNat_sizeClass_of_le h]
  refine ⟨⟨⟨_, rfl⟩, ceilLog2_le_iff.mp (Nat.le_refl _)⟩, ?_⟩
  rintro p ⟨⟨k, rfl⟩, hp⟩
  exact Nat.pow_le_pow_right Nat.two_pos (ceilLog2_le_iff.mpr hp)

theorem max_le_sizeClass (n : UInt64) : max n.toNat 16 ≤ (sizeClass n).toNat := by
  rcases Nat.lt_or_ge (2 ^ 63) n.toNat with h | h
  · have hn := n.toNat_lt
    rw [sizeClass_of_lt h, toNat_greatestSize]
    omega
  · exact (isLeast_sizeClass h).1.2

theorem sizeClass_mono (h : n ≤ m) : sizeClass n ≤ sizeClass m := by
  have hnm : n.toNat ≤ m.toNat := UInt64.le_iff_toNat_le.mp h
  rw [UInt64.le_iff_toNat_le]
  rcases Nat.lt_or_ge (2 ^ 63) m.toNat with hm | hm
  · have hn := (sizeClass n).toNat_lt
    rw [sizeClass_of_lt hm, toNat_greatestSize]
    omega
  · -- the class of the larger size is one of the powers that the smaller one chooses from
    obtain ⟨⟨hpow, hmax⟩, -⟩ := isLeast_sizeClass hm
    exact (isLeast_sizeClass (Nat.le_trans hnm hm)).2 ⟨hpow, by omega⟩

theorem sizeClass_sizeClass (n : UInt64) : sizeClass (sizeClass n) = sizeClass n := by
  rcases Nat.lt_or_ge (2 ^ 63) n.toNat with h | h
  · rw [sizeClass_of_lt h]
    decide
  · have hk : ceilLog2 (max n.toNat 16) ≤ 63 := ceilLog2_le_iff.mpr (Nat.max_le.mpr ⟨h, by norm_num⟩)
    have hclass := toNat_sizeClass_of_le h
    have hle : (sizeClass n).toNat ≤ 2 ^ 63 := hclass ▸ Nat.pow_le_pow_right Nat.two_pos hk
    have hmin : max (sizeClass n).toNat 16 = 2 ^ ceilLog2 (max n.toNat 16) := by
      have hge := max_le_sizeClass n
      omega
    rw [← UInt64.toNat_inj, toNat_sizeClass_of_le hle, hmin, ceilLog2_two_pow, hclass]

theorem sizeClass_lt (hn : 16 ≤ n.toNat) (h : n.toNat ≤ 2 ^ 63) : (sizeClass n).toNat < 2 * n.toNat := by
  rw [toNat_sizeClass_of_le h, Nat.max_eq_left hn]
  exact two_pow_ceilLog2_lt (Nat.le_trans (by norm_num) hn)

end

/-- As long as there is a size that is a power of two and large enough, the class of a size is the least such power that
is also at least the smallest class; beyond that it is the greatest size. So a class is never too small, larger sizes
have no smaller classes, a class is its own class, and above the smallest class less than half of a block is idle. -/
theorem size_classes_round_up (n : UInt64) :
    (n.toNat ≤ 2 ^ 63 → IsLeast {p | (∃ k, p = 2 ^ k) ∧ max n.toNat 16 ≤ p} (sizeClass n).toNat) ∧
    (2 ^ 63 < n.toNat → (sizeClass n).toNat = 2 ^ 64 - 1) ∧
    n ≤ sizeClass n ∧ 16 ≤ sizeClass n ∧
    (∀ m, n ≤ m → sizeClass n ≤ sizeClass m) ∧
    sizeClass (sizeClass n) = sizeClass n ∧
    (16 ≤ n → n.toNat ≤ 2 ^ 63 → (sizeClass n).toNat < 2 * n.toNat) := by
  have hmax := max_le_sizeClass n
  refine ⟨isLeast_sizeClass, fun h => ?_, ?_, ?_, fun m => sizeClass_mono, sizeClass_sizeClass n, fun hn => ?_⟩
  · rw [sizeClass_of_lt h, toNat_greatestSize]
  · exact UInt64.le_iff_toNat_le.mpr (Nat.le_trans (Nat.le_max_left ..) hmax)
  · exact UInt64.le_iff_toNat_le.mpr (Nat.le_trans (Nat.le_max_right ..) hmax)
  · exact sizeClass_lt (UInt64.le_iff_toNat_le.mp hn)

-- the largest power of two among the sizes, and one more
example : sizeClass 0x8000000000000000 = 0x8000000000000000 ∧ sizeClass 0x8000000000000001 = 0xffffffffffffffff := by
  decide

end HeapLedger
