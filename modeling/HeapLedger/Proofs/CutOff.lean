import HeapLedger.Proofs.Level

/-!
# What a cache cuts off

An addition to what is pending is cut off at the ends of the range, and what it loses there is the only thing that a
cache ever loses. It can happen only to an amount that is almost as large as the range itself, because what is pending
never exceeds the threshold.
-/

namespace HeapLedger

namespace Cache

/-- Everything that is cut off while a new cache goes through all this, given the latest first. -/
def excesses (threshold : UInt64) : List Feeding → Int
  | [] => 0
  | .consume d :: older => excesses threshold older + (fed threshold older).1.excess d
  | .take :: older => excesses threshold older

section
variable {threshold : UInt64} {feedings : List Feeding} {c : Cache} {d : Delta}

theorem threshold_fed (threshold : UInt64) (feedings : List Feeding) :
    (fed threshold feedings).1.threshold = threshold := by
  induction feedings with
  | nil => rfl
  | cons feeding older ih =>
    cases feeding with
    | consume d => exact (threshold_consume _ _).trans ih
    | take => exact ih

/-- What is pending never exceeds the threshold. -/
theorem pending_fed_le (threshold : UInt64) (feedings : List Feeding) :
    (fed threshold feedings).1.pending.magnitude ≤ threshold.toNat := by
  cases feedings with
  | nil => simp [fed, Delta.magnitude]
  | cons feeding older =>
    cases feeding with
    | consume d =>
      have hle : ((fed threshold older).1.consume d).1.pending.magnitude ≤ _ := Ledger.pending_consume_le
      rwa [threshold_consume, threshold_fed] at hle
    | take =>
      show (0 : Delta).magnitude ≤ _
      simp [Delta.magnitude]

/-- What is pending and what was handed out is everything that was taken in, less what was cut off. -/
theorem level_fed_excesses (threshold : UInt64) (feedings : List Feeding) :
    level (fed threshold feedings) = total (feedings.filterMap Feeding.amount?) - excesses threshold feedings := by
  induction feedings with
  | nil => simp [fed, level, total, excesses]
  | cons feeding older ih =>
    cases feeding with
    | consume d =>
      have hone := level_feed_consume (fed threshold older) d
      show level (feed (fed threshold older) (.consume d)) =
        (d.toInt + total (older.filterMap Feeding.amount?)) -
          (excesses threshold older + (fed threshold older).1.excess d)
      omega
    | take => exact (level_take _).trans ih

/-- Only an amount that reaches the end of the range from within the threshold is cut off. -/
theorem lt_of_excess_ne_zero (hp : c.pending.magnitude ≤ threshold.toNat) (h : c.excess d ≠ 0) :
    Delta.greatest - threshold.toNat < d.toInt.natAbs := by
  by_contra hle
  apply h
  apply excess_eq_zero
  simp only [Delta.magnitude, Delta.InRange, Delta.least, Delta.greatest] at *
  omega

theorem excesses_eq_zero
    (h : ∀ d ∈ feedings.filterMap Feeding.amount?, threshold.toNat + d.toInt.natAbs ≤ Delta.greatest) :
    excesses threshold feedings = 0 := by
  induction feedings with
  | nil => rfl
  | cons feeding older ih =>
    cases feeding with
    | consume d =>
      have hd : threshold.toNat + d.toInt.natAbs ≤ Delta.greatest := h d (by simp [Feeding.amount?])
      have holder : excesses threshold older = 0 := ih fun d' hd' => h d' (by simp [Feeding.amount?, hd'])
      have hone : (fed threshold older).1.excess d = 0 := by
        by_contra hne
        have hlt := lt_of_excess_ne_zero (pending_fed_le threshold older) hne
        omega
      rw [excesses, holder, hone, Int.add_zero]
    | take => exact ih h

/-- What consuming does, told in integers. -/
theorem consume_eq (c : Cache) (d : Delta) :
    let sum := max Delta.least (min (c.pending.toInt + d.toInt) Delta.greatest)
    ((c.consume d).1.pending.toInt, (c.consume d).2.map Int64.toInt) =
      if c.threshold.toNat < sum.natAbs then (0, some sum) else (sum, none) := by
  intro sum
  have hsum : (c.pending.addClamped d).toInt = sum := Delta.toInt_addClamped ..
  have hexceeded : c.exceeded (c.pending.addClamped d) = decide (c.threshold.toNat < sum.natAbs) := by
    rw [exceeded, Delta.magnitude, hsum]
  by_cases h : c.threshold.toNat < sum.natAbs
  · rw [if_pos h, consume_of_exceeded (by rw [hexceeded, decide_eq_true h])]
    simp [hsum]
  · rw [if_neg h, consume_of_not_exceeded (by rw [hexceeded, decide_eq_false h])]
    simp [hsum]

/-- No sum of amounts exceeds a threshold beyond the range. -/
theorem consume_snd_eq_none (h : 0x8000000000000000 ≤ c.threshold.toNat) : (c.consume d).2 = none := by
  rw [consume_snd, if_pos]
  have hleast := Delta.least_le_toInt (c.pending.addClamped d)
  have hgreatest := Delta.toInt_le_greatest (c.pending.addClamped d)
  simp only [Delta.magnitude, Delta.least, Delta.greatest] at hleast hgreatest ⊢
  omega

end

/-- Whatever a cache with any threshold has been through, what is pending stays within the threshold, what it takes in
next is added up to the ends of the range and handed out if it exceeds the threshold, and nothing is lost but what is
cut off there, which takes an amount that reaches the end of the range from within the threshold. -/
theorem cache_loses_only_excess (threshold : UInt64) (feedings : List Feeding) :
    let cache := (fed threshold feedings).1
    let handedOut := total (fed threshold feedings).2
    let offered := feedings.filterMap Feeding.amount?
    (cache.pending.toInt.natAbs ≤ threshold.toNat ∧ Delta.InRange cache.pending.toInt) ∧
    (∀ d : Delta,
      let sum := max Delta.least (min (cache.pending.toInt + d.toInt) Delta.greatest)
      ((cache.consume d).1.pending.toInt, (cache.consume d).2.map Int64.toInt) =
          (if threshold.toNat < sum.natAbs then (0, some sum) else (sum, none)) ∧
        cache.excess d = cache.pending.toInt + d.toInt - sum ∧
        (cache.excess d ≠ 0 → Delta.greatest - threshold.toNat < d.toInt.natAbs) ∧
        (0x8000000000000000 ≤ threshold.toNat → (cache.consume d).2 = none)) ∧
    (cache.take.1.pending = 0 ∧ cache.take.2 = cache.pending) ∧
    handedOut + cache.pending.toInt = total offered - excesses threshold feedings ∧
    ((∀ d ∈ offered, threshold.toNat + d.toInt.natAbs ≤ Delta.greatest) →
      handedOut + cache.pending.toInt = total offered) := by
  intro cache handedOut offered
  have hkept : cache.threshold = threshold := threshold_fed threshold feedings
  have hpending : cache.pending.magnitude ≤ threshold.toNat := pending_fed_le threshold feedings
  have hlevel : handedOut + cache.pending.toInt = total offered - excesses threshold feedings := by
    rw [Int.add_comm]
    exact level_fed_excesses threshold feedings
  refine ⟨⟨hpending, Delta.least_le_toInt _, Delta.toInt_le_greatest _⟩, ?_, ⟨rfl, rfl⟩, hlevel, ?_⟩
  · intro d sum
    refine ⟨?_, ?_, lt_of_excess_ne_zero hpending, ?_⟩
    · have hconsume := consume_eq cache d
      rwa [hkept] at hconsume
    · rw [excess, Delta.toInt_addClamped]
    · intro h
      exact consume_snd_eq_none (by rwa [hkept])
  · intro hfits
    rw [hlevel, excesses_eq_zero hfits, Int.sub_zero]

-- the largest amount and one more, all of it given back: what was cut off is missing
example : (fed 0xffffffffffffffff
    [.take, .consume (-0x7fffffffffffffff), .consume (-2), .consume 1, .consume 0x7fffffffffffffff]).2 = [-2] := by
  decide

end Cache

end HeapLedger
