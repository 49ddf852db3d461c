import Mathlib
import HeapLedger.Proofs.Promise

/-!
# What contexts hold together

What a context has pending and what it has committed is together what it took in, as long as no addition is cut off. So
all contexts together hold what the journal says was taken in.
-/

namespace HeapLedger

open Ledger

def Feeding.amount? : Feeding → Option Delta
  | .consume d => some d
  | .take => none

/-! ## One cache -/

namespace Cache

/-- No addition is cut off while a cache goes through some more, given the latest first. -/
def Exact (threshold : UInt64) (older : List Feeding) : List Feeding → Prop
  | [] => True
  | .consume d :: new =>
    Delta.InRange ((fed threshold (new ++ older)).1.pending.toInt + d.toInt) ∧ Exact threshold older new
  | .take :: new => Exact threshold older new

instance decidableExact (threshold : UInt64) (older : List Feeding) : DecidablePred (Exact threshold older)
  | [] => .isTrue trivial
  | .consume d :: new =>
    have := decidableExact threshold older new
    inferInstanceAs (Decidable
      (Delta.InRange ((fed threshold (new ++ older)).1.pending.toInt + d.toInt) ∧ Exact threshold older new))
  | .take :: new => decidableExact threshold older new

/-- What is pending in a cache and what it has handed out. -/
def level (r : Cache × List Delta) : Int := r.1.pending.toInt + total r.2

def excess (c : Cache) (d : Delta) : Int := c.pending.toInt + d.toInt - (c.pending.addClamped d).toInt

theorem excess_eq_zero {c : Cache} {d : Delta} (h : Delta.InRange (c.pending.toInt + d.toInt)) : c.excess d = 0 := by
  simp [excess, Delta.toInt_addClamped_of_inRange h]

theorem level_feed_consume (r : Cache × List Delta) (d : Delta) :
    level (feed r (.consume d)) = level r + d.toInt - r.1.excess d := by
  unfold level feed excess
  cases he : r.1.exceeded (r.1.pending.addClamped d) with
  | true =>
    simp only [consume_of_exceeded he, Option.toList_some, total, List.singleton_append, List.map_cons, List.sum_cons,
      Int64.toInt_zero]
    omega
  | false =>
    simp only [consume_of_not_exceeded he, Option.toList_none, List.nil_append]
    omega

theorem level_consume {r : Cache × List Delta} {d : Delta} (h : Delta.InRange (r.1.pending.toInt + d.toInt)) :
    level (feed r (.consume d)) = level r + d.toInt := by
  rw [level_feed_consume, excess_eq_zero h, Int.sub_zero]

theorem level_take (r : Cache × List Delta) : level (feed r .take) = level r := Int.zero_add _

theorem level_fed {threshold : UInt64} {older new : List Feeding} (h : Exact threshold older new) :
    level (fed threshold (new ++ older)) = level (fed threshold older) + total (new.filterMap Feeding.amount?) := by
  induction new with
  | nil => exact (Int.add_zero _).symm
  | cons feeding new ih =>
    cases feeding with
    | consume d =>
      have hrest := ih h.2
      have hone := level_consume h.1
      show level (feed (fed threshold (new ++ older)) (.consume d)) = _ + (d.toInt + total (new.filterMap Feeding.amount?))
      omega
    | take => exact (level_take _).trans (ih h)

end Cache

/-! ## One context -/

def gathered (c : ContextId) (entries : List Entry) : List Delta :=
  (entries.filterMap (Entry.feeding? c)).filterMap Feeding.amount?

section
variable {c : ContextId} {entries older : List Entry}

theorem gathered_append : gathered c (entries ++ older) = gathered c entries ++ gathered c older := by
  simp [gathered]

theorem gathered_eq : gathered c entries =
    (entries.filterMap Entry.intake?).filterMap fun p => if p.1 = c then some p.2 else none := by
  unfold gathered
  rw [List.filterMap_filterMap, List.filterMap_filterMap]
  refine List.filterMap_congr fun e _ => ?_
  unfold Entry.feeding?
  cases e.intake? with
  | some p =>
    obtain ⟨c', d⟩ := p
    dsimp only
    split <;> simp_all [Feeding.amount?]
  | none =>
    dsimp only
    split
    · split <;> rfl
    · rfl

theorem gathered_eq_nil (h : ∀ e ∈ entries, ∀ d, e.intake? ≠ some (c, d)) : gathered c entries = [] := by
  rw [gathered_eq, List.filterMap_filterMap, List.filterMap_eq_nil_iff]
  intro e he
  cases hi : e.intake? with
  | none => rfl
  | some p =>
    obtain ⟨c', d⟩ := p
    exact if_neg fun hc : c' = c => h e he d (hc ▸ hi)

end

/-! ## All contexts -/

def Entry.amount? (e : Entry) : Option Delta := e.intake?.map (·.2)

def taken (entries : List Entry) : Int := total (entries.filterMap Entry.amount?)

theorem taken_append (new older : List Entry) : taken (new ++ older) = taken new + taken older := by
  simp [taken, total]

theorem taken_cons (e : Entry) (older : List Entry) : taken (e :: older) = worth e.amount? + taken older :=
  total_filterMap_cons ..

theorem taken_eq_zero {entries : List Entry} (h : ∀ e ∈ entries, e.intake? = none) : taken entries = 0 := by
  have hnone : entries.filterMap Entry.amount? = [] :=
    List.filterMap_eq_nil_iff.mpr fun e he => by rw [Entry.amount?, h e he]; rfl
  rw [taken, hnone]
  rfl

/-- What is taken in is taken in by one context. -/
theorem sum_worth_taken {e : Entry} {n : Nat} (h : ∀ c d, e.intake? = some (c, d) → c < n) :
    ∑ c ∈ Finset.range n, worth ((e.feeding? c).bind Feeding.amount?) = worth e.amount? := by
  unfold Entry.feeding? Entry.amount?
  cases hi : e.intake? with
  | some p =>
    obtain ⟨c', d⟩ := p
    have hone : ∀ c, worth ((if c' = c then some (Feeding.consume d) else none).bind Feeding.amount?) =
        if c' = c then d.toInt else 0 := fun c => by split <;> rfl
    simp only [hone, Finset.sum_ite_eq, Finset.mem_range, if_pos (h c' d hi)]
    rfl
  | none =>
    refine Finset.sum_eq_zero fun c _ => ?_
    dsimp only
    split
    · split <;> rfl
    · rfl

theorem sum_gathered {entries : List Entry} {n : Nat} (h : ∀ e ∈ entries, ∀ c d, e.intake? = some (c, d) → c < n) :
    ∑ c ∈ Finset.range n, total (gathered c entries) = taken entries := by
  induction entries with
  | nil => exact Finset.sum_eq_zero fun _ _ => rfl
  | cons e older ih =>
    have hcons : ∀ c, total (gathered c (e :: older)) =
        worth ((e.feeding? c).bind Feeding.amount?) + total (gathered c older) := by
      intro c
      simp only [gathered, List.filterMap_filterMap]
      exact total_filterMap_cons ..
    simp only [hcons, Finset.sum_add_distrib]
    rw [sum_worth_taken (h e (List.mem_cons_self ..)), ih fun e he => h e (List.mem_cons_of_mem _ he), taken_cons]

namespace Ledger

def holding (l : Ledger) (c : ContextId) : Int := (l.context c).pending.toInt + total (l.commits c)

/-- What is pending in all contexts, and everything that they have committed. -/
def level (l : Ledger) : Int :=
  ∑ c ∈ Finset.range l.contexts.size, ((l.context c).pending.toInt + total (l.commits c))

/-- No addition to what is pending in a context was cut off since. -/
def Exact (l₀ l : Ledger) (since : List Entry) : Prop :=
  ∀ c < l.contexts.size,
    Cache.Exact (l.context c).cache.threshold (l₀.feedings c) (since.filterMap (Entry.feeding? c))

section
variable {l₀ l : Ledger} {since : List Entry}

theorem lt_of_feedings (h : Fed l) {e : Entry} (he : e ∈ l.journal) {c : ContextId} {d : Delta}
    (hi : e.intake? = some (c, d)) : c < l.contexts.size := by
  by_contra hge
  have hnone := (h.fresh c (Nat.le_of_not_lt hge)).1
  have hfed : e.feeding? c = none := List.filterMap_eq_nil_iff.mp hnone e he
  exact absurd (hfed.symm.trans (e.feeding?_of_intake hi)) nofun

theorem holding_of_fresh (h : Fed l) {c : ContextId} (hc : l.contexts.size ≤ c) : l.holding c = 0 := by
  rw [holding, (h.fresh c hc).2, context, Table.get_of_size_le hc]
  rfl

theorem holding_eq (h : Fed l) {c : ContextId} (hc : c < l.contexts.size) :
    l.holding c = Cache.level (Cache.fed (l.context c).cache.threshold (l.feedings c)) := by
  rw [h.fed c hc]
  rfl

/-- A context holds more by what it took in since, and one that is new had held nothing. -/
theorem holding_since (h₀ : Fed l₀) (h : Fed l) (hl : Lasting l₀ l) (hj : l.journal = since ++ l₀.journal)
    (he : Exact l₀ l since) {c : ContextId} (hc : c < l.contexts.size) :
    l.holding c = l₀.holding c + total (gathered c since) := by
  have hfeedings : l.feedings c = since.filterMap (Entry.feeding? c) ++ l₀.feedings c := by
    rw [feedings, hj, List.filterMap_append]
    rfl
  have hbefore : Cache.level (Cache.fed (l.context c).cache.threshold (l₀.feedings c)) = l₀.holding c := by
    rcases Nat.lt_or_ge c l₀.contexts.size with hlt | hge
    · rw [holding_eq h₀ hlt, (hl.context c hlt).threshold]
    · rw [holding_of_fresh h₀ hge, (h₀.fresh c hge).1]
      rfl
  rw [holding_eq h hc, hfeedings, Cache.level_fed (he c hc), hbefore]
  rfl

/-- All contexts together hold more by what was taken in since. -/
theorem level_since (h₀ : Fed l₀) (h : Fed l) (hl : Lasting l₀ l) (hj : l.journal = since ++ l₀.journal)
    (he : Exact l₀ l since) : l.level = l₀.level + taken since := by
  have hgain : l.level = ∑ c ∈ Finset.range l.contexts.size, (l₀.holding c + total (gathered c since)) :=
    Finset.sum_congr rfl fun c hc => holding_since h₀ h hl hj he (Finset.mem_range.mp hc)
  have hbefore : ∑ c ∈ Finset.range l.contexts.size, l₀.holding c = l₀.level :=
    (Finset.sum_subset (Finset.range_mono hl.contexts_size) fun c _ hc =>
      holding_of_fresh h₀ (Nat.le_of_not_lt fun hlt => hc (Finset.mem_range.mpr hlt))).symm
  have htaken : ∀ e ∈ since, ∀ c d, e.intake? = some (c, d) → c < l.contexts.size := fun e he c d =>
    lt_of_feedings h (hj ▸ List.mem_append_left _ he)
  rw [hgain, Finset.sum_add_distrib, hbefore, sum_gathered htaken]

end

end Ledger

end HeapLedger
