import Mathlib
import HeapLedger.Proofs.Conservation
import HeapLedger.Proofs.Level

/-!
# Amounts that fit into the range together

Everything that was ever handed in goes to some context or tracker, or is held by a thread. If all of it fits into the
range, whatever the signs are, then no addition is cut off and no total wraps around.
-/

namespace HeapLedger

open Ledger

/-! ## What entries tell of -/

/-- The amount that somebody has handed in, without its sign. -/
def Entry.offer : Entry → Nat
  | charged v => v.delta.magnitude
  | accepted _ d => d.magnitude
  | consumed _ b => b.magnitude
  | _ => 0

def Entry.handed (e : Entry) : Nat := (e.amount?.map Delta.magnitude).getD 0

def Entry.direct : Entry → Nat
  | consumed _ b => b.magnitude
  | _ => 0

def Entry.parkedBy (p : ThreadId → Bool) (e : Entry) : Nat :=
  match e.parked? with
  | some (t, _, d) => if p t then d.magnitude else 0
  | none => 0

def weigh (f : Entry → Nat) (entries : List Entry) : Nat := (entries.map f).sum

def offered (entries : List Entry) : Nat := weigh Entry.offer entries

/-- The threads that do not hold any more what they have held. -/
def carriers (entries : List Entry) : List ThreadId := entries.filterMap Entry.carrier?

section
variable {e : Entry} {older : List Entry} {t : ThreadId} {s : ServiceId}

theorem weigh_cons (f : Entry → Nat) (e : Entry) (older : List Entry) : weigh f (e :: older) = f e + weigh f older := rfl

theorem parkedBy_of_parked {d : Delta} (h : e.parked? = some (t, s, d)) (p : ThreadId → Bool) :
    e.parkedBy p = if p t then d.magnitude else 0 := by
  rw [Entry.parkedBy, h]

theorem parkedBy_le_offer (p : ThreadId → Bool) (e : Entry) : e.parkedBy p ≤ e.offer := by
  unfold Entry.parkedBy
  cases e with
  | charged v =>
    simp only [Entry.parked?, Entry.offer]
    by_cases hv : v.charge = .parked
    · simp only [hv, if_true]
      split <;> simp
    · simp [hv]
  | _ => exact Nat.zero_le _

/-- What is neither carried nor parked is taken in as it was handed in. -/
theorem handed_le_offer (h : e.carrier? = none) (p : ThreadId → Bool) : e.handed + e.parkedBy p + e.direct ≤ e.offer := by
  unfold Entry.parkedBy Entry.handed Entry.amount?
  cases e with
  | charged v =>
    obtain ⟨t, s, source, d, scope, context, charge⟩ := v
    cases charge <;> cases context <;>
      simp [Entry.intake?, Entry.parked?, Entry.offer, Entry.direct] <;> split <;> simp
  | carried => cases h
  | _ => simp [Entry.intake?, Entry.parked?, Entry.offer, Entry.direct]

/-- What a thread holds is no more than what it was ever given. -/
theorem magnitude_held_le (t : ThreadId) (s : ServiceId) (entries : List Entry) :
    (held t s entries).magnitude ≤ weigh (Entry.parkedBy (· == t)) entries := by
  induction entries with
  | nil => exact Nat.le_refl 0
  | cons e older ih =>
    rw [weigh_cons, held]
    cases hp : e.parked? with
    | none => exact Nat.le_trans ih (Nat.le_add_left ..)
    | some p =>
      obtain ⟨t', s', d⟩ := p
      have hsum := Delta.magnitude_addClamped_le (held t s older) d
      rw [parkedBy_of_parked hp]
      dsimp only
      by_cases ht : t' = t ∧ s' = s
      · simp only [ht.1, ht.2, and_self, if_true, beq_self_eq_true]
        omega
      · rw [if_neg ht]
        exact Nat.le_trans ih (Nat.le_add_left ..)

theorem natAbs_parkedSum_le (t : ThreadId) (s : ServiceId) (entries : List Entry) :
    (parkedSum t s entries).natAbs ≤ offered entries := by
  induction entries with
  | nil => exact Nat.le_refl 0
  | cons e older ih =>
    have hoffer := parkedBy_le_offer (fun _ => true) e
    rw [offered, weigh_cons, ← offered, parkedSum]
    cases hp : e.parked? with
    | none => exact Nat.le_trans ih (Nat.le_add_left ..)
    | some p =>
      obtain ⟨t', s', d⟩ := p
      rw [parkedBy_of_parked hp] at hoffer
      simp only [if_true, Delta.magnitude] at hoffer
      dsimp only
      split <;> omega

/-- A thread that holds something is one of those that do, or of the others. -/
theorem weigh_parkedBy_split {cs : List ThreadId} (ht : t ∉ cs) (entries : List Entry) :
    weigh (Entry.parkedBy fun j => !cs.contains j) entries =
      weigh (Entry.parkedBy fun j => !(t :: cs).contains j) entries + weigh (Entry.parkedBy (· == t)) entries := by
  induction entries with
  | nil => rfl
  | cons e older ih =>
    have hone : e.parkedBy (fun j => !cs.contains j) =
        e.parkedBy (fun j => !(t :: cs).contains j) + e.parkedBy (· == t) := by
      unfold Entry.parkedBy
      cases e.parked? with
      | none => rfl
      | some p =>
        obtain ⟨j, _, d⟩ := p
        dsimp only
        by_cases hj : j = t
        · subst hj
          simp [ht]
        · simp [hj]
    simp only [weigh_cons, ih, hone]
    omega

end

/-! ## Nothing is handed in twice -/

/-- What contexts have taken in, what threads still hold and what trackers were handed directly. -/
def received (entries : List Entry) : Nat :=
  weigh Entry.handed entries + weigh (Entry.parkedBy fun t => !(carriers entries).contains t) entries +
    weigh Entry.direct entries

theorem received_cons {e : Entry} {older : List Entry} (h : e.carrier? = none) (ho : received older ≤ offered older) :
    received (e :: older) ≤ offered (e :: older) := by
  have hcarriers : carriers (e :: older) = carriers older := List.filterMap_cons_none h
  have hone := handed_le_offer h fun t => !(carriers older).contains t
  simp only [received, hcarriers, offered, weigh_cons] at ho ⊢
  omega

theorem received_carried {t : ThreadId} {s : ServiceId} {c : ContextId} {older : List Entry}
    (ht : ∀ e ∈ older, e.carrier? ≠ some t) (ho : received older ≤ offered older) :
    received (.carried t s c (held t s older) :: older) ≤ offered (.carried t s c (held t s older) :: older) := by
  have hcarriers : carriers (.carried t s c (held t s older) :: older) = t :: carriers older :=
    List.filterMap_cons_some rfl
  have hnew : t ∉ carriers older := by
    intro hmem
    obtain ⟨e, he, hc⟩ := List.mem_filterMap.mp hmem
    exact ht e he hc
  have hsplit := weigh_parkedBy_split hnew older
  have hheld := magnitude_held_le t s older
  have hhanded : (Entry.carried t s c (held t s older)).handed = (held t s older).magnitude := rfl
  have hparked : ∀ p, (Entry.carried t s c (held t s older)).parkedBy p = 0 := fun _ => rfl
  have hdirect : (Entry.carried t s c (held t s older)).direct = 0 := rfl
  have hoffer : (Entry.carried t s c (held t s older)).offer = 0 := rfl
  simp only [received, hcarriers, offered, weigh_cons, hhanded, hparked, hdirect, hoffer] at ho ⊢
  omega

theorem received_intake {e : Entry} {c : ContextId} {d : Delta} {older : List Entry}
    (hd : ∀ t, e.carrier? = some t →
      (∃ s, e = .carried t s c d ∧ d = held t s older) ∧ ∀ e' ∈ older, e'.carrier? ≠ some t)
    (ho : received older ≤ offered older) : received (e :: older) ≤ offered (e :: older) := by
  cases hc : e.carrier? with
  | none => exact received_cons hc ho
  | some t =>
    obtain ⟨⟨s, rfl, rfl⟩, hnew⟩ := hd t hc
    exact received_carried hnew ho

variable {m m' : Moment}

theorem Flow.received_le (h : Flow m m') (ho : received m.1.journal ≤ offered m.1.journal) :
    received m'.1.journal ≤ offered m'.1.journal := by
  cases h with
  | unmoved h => rwa [h.journal]
  | note h => exact received_cons (carrier_of_intake h.intake) ho
  | @intake l q e c d hc hr hi hd =>
    have hpost : received (e :: l.journal) ≤ offered (e :: l.journal) := received_intake hd ho
    dsimp only
    rcases journal_takeIn_or l e c d with hj | ⟨b, hj⟩
    · rwa [hj]
    · rw [hj]
      exact received_cons rfl hpost
  | drain => exact received_cons rfl (received_cons rfl ho)
  | consume => exact received_cons rfl ho
  | receive | hear => exact ho

theorem received_nil : received [] ≤ offered [] := Nat.le_refl 0

theorem Flows.received_le (h : Flows m m') (ho : received m.1.journal ≤ offered m.1.journal) :
    received m'.1.journal ≤ offered m'.1.journal := by
  induction h with
  | refl => exact ho
  | tail _ hstep ih => exact hstep.received_le ih

/-! ## Contexts -/

def weight (ds : List Delta) : Nat := (ds.map Delta.magnitude).sum

theorem natAbs_total_le (ds : List Delta) : (total ds).natAbs ≤ weight ds := by
  induction ds with
  | nil => exact Nat.le_refl 0
  | cons d ds ih =>
    have hcons : total (d :: ds) = d.toInt + total ds := rfl
    have hweight : weight (d :: ds) = d.magnitude + weight ds := rfl
    rw [hcons, hweight, Delta.magnitude]
    omega

/-- What is pending in a cache and what it has handed out is no more than what it was fed. -/
theorem Cache.weight_fed_le (threshold : UInt64) (feedings : List Feeding) :
    (fed threshold feedings).1.pending.magnitude + weight (fed threshold feedings).2 ≤
      weight (feedings.filterMap Feeding.amount?) := by
  induction feedings with
  | nil => exact Nat.le_refl 0
  | cons feeding feedings ih =>
    have hfed : fed threshold (feeding :: feedings) = feed (fed threshold feedings) feeding := rfl
    rw [hfed]
    generalize fed threshold feedings = r at ih
    have hzero : Delta.magnitude 0 = 0 := rfl
    cases feeding with
    | take =>
      have hfeed : feed r .take = ({ r.1 with pending := 0 }, r.1.pending :: r.2) := rfl
      have hweight : weight (r.1.pending :: r.2) = r.1.pending.magnitude + weight r.2 := rfl
      rw [hfeed, hweight, hzero, Nat.zero_add]
      exact ih
    | consume d =>
      have hsum := Delta.magnitude_addClamped_le r.1.pending d
      have hweight : weight ((Feeding.consume d :: feedings).filterMap Feeding.amount?) =
          d.magnitude + weight (feedings.filterMap Feeding.amount?) := rfl
      rw [hweight, feed]
      cases he : r.1.exceeded (r.1.pending.addClamped d) with
      | true =>
        rw [consume_of_exceeded he]
        show Delta.magnitude 0 + ((r.1.pending.addClamped d).magnitude + weight r.2) ≤ _
        omega
      | false =>
        rw [consume_of_not_exceeded he]
        show (r.1.pending.addClamped d).magnitude + weight r.2 ≤ _
        omega

/-- All that contexts have taken in is taken in by one of them. -/
theorem sum_weight_gathered_le (entries : List Entry) (n : Nat) :
    ∑ c ∈ Finset.range n, weight (gathered c entries) ≤ weigh Entry.handed entries := by
  induction entries with
  | nil => simp [gathered, weight, weigh]
  | cons e older ih =>
    have hcons : ∀ c, weight (gathered c (e :: older)) = weight (gathered c [e]) + weight (gathered c older) := by
      intro c
      have happend : gathered c (e :: older) = gathered c [e] ++ gathered c older := by
        rw [← gathered_append]
        rfl
      rw [happend, weight, List.map_append, List.sum_append]
      rfl
    have hone : ∑ c ∈ Finset.range n, weight (gathered c [e]) ≤ e.handed := by
      simp only [gathered_eq, Entry.handed, Entry.amount?]
      cases hi : e.intake? with
      | none => simp [hi, weight]
      | some p =>
        obtain ⟨c', d⟩ := p
        have hweight : ∀ c, weight ((List.filterMap Entry.intake? [e]).filterMap fun p =>
            if p.1 = c then some p.2 else none) = if c' = c then d.magnitude else 0 := by
          intro c
          by_cases hc : c' = c <;> simp [hi, hc, weight]
        simp only [hweight, Finset.sum_ite_eq]
        split <;> simp
    simp only [hcons, Finset.sum_add_distrib, weigh_cons]
    omega

namespace Ledger

variable {l : Ledger} {c : ContextId}

theorem weight_commits_le (h : Fed l) (c : ContextId) :
    (l.context c).pending.magnitude + weight (l.commits c) ≤ weight (gathered c l.journal) := by
  rcases Nat.lt_or_ge c l.contexts.size with hc | hc
  · have hfed := Cache.weight_fed_le (l.context c).cache.threshold (l.feedings c)
    rw [h.fed c hc] at hfed
    exact hfed
  · rw [(h.fresh c hc).2, context, Table.get_of_size_le hc]
    exact Nat.zero_le _

end Ledger

theorem weight_gathered_le (c : ContextId) (entries : List Entry) :
    weight (gathered c entries) ≤ weigh Entry.handed entries :=
  Nat.le_trans (Finset.single_le_sum (f := fun c => weight (gathered c entries)) (fun _ _ => Nat.zero_le _)
    (Finset.mem_range.mpr c.lt_succ_self)) (sum_weight_gathered_le entries (c + 1))

/-! ## No addition is cut off -/

theorem Delta.inRange_of_natAbs_le {n : Int} {bound : Nat} (h : n.natAbs ≤ bound) (hb : (bound : Int) ≤ Delta.greatest) :
    Delta.InRange n := by
  simp only [Delta.InRange, Delta.least, Delta.greatest] at hb ⊢
  omega

theorem offered_suffix {older entries : List Entry} (h : older <:+ entries) : offered older ≤ offered entries := by
  obtain ⟨new, rfl⟩ := h
  rw [offered, offered, weigh, weigh, List.map_append, List.sum_append]
  exact Nat.le_add_left ..

theorem unsaturated_cons {e : Entry} {older : List Entry}
    (hi : ∀ p ∈ e.intake?, Delta.InRange (outstanding p.1 older + p.2.toInt))
    (hb : (offered (e :: older) : Int) ≤ Delta.greatest) (hu : Unsaturated older) : Unsaturated (e :: older) := by
  refine ⟨hi, fun p hp => ?_, hu⟩
  obtain ⟨t, s, d⟩ := p
  have hsum : parkedSum t s (e :: older) = parkedSum t s older + d.toInt := by
    rw [parkedSum, Option.mem_def.mp hp]
    exact if_pos ⟨rfl, rfl⟩
  exact hsum ▸ Delta.inRange_of_natAbs_le (natAbs_parkedSum_le t s _) hb

theorem unsaturated_silent {e : Entry} {older : List Entry} (hi : e.intake? = none)
    (hb : (offered (e :: older) : Int) ≤ Delta.greatest) (hu : Unsaturated older) : Unsaturated (e :: older) :=
  unsaturated_cons (fun p hp => by rw [hi] at hp; cases hp) hb hu

/-- As long as everything that was handed in fits into the range together, no addition is cut off. -/
theorem Flows.unsaturated (h : Flows ({}, []) m) (hb : (offered m.1.journal : Int) ≤ Delta.greatest) :
    Unsaturated m.1.journal := by
  induction h with
  | refl => trivial
  | @tail m m' hprev hstep ih =>
    have hle : ∀ {older : List Entry}, older <:+ m'.1.journal → (offered older : Int) ≤ Delta.greatest := fun hs =>
      Int.le_trans (Int.ofNat_le.mpr (offered_suffix hs)) hb
    have hu : Unsaturated m.1.journal := ih (hle hstep.journal_suffix)
    cases hstep with
    | unmoved h => rwa [h.journal]
    | note h => exact unsaturated_silent h.intake hb hu
    | @intake l q e c d hc hr hi hd =>
      have hfits : (offered (e :: l.journal) : Int) ≤ Delta.greatest := hle (takeIn_journal l e c d)
      have hpost : Unsaturated (e :: l.journal) := by
        refine unsaturated_cons (fun p hp => ?_) hfits hu
        obtain rfl : (c, d) = p := Option.some.inj (hi.symm.trans hp)
        have hpending : (l.context c).pending.toInt = outstanding c l.journal := Flows.balanced hprev hu balanced_empty c
        have hweight := weight_commits_le (Flows.fed hprev fed_empty) c
        have hgathered : weight (gathered c (e :: l.journal)) = d.magnitude + weight (gathered c l.journal) := by
          rw [gathered, List.filterMap_cons_some (e.feeding?_of_intake hi)]
          rfl
        -- what the context has taken in is among what was handed in
        have hhanded := weight_gathered_le c (e :: l.journal)
        have hreceived : received (e :: l.journal) ≤ offered (e :: l.journal) :=
          received_intake hd (Flows.received_le hprev received_nil)
        suffices hbound : (outstanding c l.journal + d.toInt).natAbs ≤ offered (e :: l.journal) from
          Delta.inRange_of_natAbs_le hbound hfits
        rw [← hpending]
        simp only [Delta.magnitude, received] at hweight hgathered hreceived
        omega
      dsimp only at hb ⊢
      rcases journal_takeIn_or l e c d with hj | ⟨b, hj⟩
      · rwa [hj]
      · rw [hj] at hb ⊢
        exact unsaturated_silent rfl hb hpost
    | drain => exact unsaturated_silent rfl hb (unsaturated_silent rfl (hle (List.suffix_cons ..)) hu)
    | consume => exact unsaturated_silent rfl hb hu
    | receive | hear => exact hu

/-! ## No total wraps around -/

/-- All that trackers were handed directly was handed to one of them. -/
theorem sum_natAbs_consumed_le (is : Finset TrackerId) (entries : List Entry) :
    ∑ i ∈ is, (consumed i entries).natAbs ≤ weigh Entry.direct entries := by
  induction entries with
  | nil => simp [consumed, weigh]
  | cons e older ih =>
    have hone : ∑ i ∈ is, (e.consumes i).natAbs ≤ e.direct := by
      cases e with
      | consumed j b =>
        have hnatAbs : ∀ i, ((Entry.consumed j b).consumes i).natAbs = if j = i then b.magnitude else 0 := by
          intro i
          show (if j = i then b.toInt else 0).natAbs = _
          split <;> rfl
        simp only [hnatAbs, Finset.sum_ite_eq, Entry.direct]
        split <;> simp
      | _ => simp [Entry.consumes]
    have hboth : ∑ i ∈ is, (consumed i (e :: older)).natAbs ≤
        ∑ i ∈ is, ((consumed i older).natAbs + (e.consumes i).natAbs) :=
      Finset.sum_le_sum fun i _ => Int.natAbs_add_le ..
    rw [Finset.sum_add_distrib] at hboth
    rw [weigh_cons]
    omega

namespace Ledger

variable {h : Holdings} {l : Ledger}

theorem natAbs_settled_le (hr : Run h l) (hu : Unsaturated l.journal) (i : TrackerId) :
    (l.settled i).natAbs ≤ offered l.journal := by
  have hsound := hr.reach.1
  have hbalanced := hr.balanced hu
  have hreceived := hr.flows.received_le received_nil
  have hbelow : l.below i ⊆ Finset.range l.contexts.size := fun c hc =>
    Finset.mem_range.mpr ((mem_below hsound).mp hc).1
  have hcommitted : (∑ c ∈ l.below i, committed c l.journal).natAbs ≤ weigh Entry.handed l.journal := by
    calc (∑ c ∈ l.below i, committed c l.journal).natAbs
        ≤ ∑ c ∈ l.below i, (committed c l.journal).natAbs := Int.natAbs_sum_le ..
      _ ≤ ∑ c ∈ l.below i, weight (gathered c l.journal) := Finset.sum_le_sum fun c _ => by
          rw [committed_eq_total]
          have hweight := weight_commits_le hr.fed c
          have htotal := natAbs_total_le (l.commits c)
          exact Nat.le_trans htotal (by omega)
      _ ≤ ∑ c ∈ Finset.range l.contexts.size, weight (gathered c l.journal) := Finset.sum_le_sum_of_subset hbelow
      _ ≤ weigh Entry.handed l.journal := sum_weight_gathered_le ..
  have hconsumed : (∑ j ∈ l.feeders i, consumed j l.journal).natAbs ≤ weigh Entry.direct l.journal :=
    Nat.le_trans (Int.natAbs_sum_le ..) (sum_natAbs_consumed_le ..)
  rw [settled_eq hsound hbalanced]
  simp only [received] at hreceived
  omega

end Ledger

/-- What a counter shows and what is still pending below it is all that it is to receive. -/
theorem Run.consumption_add_unsettled {h : Holdings} {l : Ledger} (hr : Run h l)
    (hb : (offered l.journal : Int) ≤ Delta.greatest) {i : TrackerId} {totals : Totals}
    (ht : (l.tracker i).totals? = some totals) :
    totals.consumption.toInt + ∑ c ∈ l.below i, l.unsettled c = l.accepted i := by
  have hsound := hr.reach.1
  have hu := hr.flows.unsaturated hb
  have hbalanced := hr.balanced hu
  have harrived := hr.arrived
  have hrange : Delta.InRange (l.settled i) := Delta.inRange_of_natAbs_le (natAbs_settled_le hr hu i) hb
  have hconsumption : totals.consumption = Int64.ofInt (l.settled i) := by
    rw [settled_eq hsound hbalanced, ← sumAt_dispatched hsound i harrived.cites]
    exact (harrived.totals i totals ht).trans (congrArg Int64.ofInt (Int.sub_zero _))
  rw [hconsumption, Int64.toInt_ofInt_of_le hrange.1 (Int.lt_of_le_sub_one hrange.2)]
  simp only [accepted, settled, Finset.sum_sub_distrib]
  omega

end HeapLedger
