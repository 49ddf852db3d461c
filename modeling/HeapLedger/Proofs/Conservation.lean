import Mathlib
import HeapLedger.Proofs.Arrival

/-!
# Conservation

Between any two actions a counter shows what has reached the contexts below it and is not pending there
any more, and what was handed to a tracker below it directly. So it lags behind what was accepted by no
more than the open contexts below it may keep.
-/

namespace HeapLedger

/-! ## Amounts that trackers are handed directly -/

def Entry.consumes (e : Entry) (i : TrackerId) : Int :=
  match e with
  | consumed j b => if j = i then b.toInt else 0
  | _ => 0

def consumed (i : TrackerId) : List Entry → Int
  | [] => 0
  | e :: older => consumed i older + e.consumes i

open Ledger

namespace Ledger

/-! ## Below a tracker -/

/-- An amount that is handed to the first tracker comes to the second one by way of parents. -/
def Feeds (l : Ledger) : TrackerId → TrackerId → Prop :=
  Relation.ReflTransGen fun i j => (l.tracker i).parent? = some j

/-- The contexts that commit to a tracker. -/
noncomputable def below (l : Ledger) (i : TrackerId) : Finset ContextId :=
  open Classical in (Finset.range l.contexts.size).filter fun c => l.Feeds (l.context c).tracker i

/-- The trackers whose amounts come to a tracker. -/
noncomputable def feeders (l : Ledger) (i : TrackerId) : Finset TrackerId :=
  open Classical in (Finset.range l.trackers.size).filter fun j => l.Feeds j i

/-- What is still pending in a context, which is nothing once it is closed. -/
def unsettled (l : Ledger) (c : ContextId) : Int :=
  if (l.context c).closed then 0 else (l.context c).pending.toInt

/-- What a tracker is to receive in the end: what has reached the contexts below it, and what trackers
below it were handed directly. -/
noncomputable def accepted (l : Ledger) (i : TrackerId) : Int :=
  ∑ c ∈ l.below i, reached c l.journal + ∑ j ∈ l.feeders i, consumed j l.journal

/-- What a tracker has received of it. -/
noncomputable def settled (l : Ledger) (i : TrackerId) : Int :=
  ∑ c ∈ l.below i, (reached c l.journal - l.unsettled c) + ∑ j ∈ l.feeders i, consumed j l.journal

/-- How much the open contexts below a tracker may keep pending. -/
noncomputable def slack (l : Ledger) (i : TrackerId) : Int :=
  ∑ c ∈ l.below i with (l.context c).closed = false, ((l.context c).cache.threshold.toNat : Int)

section
variable {l : Ledger} (h : Sound l)

include h

/-- A route follows the parents. -/
theorem mem_route_iff {i : TrackerId} (hi : i < l.trackers.size) (j : TrackerId) : j ∈ l.route i ↔ l.Feeds i j := by
  induction i using Nat.strongRecOn with
  | _ i ih =>
    rw [Feeds, Relation.ReflTransGen.cases_head_iff, route, List.mem_cons]
    refine or_congr eq_comm ?_
    rcases h.route i hi with h0 | ⟨p, hp, h1⟩
    · simp [Tracker.parent?, h0]
    · have hparent : (l.tracker i).parent? = some p := by
        rw [Tracker.parent?, h1]
        rfl
      rw [h1, ih p hp (Nat.lt_trans hp hi)]
      simp [hparent, Feeds]

theorem mem_below {c : ContextId} {i : TrackerId} :
    c ∈ l.below i ↔ c < l.contexts.size ∧ i ∈ l.route (l.context c).tracker := by
  classical
  rw [below, Finset.mem_filter, Finset.mem_range]
  exact and_congr_right fun hc => (mem_route_iff h (h.context_tracker c hc) i).symm

theorem mem_feeders {i j : TrackerId} : j ∈ l.feeders i ↔ j < l.trackers.size ∧ i ∈ l.route j := by
  classical
  rw [feeders, Finset.mem_filter, Finset.mem_range]
  exact and_congr_right fun hj => (mem_route_iff h hj i).symm

/-! ## What was sent to a tracker -/

theorem sumAt_sent {i : TrackerId} (hi : i < l.trackers.size) (j : TrackerId) (b : Delta) :
    sumAt j (l.sent i b) = if j ∈ l.route i then b.toInt else 0 :=
  sumAt_route (route_nodup h hi) j b

theorem sumAt_sends {e : Entry} (hc : e.Cites l) (i : TrackerId) :
    sumAt i (e.sends l) = ∑ c ∈ l.below i, e.commits c + ∑ j ∈ l.feeders i, e.consumes j := by
  cases e with
  | committed c b =>
    obtain ⟨hlt, ht⟩ := hc
    have hsent := sumAt_sent h ht i b
    simp only [Entry.sends, Entry.commits, Entry.consumes, Finset.sum_const_zero, Finset.sum_ite_eq, add_zero]
    rw [hsent, if_congr (mem_below h) rfl rfl]
    simp [hlt]
  | consumed j b =>
    have hsent := sumAt_sent h hc i b
    have hlt : j < l.trackers.size := hc
    simp only [Entry.sends, Entry.commits, Entry.consumes, Finset.sum_const_zero, Finset.sum_ite_eq, zero_add]
    rw [hsent, if_congr (mem_feeders h) rfl rfl]
    simp [hlt]
  | _ => simp [Entry.sends, Entry.commits, Entry.consumes, sumAt]

theorem sumAt_dispatched (i : TrackerId) {entries : List Entry} (hc : ∀ e ∈ entries, e.Cites l) :
    sumAt i (l.dispatched entries) = ∑ c ∈ l.below i, committed c entries + ∑ j ∈ l.feeders i, consumed j entries := by
  induction entries with
  | nil => simp [dispatched, sumAt, committed, consumed]
  | cons e older ih =>
    obtain ⟨he, hc⟩ := List.forall_mem_cons.mp hc
    have hcons : l.dispatched (e :: older) = e.sends l ++ l.dispatched older := rfl
    rw [hcons, sumAt_append, sumAt_sends h he, ih hc]
    simp only [committed, consumed, Finset.sum_add_distrib]
    omega

/-! ## What is pending -/

theorem unsettled_eq (c : ContextId) : l.unsettled c = (l.context c).pending.toInt := by
  unfold unsettled
  split
  · rename_i hc
    rw [h.pending_closed c hc]
    rfl
  · rfl

theorem abs_unsettled_le (c : ContextId) :
    |l.unsettled c| ≤ if (l.context c).closed = false then ((l.context c).cache.threshold.toNat : Int) else 0 := by
  have hle := h.pending_le c
  unfold unsettled
  cases (l.context c).closed with
  | true => simp
  | false =>
    simp only [Bool.false_eq_true, if_false, if_true]
    rw [Int.abs_eq_natAbs]
    exact Int.ofNat_le.mpr hle

/-- What was accepted is either settled or still pending below. -/
theorem accepted_sub_settled (i : TrackerId) : |l.accepted i - l.settled i| ≤ l.slack i := by
  have hdiff : l.accepted i - l.settled i = ∑ c ∈ l.below i, l.unsettled c := by
    simp only [accepted, settled, Finset.sum_sub_distrib]
    omega
  rw [hdiff, slack, Finset.sum_filter]
  exact (Finset.abs_sum_le_sum_abs ..).trans (Finset.sum_le_sum fun c _ => abs_unsettled_le h c)

end

theorem settled_eq {l : Ledger} (h : Sound l) (hb : Balanced l) (i : TrackerId) :
    l.settled i = ∑ c ∈ l.below i, committed c l.journal + ∑ j ∈ l.feeders i, consumed j l.journal := by
  unfold settled
  congr 1
  refine Finset.sum_congr rfl fun c _ => ?_
  rw [unsettled_eq h, hb c, outstanding]
  omega

end Ledger

/-! ## Runs -/

variable {h : Holdings} {l : Ledger}

/-- Whatever a run does, as long as no addition is cut off: nothing that has reached a context is lost or
counted twice on its way to the counters above. -/
theorem consumption_eq_settled (hr : Run h l) (hu : Unsaturated l.journal) :
    (∀ i < l.trackers.size, ∀ totals, (l.tracker i).totals? = some totals →
      totals.consumption = Int64.ofInt (l.settled i) ∧
        (Delta.InRange (l.settled i) → |l.accepted i - totals.consumption.toInt| ≤ l.slack i)) ∧
    (∀ c, l.unsettled c = outstanding c l.journal ∧
      ((l.context c).closed = false → (l.context c).pending.magnitude ≤ (l.context c).cache.threshold.toNat)) ∧
    CarriedOnce l.journal := by
  have hsound := hr.reach.1
  have hbalanced := hr.balanced hu
  have harrived := hr.arrived
  refine ⟨fun i _ totals ht => ?_, fun c => ⟨?_, fun _ => hsound.pending_le c⟩, ?_⟩
  · have hconsumption : totals.consumption = Int64.ofInt (l.settled i) := by
      rw [settled_eq hsound hbalanced, ← sumAt_dispatched hsound i harrived.cites]
      exact (harrived.totals i totals ht).trans (congrArg Int64.ofInt (Int.sub_zero _))
    refine ⟨hconsumption, fun hrange => ?_⟩
    have hexact : totals.consumption.toInt = l.settled i :=
      hconsumption ▸ Int64.toInt_ofInt_of_le hrange.1 (Int.lt_of_le_sub_one hrange.2)
    rw [hexact]
    exact accepted_sub_settled hsound i
  · rw [unsettled_eq hsound]
    exact hbalanced c
  · exact hr.carriedOnce

/-- Two charges that exceed the threshold together are committed as one amount. -/
theorem consumption_entered :
    let l := (entered.perform 0 (.charge 0 5)).1
    Run { accounts := [⟨⟨1⟩, 0⟩] } l ∧ Unsaturated l.journal ∧ (l.tracker 0).totals? = some ⟨12, 12, 1⟩ ∧
      Int64.ofInt (l.settled 0) = 12 := by
  have hrun := run_entered.act (t := 0) (a := .charge 0 5) (by decide) (by decide) (show 0 < Table.size _ by decide)
  have hunsaturated : Unsaturated (entered.perform 0 (.charge 0 5)).1.journal := by decide +kernel
  have htotals : ((entered.perform 0 (.charge 0 5)).1.tracker 0).totals? = some ⟨12, 12, 1⟩ := by decide +kernel
  have hsettled := ((consumption_eq_settled hrun hunsaturated).1 0 (by decide) _ htotals).1
  exact ⟨hrun, hunsaturated, htotals, hsettled.symm⟩

end HeapLedger
