import HeapLedger.Proofs.Blind
import HeapLedger.Proofs.Offered

/-!
# Batches are not seen

A run is gone through once more, with services that have other thresholds. Contexts then commit other amounts at other
times, but nobody is told anything else, and the counters together with what is pending below them show the same.
-/

namespace HeapLedger

open Ledger

/-- A run, and the ledger that the same actions lead to if all services are built with thresholds of any other kind. -/
inductive Rerun : Holdings → Ledger → Ledger → Prop
  | nil : Rerun {} {} {}
  | start {h l l'} (hr : Rerun h l l') : Rerun h l.newThread.1 l'.newThread.1
  | act {h l l' t a} (threshold : UInt64) (hr : Rerun h l l') (ht : t < l.threads.size) (he : t ∉ h.ended)
      (ha : l.Admits h a) (hm : a.metered = true) :
      Rerun (h.after t a (l.perform t a).2) (l.perform t a).1 (l'.perform t (a.withThreshold threshold)).1

/-! ## What is written down -/

section
variable (entries : List Entry)

theorem parkedSum_unbatch (t : ThreadId) (s : ServiceId) :
    parkedSum t s (entries.filterMap Entry.unbatch) = parkedSum t s entries := by
  induction entries with
  | nil => rfl
  | cons e older ih =>
    cases e with
    | charged v =>
      show parkedSum t s (.charged v :: older.filterMap Entry.unbatch) = parkedSum t s (.charged v :: older)
      simp only [parkedSum, ih]
    | _ => exact ih

theorem reached_unbatch (c : ContextId) : reached c (entries.filterMap Entry.unbatch) = reached c entries := by
  induction entries with
  | nil => rfl
  | cons e older ih =>
    cases e with
    | committed c b => exact ih.trans (Int.add_zero _).symm
    | carried t s c' d =>
      show reached c (older.filterMap Entry.unbatch) +
        (if c' = c then parkedSum t s (older.filterMap Entry.unbatch) else 0) = _
      rw [ih, parkedSum_unbatch]
      rfl
    | _ => exact congrArg (· + _) ih

theorem consumed_unbatch (i : TrackerId) : consumed i (entries.filterMap Entry.unbatch) = consumed i entries := by
  induction entries with
  | nil => rfl
  | cons e older ih =>
    cases e with
    | committed c b => exact ih.trans (Int.add_zero _).symm
    | _ => exact congrArg (· + _) ih

theorem offered_unbatch : offered (entries.filterMap Entry.unbatch) = offered entries := by
  induction entries with
  | nil => rfl
  | cons e older ih =>
    cases e with
    | committed c b => exact ih.trans (Nat.zero_add _).symm
    | _ => exact congrArg (_ + ·) ih

end

/-! ## What an action asks for -/

theorem Holdings.after_unbatch (h : Holdings) (t : ThreadId) (a : Action) (o : Outcome) :
    h.after t a o.unbatch = h.after t a o := by
  cases a <;> cases o <;> rfl

theorem Holdings.after_withThreshold (h : Holdings) (t : ThreadId) (a : Action) (threshold : UInt64) (o : Outcome) :
    h.after t (a.withThreshold threshold) o = h.after t a o := by
  cases a <;> rfl

namespace Ledger

section
variable (l : Ledger) (h : Holdings)

theorem trackers_size_unbatch : l.unbatch.trackers.size = l.trackers.size := Table.size_map ..

theorem contexts_size_unbatch : l.unbatch.contexts.size = l.contexts.size := Table.size_map ..

theorem services_size_unbatch : l.unbatch.services.size = l.services.size := Table.size_map ..

theorem holds_unbatch {c : ContextId} : l.unbatch.Holds h c ↔ l.Holds h c := by
  constructor
  all_goals
    intro hc
    cases hc with
    | context hc => exact .context hc
    | account ha => exact .account ha
    | future hf => exact .future hf

theorem names_unbatch {k : TaskKey} {c : ContextId} : l.unbatch.Names k c ↔ l.Names k c := by
  constructor
  · intro hn
    cases hn with
    | roster hc => exact .roster hc
    | slot hs hc => exact .slot (source_unbatch l _ ▸ hs) (slots_unbatch l _ ▸ hc)
    | recent hs hc => exact .recent (source_unbatch l _ ▸ hs) hc
  · intro hn
    cases hn with
    | roster hc => exact .roster hc
    | slot hs hc => exact .slot ((source_unbatch l _).trans hs) ((slots_unbatch l _).symm ▸ hc)
    | recent hs hc => exact .recent ((source_unbatch l _).trans hs) hc

theorem inUse_unbatch (c : ContextId) : l.unbatch.inUse c = l.inUse c := by
  rw [← inUse_cover, cover_unbatch, inUse_cover]

theorem admits_unbatch (a : Action) : l.unbatch.Admits h a ↔ l.Admits h a := by
  cases a with
  | flushContext c => exact holds_unbatch l h
  | activate r key => simp only [Admits, names_unbatch, closed_unbatch]; rfl
  | replaceContext old new => simp only [Admits, inUse_unbatch, closed_unbatch]
  | _ =>
    simp only [Admits, Serves, trackers_size_unbatch, services_size_unbatch]
    try rfl

end

theorem admits_withThreshold {l : Ledger} {h : Holdings} {a : Action} (threshold : UInt64) :
    l.Admits h (a.withThreshold threshold) ↔ l.Admits h a := by
  cases a <;> exact Iff.rfl

end Ledger

/-! ## Two runs at once -/

variable {h : Holdings} {l l' : Ledger}

theorem Rerun.left (hr : Rerun h l l') : Run h l := by
  induction hr with
  | nil => exact .nil
  | start _ ih => exact .start ih
  | act _ _ ht he ha _ ih => exact .act ih ht he ha

theorem rebatched_newThread : AgreeOnly Rebatched (·.newThread.1) (·.newThread.1) :=
  Built.blind (plain_blind (fun _ => rfl) fun _ => rfl)

/-- What is taken out is all that makes a difference. -/
theorem Rerun.rebatched (hr : Rerun h l l') : Rebatched l l' := by
  induction hr with
  | nil => exact ⟨rfl, fun _ => ⟨"", {}, rfl⟩⟩
  | start _ ih => exact rebatched_newThread.keeps ih
  | @act h l l' t a threshold _ _ _ _ hm ih => exact (tell_blind t hm threshold ih).1

theorem Rerun.right (hr : Rerun h l l') : Run h l' := by
  induction hr with
  | nil => exact .nil
  | start _ ih => exact .start ih
  | @act h l l' t a threshold hr ht he ha hm ih =>
    have hsame := hr.rebatched
    have hthreads : l.threads.size = l'.threads.size := hsame.read (·.threads.size) fun _ => rfl
    have hadmits : l'.Admits h (a.withThreshold threshold) := by
      rw [admits_withThreshold, ← admits_unbatch, ← hsame.same, admits_unbatch]
      exact ha
    have htold : (l.perform t a).2.unbatch = (l'.perform t (a.withThreshold threshold)).2.unbatch :=
      (tell_blind t hm threshold hsame).2
    have hafter : h.after t (a.withThreshold threshold) (l'.perform t (a.withThreshold threshold)).2 =
        h.after t a (l.perform t a).2 := by
      rw [Holdings.after_withThreshold, ← Holdings.after_unbatch, ← htold, Holdings.after_unbatch]
    exact hafter ▸ ih.act (hthreads ▸ ht) he hadmits

/-! ## What counters show -/

namespace Ledger.Rebatched

variable (hs : Rebatched l l')

include hs

theorem contexts_size : l'.contexts.size = l.contexts.size :=
  (hs.read (·.contexts.size) contexts_size_unbatch).symm

theorem context (c : ContextId) : (l'.context c).unbatch = (l.context c).unbatch := by
  rw [← context_unbatch, ← context_unbatch, hs.same]

theorem closed (c : ContextId) : (l'.context c).closed = (l.context c).closed :=
  (congrArg Context.closed (hs.context c) :)

theorem route (i : TrackerId) : l'.route i = l.route i := by
  refine (hs.read (·.route i) fun l => ?_).symm
  rw [Ledger.route, tracker_unbatch]
  rfl

theorem below (hl : Sound l) (hl' : Sound l') (i : TrackerId) : l'.below i = l.below i := by
  ext c
  have htracker : (l'.context c).tracker = (l.context c).tracker := (congrArg Context.tracker (hs.context c) :)
  rw [mem_below hl', mem_below hl, hs.contexts_size, htracker, hs.route]

theorem feeders (hl : Sound l) (hl' : Sound l') (i : TrackerId) : l'.feeders i = l.feeders i := by
  ext j
  have hsize : l'.trackers.size = l.trackers.size := (hs.read (·.trackers.size) trackers_size_unbatch).symm
  rw [mem_feeders hl', mem_feeders hl, hsize, hs.route]

theorem journal : l'.journal.filterMap Entry.unbatch = l.journal.filterMap Entry.unbatch :=
  (congrArg Ledger.journal hs.same.symm :)

theorem offered : HeapLedger.offered l'.journal = HeapLedger.offered l.journal := by
  rw [← offered_unbatch, hs.journal, offered_unbatch]

/-- Counters are to receive the same in the end. -/
theorem accepted (hl : Sound l) (hl' : Sound l') (i : TrackerId) : l'.accepted i = l.accepted i := by
  have hreached : ∀ c, HeapLedger.reached c l'.journal = HeapLedger.reached c l.journal := fun c => by
    rw [← reached_unbatch, hs.journal, reached_unbatch]
  have hconsumed : ∀ j, consumed j l'.journal = consumed j l.journal := fun j => by
    rw [← consumed_unbatch, hs.journal, consumed_unbatch]
  simp only [Ledger.accepted, hs.below hl hl', hs.feeders hl hl', hreached, hconsumed]

end Ledger.Rebatched

theorem sum_unsettled (l : Ledger) (i : TrackerId) : ∑ c ∈ l.below i, l.unsettled c =
    ∑ c ∈ l.below i with (l.context c).closed = false, (l.context c).pending.toInt := by
  rw [Finset.sum_filter]
  refine Finset.sum_congr rfl fun c _ => ?_
  unfold unsettled
  cases (l.context c).closed <;> rfl

/-- Nobody can tell from a run which thresholds its services have, but for what is pending and what was committed so far.
Whatever is done next is told the same, every service has asked as often and skipped as many charges, and the same is
written down. As long as all amounts that were handed in fit into the range together, a counter shows, together with what
is pending in the open contexts below it, the same in both runs; so it shows the same once all of these are closed, and a
run that commits at once shows everywhere what the other one shows together with what is pending. -/
theorem batches_unseen (hr : Rerun h l l') :
    l'.unbatch = l.unbatch ∧
      (∀ t a threshold, a.metered = true →
        (l'.perform t (a.withThreshold threshold)).2.unbatch = (l.perform t a).2.unbatch) ∧
      (∀ s, (l'.service s).lookups = (l.service s).lookups ∧ (l'.service s).skipped = (l.service s).skipped) ∧
      ((offered l.journal : Int) ≤ Delta.greatest → ∀ i, ∃ totals totals',
        (l.tracker i).totals? = some totals ∧ (l'.tracker i).totals? = some totals' ∧
        totals'.consumption.toInt + ∑ c ∈ l'.below i with (l'.context c).closed = false, (l'.context c).pending.toInt =
          totals.consumption.toInt + ∑ c ∈ l.below i with (l.context c).closed = false, (l.context c).pending.toInt ∧
        ((∀ c ∈ l.below i, (l.context c).closed = true) → totals'.consumption = totals.consumption) ∧
        ((∀ c ∈ l.below i, (l'.context c).cache.threshold = 0) → totals'.consumption.toInt = totals.consumption.toInt +
          ∑ c ∈ l.below i with (l.context c).closed = false, (l.context c).pending.toInt)) := by
  have hsame := hr.rebatched
  refine ⟨hsame.same.symm, fun t a threshold ha => (tell_blind t ha threshold hsame).2.symm, fun s => ?_, fun hb i => ?_⟩
  · have hservice : (l'.service s).unbatch = (l.service s).unbatch := by
      rw [← service_unbatch, ← service_unbatch, hsame.same]
    exact ⟨(congrArg Service.lookups hservice :), (congrArg Service.skipped hservice :)⟩
  · have hsound := hr.left.reach.1
    have hsound' := hr.right.reach.1
    have htotals : ∀ {l : Ledger}, l.Counts → ∃ totals, (l.tracker i).totals? = some totals := by
      intro l hc
      obtain ⟨label, totals, hk⟩ := hc i
      exact ⟨totals, by rw [Tracker.totals?, hk]⟩
    obtain ⟨totals, ht⟩ := htotals hsame.counts
    obtain ⟨totals', ht'⟩ := htotals (hsame.counts.of_unbatch hsame.same.symm)
    have hshown := hr.left.consumption_add_unsettled hb ht
    have hshown' := hr.right.consumption_add_unsettled (hsame.offered ▸ hb) ht'
    rw [hsame.accepted hsound hsound', ← hshown] at hshown'
    have hbelow := hsame.below hsound hsound' i
    refine ⟨totals, totals', ht, ht', ?_, fun hclosed => ?_, fun heager => ?_⟩
    · rw [← sum_unsettled, ← sum_unsettled, hshown']
    · have hnone : ∑ c ∈ l.below i, l.unsettled c = 0 :=
        Finset.sum_eq_zero fun c hc => if_pos (hclosed c hc)
      have hnone' : ∑ c ∈ l'.below i, l'.unsettled c = 0 :=
        Finset.sum_eq_zero fun c hc => if_pos ((hsame.closed c).trans (hclosed c (hbelow ▸ hc)))
      rw [hnone, hnone', Int.add_zero, Int.add_zero] at hshown'
      exact Int64.toInt_inj.mp hshown'
    · have hnone' : ∑ c ∈ l'.below i, l'.unsettled c = 0 := by
        refine Finset.sum_eq_zero fun c hc => ?_
        have hle := hsound'.pending_le c
        rw [heager c (hbelow ▸ hc)] at hle
        rw [unsettled_eq hsound']
        exact Int.natAbs_eq_zero.mp (Nat.le_zero.mp hle)
      rw [← sum_unsettled, ← hshown', hnone', Int.add_zero]

def hurried : Ledger :=
  let l := (perform (newThread {}).1 0 (.newService { threshold := 0 })).1
  let l := (l.perform 0 (.openAccount 0 0)).1
  let l := (l.perform 0 (.enter ⟨⟨1⟩, 0⟩)).1
  (l.perform 0 (.charge 0 7)).1

theorem rerun_hurried : Rerun { accounts := [⟨⟨1⟩, 0⟩] } entered hurried := by
  have hstart : Rerun {} (Ledger.newThread {}).1 (Ledger.newThread {}).1 := .start .nil
  have hservice := hstart.act (t := 0) (a := .newService { threshold := 10 }) 0 (by decide) (by decide)
    (fun _ h => by cases h) rfl
  have hopen := hservice.act (t := 0) (a := .openAccount 0 0) 0 (by decide) (by decide) (by constructor <;> decide) rfl
  have henter := hopen.act (t := 0) (a := .enter ⟨⟨1⟩, 0⟩) 0 (by decide) (by decide) (List.mem_cons_self ..) rfl
  exact henter.act (t := 0) (a := .charge 0 7) 0 (by decide) (by decide) (show 0 < Table.size _ by decide) rfl

theorem batches_unseen_hurried :
    (entered.tracker 0).totals? = some ⟨0, 0, 0⟩ ∧ (hurried.tracker 0).totals? = some ⟨7, 7, 1⟩ ∧
      ∑ c ∈ entered.below 0 with (entered.context c).closed = false, (entered.context c).pending.toInt = 7 := by
  have hlate : (entered.tracker 0).totals? = some ⟨0, 0, 0⟩ := by decide +kernel
  have hearly : (hurried.tracker 0).totals? = some ⟨7, 7, 1⟩ := by decide +kernel
  have hthreshold : ∀ c, (hurried.context c).cache.threshold = 0 := by
    rintro (_ | c)
    · decide +kernel
    · rw [context, Table.get_of_size_le (Nat.le_add_left 1 c)]
      rfl
  obtain ⟨totals, totals', ht, ht', -, -, heager⟩ := (batches_unseen rerun_hurried).2.2.2 (by decide +kernel) 0
  obtain rfl := Option.some.inj (hlate.symm.trans ht)
  obtain rfl := Option.some.inj (hearly.symm.trans ht')
  exact ⟨hlate, hearly, ((heager fun c _ => hthreshold c).trans (Int.zero_add _)).symm⟩

end HeapLedger
