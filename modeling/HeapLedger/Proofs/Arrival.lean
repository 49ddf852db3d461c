import Mathlib
import HeapLedger.Proofs.Balance

/-!
# What arrives at trackers

A counter shows all that was ever sent up to it, less what is still on its way, as words add.
-/

namespace HeapLedger

open Ledger

/-! ## Amounts on the way -/

def sumAt (i : TrackerId) : List (TrackerId × Delta) → Int
  | [] => 0
  | p :: ps => (if p.1 = i then p.2.toInt else 0) + sumAt i ps

theorem sumAt_append (i : TrackerId) (ps qs : List (TrackerId × Delta)) :
    sumAt i (ps ++ qs) = sumAt i ps + sumAt i qs := by
  induction ps with
  | nil => simp [sumAt]
  | cons p ps ih => rw [List.cons_append, sumAt, sumAt, ih, Int.add_assoc]

/-- A tracker is on a route once or not at all. -/
theorem sumAt_route {is : List TrackerId} (hn : is.Nodup) (i : TrackerId) (b : Delta) :
    sumAt i (is.map (·, b)) = if i ∈ is then b.toInt else 0 := by
  induction is with
  | nil => rfl
  | cons j is ih =>
    obtain ⟨hj, hn⟩ := List.nodup_cons.mp hn
    rw [List.map_cons, sumAt, ih hn]
    by_cases hji : j = i
    · subst hji
      simp [hj]
    · simp [hji, Ne.symm hji]

def Entry.sends (e : Entry) (l : Ledger) : List (TrackerId × Delta) :=
  match e with
  | committed c b => l.sent (l.context c).tracker b
  | consumed i b => l.sent i b
  | _ => []

def Ledger.dispatched (l : Ledger) (entries : List Entry) : List (TrackerId × Delta) :=
  entries.flatMap (·.sends l)

def Entry.Cites (e : Entry) (l : Ledger) : Prop :=
  match e with
  | committed c _ => c < l.contexts.size ∧ (l.context c).tracker < l.trackers.size
  | consumed i _ => i < l.trackers.size
  | _ => True

section
variable {l l' : Ledger} {e : Entry}

theorem sends_of_silent (hc : ∀ c b, e ≠ .committed c b) (hi : ∀ i b, e ≠ .consumed i b) : e.sends l = [] := by
  unfold Entry.sends
  split
  · exact absurd rfl (hc _ _)
  · exact absurd rfl (hi _ _)
  · rfl

theorem cites_of_silent (hc : ∀ c b, e ≠ .committed c b) (hi : ∀ i b, e ≠ .consumed i b) : e.Cites l := by
  unfold Entry.Cites
  split
  · exact absurd rfl (hc _ _)
  · exact absurd rfl (hi _ _)
  · trivial

theorem Tied.sent (h : Tied l l') {i : TrackerId} (hi : i < l.trackers.size) (b : Delta) :
    l'.sent i b = l.sent i b := by
  rw [Ledger.sent, Ledger.sent, Ledger.route, Ledger.route, h.above i hi]

theorem Tied.sends (h : Tied l l') (hc : e.Cites l) : e.sends l' = e.sends l := by
  cases e with
  | committed c b =>
    obtain ⟨hlt, ht⟩ := hc
    exact (congrArg (l'.sent · b) (h.tracker c hlt)).trans (h.sent ht b)
  | consumed i b => exact h.sent hc b
  | _ => rfl

theorem Tied.cites (h : Tied l l') (hc : e.Cites l) : e.Cites l' := by
  cases e with
  | committed c b =>
    obtain ⟨hlt, ht⟩ := hc
    exact ⟨Nat.lt_of_lt_of_le hlt h.contexts_size, h.tracker c hlt ▸ Nat.lt_of_lt_of_le ht h.trackers_size⟩
  | consumed i b => exact Nat.lt_of_lt_of_le hc h.trackers_size
  | _ => trivial

theorem Tied.dispatched (h : Tied l l') {entries : List Entry} (hc : ∀ e ∈ entries, e.Cites l) :
    l'.dispatched entries = l.dispatched entries := by
  unfold Ledger.dispatched
  rw [List.flatMap_def, List.flatMap_def, List.map_congr_left fun e he => h.sends (hc e he)]

end

/-! ## Flows keep the totals -/

/-- Every counter shows what was sent up to it and is not on its way any more. -/
structure Arrived (m : Moment) : Prop where
  totals : ∀ i totals, (m.1.tracker i).totals? = some totals →
    totals.consumption = Int64.ofInt (sumAt i (m.1.dispatched m.1.journal) - sumAt i m.2)
  cites : ∀ e ∈ m.1.journal, e.Cites m.1
  way : ∀ p ∈ m.2, p.1 < m.1.trackers.size

theorem arrived_empty : Arrived ({}, []) where
  totals i totals h := by
    obtain rfl := Option.some.inj h
    rfl
  cites _ h := by cases h
  way _ h := by cases h

section
variable {l l' : Ledger} {q : List (TrackerId × Delta)} (h : Arrived (l, q))

include h

theorem Arrived.tied (hl : Tied l l') (hj : l'.journal = l.journal)
    (ht : ∀ i totals, (l'.tracker i).totals? = some totals → (l.tracker i).totals? = some totals) :
    Arrived (l', q) where
  totals i totals hi := by
    show _ = Int64.ofInt (sumAt i (l'.dispatched l'.journal) - sumAt i q)
    rw [hj, hl.dispatched h.cites]
    exact h.totals i totals (ht i totals hi)
  cites e he := hl.cites (h.cites e (hj ▸ he))
  way p hp := Nat.lt_of_lt_of_le (h.way p hp) hl.trackers_size

/-- What an entry sends up is on its way from then on. -/
theorem Arrived.post {e : Entry} (hc : e.Cites l) (hw : ∀ p ∈ e.sends l, p.1 < l.trackers.size) :
    Arrived (l.post e, e.sends l ++ q) where
  totals i totals hi := by
    have hsame : (l.post e).dispatched (l.post e).journal = e.sends l ++ l.dispatched l.journal := rfl
    have hold : totals.consumption = Int64.ofInt (sumAt i (l.dispatched l.journal) - sumAt i q) :=
      h.totals i totals hi
    rw [hold]
    show _ = Int64.ofInt (sumAt i ((l.post e).dispatched (l.post e).journal) - sumAt i (e.sends l ++ q))
    rw [hsame, sumAt_append, sumAt_append]
    congr 1
    omega
  cites := List.forall_mem_cons.mpr ⟨hc, h.cites⟩
  way p hp := (List.mem_append.mp hp).elim (hw p) (h.way p)

theorem Arrived.note {e : Entry} (hc : ∀ c b, e ≠ .committed c b) (hi : ∀ i b, e ≠ .consumed i b) :
    Arrived (l.post e, q) := by
  have hpost := h.post (cites_of_silent hc hi) fun p hp => by
    rw [sends_of_silent hc hi] at hp
    cases hp
  rwa [sends_of_silent hc hi] at hpost

/-- Setting a cache moves nothing by itself. -/
theorem Arrived.setCache (c : ContextId) (cache : Cache) :
    Arrived (l.modifyContext c fun ctx => { ctx with cache }, q) :=
  h.tied
    { contexts_size := Nat.le_of_eq (contexts_size_modifyContext ..).symm
      trackers_size := Nat.le_refl _
      tracker := fun j _ => Table.get_modify_of_eq _ c j Context.tracker fun _ => rfl
      above := fun _ _ => rfl }
    rfl fun _ _ hi => hi

theorem Arrived.commit {c : ContextId} (hc : c < l.contexts.size)
    (hr : ∀ i ∈ l.route (l.context c).tracker, i < l.trackers.size) (b : Delta) :
    Arrived (l.post (.committed c b), l.sent (l.context c).tracker b ++ q) := by
  refine h.post (e := .committed c b) ⟨hc, hr _ (List.mem_cons_self ..)⟩ fun p hp => ?_
  obtain ⟨i, hi, rfl⟩ := List.mem_map.mp hp
  exact hr i hi

end

theorem consumption_add {totals : Totals} {n : Int} {b : Delta}
    (h : totals.consumption = Int64.ofInt (n - b.toInt)) : (totals.add b).consumption = Int64.ofInt n := by
  show totals.consumption + b = _
  rw [h]
  conv_lhs => rw [← Int64.ofInt_toInt b]
  rw [← Int64.ofInt_add, Int64.ofInt_toInt, Int.sub_add_cancel]

section
variable {l : Ledger} {q : List (TrackerId × Delta)} {i : TrackerId} {b : Delta}

theorem Arrived.receive {label : String} {totals : Totals} (h : Arrived (l, (i, b) :: q))
    (hk : (l.tracker i).kind = .counter label totals) :
    Arrived (l.modifyTracker i fun tr => { tr with kind := .counter label (totals.add b) }, q) := by
  have hi : i < l.trackers.size := h.way _ (List.mem_cons_self ..)
  let l' : Ledger := l.modifyTracker i fun tr => { tr with kind := .counter label (totals.add b) }
  have hsize : l'.trackers.size = l.trackers.size := trackers_size_modifyTracker ..
  have htied : Tied l l' := {
    contexts_size := Nat.le_refl _
    trackers_size := Nat.le_of_eq hsize.symm
    tracker := fun _ _ => rfl
    above := fun j _ => Table.get_modify_of_eq _ i j Tracker.above fun _ => rfl }
  refine ⟨fun j totals' hj => ?_, fun e he => htied.cites (h.cites e he), fun p hp => ?_⟩
  · show _ = Int64.ofInt (sumAt j (l'.dispatched l.journal) - sumAt j q)
    rw [htied.dispatched h.cites]
    have hj : (l'.tracker j).totals? = some totals' := hj
    rw [tracker_modifyTracker] at hj
    by_cases hij : i = j
    · subst hij
      rw [if_pos ⟨rfl, hi⟩] at hj
      obtain rfl := Option.some.inj hj
      have hold := h.totals i totals (by simp [Tracker.totals?, hk])
      refine consumption_add (hold.trans (congrArg Int64.ofInt ?_))
      simp only [sumAt, if_true]
      omega
    · rw [if_neg fun he => hij he.1] at hj
      have hold := h.totals j totals' hj
      simpa [sumAt, hij] using hold
  · exact lt_of_lt_of_eq (h.way p (List.mem_cons_of_mem _ hp)) hsize.symm

theorem Arrived.hear (h : Arrived (l, (i, b) :: q)) (hn : (l.tracker i).totals? = none) : Arrived (l, q) where
  totals j totals hj := by
    have hij : i ≠ j := by
      rintro rfl
      cases hn.symm.trans hj
    have hold := h.totals j totals hj
    simpa [sumAt, hij] using hold
  cites := h.cites
  way p hp := h.way p (List.mem_cons_of_mem _ hp)

theorem Arrived.takeIn {e : Entry} {c : ContextId} {d : Delta} (h : Arrived (l, q)) (hc : c < l.contexts.size)
    (hr : ∀ i ∈ l.route (l.context c).tracker, i < l.trackers.size) (hi : e.intake? = some (c, d)) :
    Arrived ((l.takeIn e c d).1, l.due c (l.takeIn e c d).2 ++ q) := by
  have hcommitted : ∀ c' b, e ≠ .committed c' b := by
    rintro c' b rfl
    cases hi
  have hconsumed : ∀ i b, e ≠ .consumed i b := by
    rintro i b rfl
    cases hi
  have htake := (h.note hcommitted hconsumed).setCache c ((l.context c).cache.consume d).1
  unfold Ledger.takeIn
  dsimp only
  split
  · exact htake
  · rename_i b _
    let l' : Ledger := (l.post e).modifyContext c fun ctx => { ctx with cache := ((l.context c).cache.consume d).1 }
    have htracker : (l'.context c).tracker = (l.context c).tracker :=
      Table.get_modify_of_eq _ c c Context.tracker fun _ => rfl
    have hcommit := htake.commit (c := c) (lt_of_lt_of_eq hc (contexts_size_modifyContext ..).symm)
      (htracker.symm ▸ hr) b
    rw [htracker] at hcommit
    exact hcommit

theorem Arrived.drain {c : ContextId} (h : Arrived (l, q)) (hc : c < l.contexts.size)
    (hr : ∀ i ∈ l.route (l.context c).tracker, i < l.trackers.size) :
    Arrived (l.drain c, l.sent (l.context c).tracker (l.context c).pending ++ q) := by
  have htake := (h.note (e := .flushed c) (by simp) (by simp)).setCache c (l.context c).cache.take.1
  have htracker : (((l.post (.flushed c)).modifyContext c fun ctx =>
      { ctx with cache := (l.context c).cache.take.1 }).context c).tracker = (l.context c).tracker :=
    Table.get_modify_of_eq _ c c Context.tracker fun _ => rfl
  have hcommit := htake.commit (c := c) (lt_of_lt_of_eq hc (contexts_size_modifyContext ..).symm)
    (htracker.symm ▸ hr) (l.context c).pending
  rw [htracker] at hcommit
  exact hcommit

end

theorem Flow.arrived {m m' : Moment} (ha : Arrived m) (h : Flow m m') : Arrived m' := by
  cases h with
  | unmoved h => exact ha.tied h.toTied h.journal h.totals
  | note h => exact ha.note h.committed h.consumed
  | intake hc hr hi _ => exact ha.takeIn hc hr hi
  | drain hc hr => exact ha.drain hc hr
  | @consume l q i b hr =>
    refine ha.post (e := .consumed i b) (hr _ (List.mem_cons_self ..)) fun p hp => ?_
    obtain ⟨j, hj, rfl⟩ := List.mem_map.mp hp
    exact hr j hj
  | receive hk => exact ha.receive hk
  | hear hn => exact ha.hear hn

theorem Flows.arrived {m m' : Moment} (h : Flows m m') (ha : Arrived m) : Arrived m' := by
  induction h with
  | refl => exact ha
  | tail _ hstep ih => exact hstep.arrived ih

theorem Run.arrived {h : Holdings} {l : Ledger} (hr : Run h l) : Arrived (l, []) := hr.flows.arrived arrived_empty

end HeapLedger
