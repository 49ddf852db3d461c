import HeapLedger.Proofs.Conservation
import HeapLedger.Proofs.Interleaving
import HeapLedger.Proofs.Promise

/-!
# Trees of counters

An amount that is handed to a counter comes to that one and to those above it, once to each, and to no other. So a
counter shows all that was handed to it or to one below it, in the order in which it was handed out, and the greatest
consumption that it has ever shown.
-/

namespace HeapLedger

open Ledger

theorem Delta.toInt_max (a b : Delta) : (max a b).toInt = max a.toInt b.toInt := by
  show (if a ≤ b then b else a).toInt = _
  split
  · rename_i h
    exact (max_eq_right (Int64.le_iff_toInt_le.mp h)).symm
  · rename_i h
    refine (max_eq_left ?_).symm
    exact Int.le_of_not_le fun hle => h (Int64.le_iff_toInt_le.mpr hle)

structure Handing where
  thread : ThreadId
  tracker : TrackerId
  amount : Delta

namespace Ledger

def consumeAll (l : Ledger) (calls : List Handing) : Ledger :=
  calls.foldl (fun l call => (l.perform call.thread (.consume call.tracker call.amount)).1) l

/-- The amounts among these that come to a tracker. -/
noncomputable def arriving (l : Ledger) (i : TrackerId) (calls : List Handing) : List Delta :=
  open Classical in (calls.filter fun call => l.Feeds call.tracker i).map Handing.amount

/-- An amount has come to some counters, and nothing else has happened to trackers. -/
structure Reached (l : Ledger) (is : List TrackerId) (b : Delta) (l' : Ledger) : Prop where
  counts : l'.Counts
  trackers_size : l'.trackers.size = l.trackers.size
  above : ∀ i, (l'.tracker i).above = (l.tracker i).above
  totals : ∀ i, l'.totals i = if i ∈ is then (l.totals i).add b else l.totals i
  tracker : ∀ i, i ∉ is → l'.tracker i = l.tracker i

variable {l : Ledger} {t : ThreadId} {b : Delta}

theorem reached_deliver (hc : l.Counts) (respond : Responder) {i : TrackerId} (hi : i < l.trackers.size) :
    Reached l [i] b (deliver respond t b l i) := by
  obtain ⟨label, totals, hk, he⟩ := deliver_of_counts (t := t) hc respond b i
  have hread : ∀ j, (deliver respond t b l i).tracker j =
      if i = j then { l.tracker j with kind := .counter label (totals.add b) } else l.tracker j := by
    intro j
    rw [he, tracker_modifyTracker]
    simp [hi]
  refine ⟨fun j => ?_, he ▸ trackers_size_modifyTracker .., fun j => ?_, fun j => ?_, fun j hj => ?_⟩
  · rw [hread]
    split
    · exact ⟨label, _, rfl⟩
    · exact hc j
  · rw [hread]
    split <;> rfl
  · rw [totals_deliver hc]
    simp [hi, eq_comm]
  · rw [hread, if_neg fun hij => hj (List.mem_singleton.mpr hij.symm)]

theorem reached_delivers (respond : Responder) {is : List TrackerId} (hc : l.Counts) (hn : is.Nodup)
    (hlt : ∀ i ∈ is, i < l.trackers.size) : Reached l is b (is.foldl (deliver respond t b) l) := by
  induction is generalizing l with
  | nil => exact ⟨hc, rfl, fun _ => rfl, fun _ => by simp, fun _ _ => rfl⟩
  | cons i is ih =>
    obtain ⟨hi, hn⟩ := List.nodup_cons.mp hn
    obtain ⟨hlti, hlt⟩ := List.forall_mem_cons.mp hlt
    have hone : Reached l [i] b (deliver respond t b l i) := reached_deliver hc respond hlti
    have hrest := ih hone.counts hn fun j hj => hone.trackers_size.symm ▸ hlt j hj
    refine ⟨hrest.counts, hrest.trackers_size.trans hone.trackers_size, fun j => ?_, fun j => ?_, fun j hj => ?_⟩
    · exact (hrest.above j).trans (hone.above j)
    · show (is.foldl (deliver respond t b) (deliver respond t b l i)).totals j = _
      rw [hrest.totals, hone.totals]
      by_cases hij : j = i
      · simp [hij, hi]
      · simp [hij]
    · rw [List.mem_cons, not_or] at hj
      exact (hrest.tracker j hj.2).trans (hone.tracker j (by simpa using hj.1))

/-! ## One amount after another -/

/-- The counters are the same, whatever they show by now. -/
structure Tended (l l' : Ledger) : Prop where
  counts : l'.Counts
  trackers_size : l'.trackers.size = l.trackers.size
  above : ∀ i, (l'.tracker i).above = (l.tracker i).above

variable {l' : Ledger} {calls : List Handing} {call : Handing}

/-- An amount that is handed to a counter comes to every counter on its way, and to no other. -/
theorem Tended.consume (h : Tended l l') (hs : Sound l) {i : TrackerId} (hi : i < l.trackers.size) :
    Reached l' (l.route i) b (l'.perform t (.consume i b)).1 := by
  have hroute : (l'.post (.consumed i b)).route i = l.route i := congrArg (i :: ·) (h.above i)
  have hlt : ∀ j ∈ l.route i, j < (l'.post (.consumed i b)).trackers.size := fun j hj =>
    Nat.lt_of_lt_of_eq (route_lt hs hi j hj) h.trackers_size.symm
  show Reached l' (l.route i) b
    (((l'.post (.consumed i b)).route i).foldl (deliver charge t b) (l'.post (.consumed i b)))
  rw [hroute]
  exact { reached_delivers (l := l'.post (.consumed i b)) charge h.counts (route_nodup hs hi) hlt with }

theorem Tended.reached (h : Tended l l') {is : List TrackerId} {l'' : Ledger} (hr : Reached l' is b l'') :
    Tended l l'' where
  counts := hr.counts
  trackers_size := hr.trackers_size.trans h.trackers_size
  above i := (hr.above i).trans (h.above i)

theorem consumeAll_concat (calls : List Handing) (call : Handing) : l.consumeAll (calls ++ [call]) =
    ((l.consumeAll calls).perform call.thread (.consume call.tracker call.amount)).1 := by
  simp [consumeAll]

theorem arriving_concat (hs : Sound l) (hc : call.tracker < l.trackers.size) (i : TrackerId) (calls : List Handing) :
    l.arriving i (calls ++ [call]) = l.arriving i calls ++ if i ∈ l.route call.tracker then [call.amount] else [] := by
  have hroute := mem_route_iff hs hc i
  by_cases h : i ∈ l.route call.tracker
  · simp [arriving, h, hroute.mp h]
  · have hf : ¬ l.Feeds call.tracker i := fun hf => h (hroute.mpr hf)
    simp [arriving, h, hf]

theorem tended_consumeAll (hs : Sound l) (hc : l.Counts) (hcalls : ∀ call ∈ calls, call.tracker < l.trackers.size) :
    Tended l (l.consumeAll calls) := by
  induction calls using List.reverseRecOn with
  | nil => exact ⟨hc, rfl, fun _ => rfl⟩
  | append_singleton calls call ih =>
    rw [List.forall_mem_append, List.forall_mem_singleton] at hcalls
    rw [consumeAll_concat]
    have htended := ih hcalls.1
    exact htended.reached (htended.consume hs hcalls.2)

theorem totals_concat (hs : Sound l) (hc : l.Counts)
    (hcalls : ∀ call' ∈ calls ++ [call], call'.tracker < l.trackers.size) (i : TrackerId) :
    (l.consumeAll (calls ++ [call])).totals i =
      if i ∈ l.route call.tracker then ((l.consumeAll calls).totals i).add call.amount
      else (l.consumeAll calls).totals i := by
  rw [List.forall_mem_append, List.forall_mem_singleton] at hcalls
  rw [consumeAll_concat]
  exact ((tended_consumeAll hs hc hcalls.1).consume hs hcalls.2).totals i

section
variable (hs : Sound l) (hc : l.Counts) (hcalls : ∀ call ∈ calls, call.tracker < l.trackers.size) {i : TrackerId}
  (hi : l.totals i = {})

include hs hc hcalls hi

theorem consumption_consumeAll :
    ((l.consumeAll calls).totals i).consumption = Int64.ofInt (total (l.arriving i calls)) := by
  induction calls using List.reverseRecOn with
  | nil =>
    rw [consumeAll, List.foldl_nil, hi]
    simp [arriving, total]
  | append_singleton calls call ih =>
    have hboth := List.forall_mem_append.mp hcalls
    rw [totals_concat hs hc hcalls, arriving_concat hs (hboth.2 call (List.mem_singleton_self call))]
    split
    · apply consumption_add
      rw [ih hboth.1]
      simp [total]
    · rw [ih hboth.1, List.append_nil]

theorem commits_consumeAll : ((l.consumeAll calls).totals i).commits = (l.arriving i calls).length := by
  induction calls using List.reverseRecOn with
  | nil =>
    rw [consumeAll, List.foldl_nil, hi]
    simp [arriving]
  | append_singleton calls call ih =>
    have hboth := List.forall_mem_append.mp hcalls
    rw [totals_concat hs hc hcalls, arriving_concat hs (hboth.2 call (List.mem_singleton_self call))]
    split
    · simp [Totals.add, ih hboth.1]
    · simp [ih hboth.1]

/-- The peak is the greatest consumption so far, or zero. -/
theorem peak_consumeAll : IsGreatest
    (insert 0 {n | ∃ before, before <+: calls ∧ n = ((l.consumeAll before).totals i).consumption.toInt})
    ((l.consumeAll calls).totals i).peak.toInt := by
  induction calls using List.reverseRecOn with
  | nil =>
    rw [consumeAll, List.foldl_nil, hi]
    refine ⟨.inl rfl, ?_⟩
    rintro n (rfl | ⟨before, hb, rfl⟩)
    · rfl
    · rw [List.prefix_nil.mp hb, consumeAll, List.foldl_nil, hi]
  | append_singleton calls call ih =>
    have hboth := List.forall_mem_append.mp hcalls
    have hbefore := ih hboth.1
    have hstep := totals_concat hs hc hcalls i
    have hset : insert 0 {n | ∃ before, before <+: calls ++ [call] ∧ n = ((l.consumeAll before).totals i).consumption.toInt} =
        insert ((l.consumeAll (calls ++ [call])).totals i).consumption.toInt
          (insert 0 {n | ∃ before, before <+: calls ∧ n = ((l.consumeAll before).totals i).consumption.toInt}) := by
      ext n
      simp only [List.prefix_concat_iff, Set.mem_insert_iff, Set.mem_ofPred_eq, or_and_right, exists_or, exists_eq_left]
      tauto
    rw [hset]
    by_cases hr : i ∈ l.route call.tracker
    · rw [if_pos hr] at hstep
      have hpeak : ((l.consumeAll (calls ++ [call])).totals i).peak.toInt =
          max ((l.consumeAll (calls ++ [call])).totals i).consumption.toInt ((l.consumeAll calls).totals i).peak.toInt := by
        rw [hstep, max_comm]
        exact Delta.toInt_max ..
      rw [hpeak]
      exact hbefore.insert _
    · rw [if_neg hr] at hstep
      have hmem : ((l.consumeAll (calls ++ [call])).totals i).consumption.toInt ∈
          insert 0 {n | ∃ before, before <+: calls ∧ n = ((l.consumeAll before).totals i).consumption.toInt} :=
        .inr ⟨calls, List.prefix_rfl, by rw [hstep]⟩
      rw [Set.insert_eq_of_mem hmem, hstep]
      exact hbefore

end

end Ledger

/-- Wherever a run has led with counters that nothing has come to yet, and whatever amounts are handed to any of them,
in any order. What a counter shows is the sum, as a word, of the amounts that were handed to it or to one below it, and
how many these were. Its peak is the greatest consumption that it has ever shown, or zero. And an amount changes no
counter but the one that it is handed to and those above. -/
theorem tree_totals {h : Holdings} {l : Ledger} (hr : Run h l)
    (hnew : ∀ i < l.trackers.size, ∃ label, (l.tracker i).kind = .counter label {}) {calls : List Handing}
    (hcalls : ∀ call ∈ calls, call.tracker < l.trackers.size) (i : TrackerId) :
    let l' := l.consumeAll calls
    ∃ totals, (l'.tracker i).totals? = some totals ∧
      totals.consumption = Int64.ofInt (total (l.arriving i calls)) ∧
      totals.commits = (l.arriving i calls).length ∧
      IsGreatest (insert 0 {n | ∃ before, before <+: calls ∧ n = ((l.consumeAll before).totals i).consumption.toInt})
        totals.peak.toInt ∧
      totals.consumption.toInt ≤ totals.peak.toInt ∧
      (∀ before, before <+: calls → ((l.consumeAll before).totals i).peak.toInt ≤ totals.peak.toInt) ∧
      ∀ t j b, j < l.trackers.size → ¬ l.Feeds j i → (l'.perform t (.consume j b)).1.tracker i = l'.tracker i := by
  have hs : Sound l := hr.reach.1
  have hkind : ∀ i, ∃ label, (l.tracker i).kind = .counter label {} := by
    intro i
    rcases Nat.lt_or_ge i l.trackers.size with hi | hi
    · exact hnew i hi
    · exact ⟨"", by rw [tracker, Table.get_of_size_le hi]; rfl⟩
  have hc : l.Counts := fun i => (hkind i).imp fun label hk => ⟨{}, hk⟩
  have hi : l.totals i = {} := by
    obtain ⟨label, hk⟩ := hkind i
    simp [Ledger.totals, Tracker.totals?, hk]
  have htended : Tended l (l.consumeAll calls) := tended_consumeAll hs hc hcalls
  have hpeak := peak_consumeAll hs hc hcalls hi
  refine ⟨_, htended.counts.totals?_eq i, consumption_consumeAll hs hc hcalls hi,
    commits_consumeAll hs hc hcalls hi, hpeak, hpeak.2 (.inr ⟨calls, List.prefix_rfl, rfl⟩), fun before hb => ?_, fun t j b hj hf => ?_⟩
  · have hearlier := peak_consumeAll hs hc (fun call hcall => hcalls call (hb.subset hcall)) hi
    apply hpeak.2
    rcases hearlier.1 with h0 | ⟨older, ho, hn⟩
    · exact .inl h0
    · exact .inr ⟨older, ho.trans hb, hn⟩
  · exact (htended.consume hs hj).tracker i fun hr => hf ((mem_route_iff hs hj i).mp hr)

/-- Every forest of counters can be grown, given the parent of each of them in the order in which they are made. -/
theorem forest_grows (parents : List (Option TrackerId)) (hp : ∀ i p : TrackerId, parents[i]? = some (some p) → p < i) :
    ∃ l, Run {} l ∧ 0 < l.threads.size ∧ l.trackers.size = parents.length ∧
      (∀ i < l.trackers.size, ∃ label, (l.tracker i).kind = .counter label {}) ∧
      ∀ (i : TrackerId) parent, parents[i]? = some parent → (l.tracker i).parent? = parent := by
  induction parents using List.reverseRecOn with
  | nil =>
    refine ⟨(newThread {}).1, .start .nil, by decide, rfl, ?_, ?_⟩
    · intro i hi
      exact absurd hi (Nat.not_lt_zero i)
    · intro i parent h
      simp at h
  | append_singleton parents parent ih =>
    have hold : ∀ i p : TrackerId, parents[i]? = some (some p) → p < i := by
      intro i p h
      apply hp i p
      rwa [List.getElem?_append_left (List.getElem?_eq_some_iff.mp h).1]
    obtain ⟨l, hr, ht, hsize, hkind, hparent⟩ := ih hold
    have hlast : (parents ++ [parent])[l.trackers.size]? = some parent := by simp [hsize]
    have hadmits : ∀ p ∈ parent, p < l.trackers.size := fun p hpar => hp _ p (hlast.trans (congrArg some hpar))
    have hread : ∀ i, (l.perform 0 (.newCounter "" parent)).1.tracker i = if i = l.trackers.size then
        { kind := .counter "" {}, above := (parent.map l.route).getD [] } else l.tracker i := fun i => Table.get_add ..
    have hgrown : (l.perform 0 (.newCounter "" parent)).1.trackers.size = l.trackers.size + 1 := Table.size_add ..
    refine ⟨_, hr.act (a := .newCounter "" parent) ht (by simp) hadmits, ht, ?_, fun i hi => ?_, fun i p hi => ?_⟩
    · rw [hgrown, hsize]
      simp
    · rw [hread]
      split
      · exact ⟨"", rfl⟩
      · rename_i hne
        exact hkind i (Nat.lt_of_le_of_ne (Nat.le_of_lt_succ (Nat.lt_of_lt_of_eq hi hgrown)) hne)
    · rw [hread]
      split
      · rename_i h
        rw [h, hlast] at hi
        cases parent <;> cases hi <;> rfl
      · rename_i hne
        have hlt : i < (parents ++ [parent]).length := (List.getElem?_eq_some_iff.mp hi).1
        rw [List.length_append, List.length_singleton, ← hsize] at hlt
        rw [List.getElem?_append_left (hsize ▸ Nat.lt_of_le_of_ne (Nat.le_of_lt_succ hlt) hne)] at hi
        exact hparent i p hi

def grove : Ledger :=
  let l := (perform (newThread {}).1 0 (.newCounter "root" none)).1
  let l := (l.perform 0 (.newCounter "left" (some 0))).1
  let l := (l.perform 0 (.newCounter "right" (some 0))).1
  (l.perform 0 (.newCounter "leaf" (some 1))).1

theorem run_grove : Run {} grove := by
  have hparent : ∀ {i n : TrackerId}, i < n → ∀ j ∈ some i, j < n := fun hi j hj => Option.mem_some_iff.mp hj ▸ hi
  have hstart : Run {} (newThread {}).1 := .start .nil
  have hroot := hstart.act (t := 0) (a := .newCounter "root" none) (by decide) (by decide) nofun
  have hleft := hroot.act (t := 0) (a := .newCounter "left" (some 0)) (by decide) (by decide) (hparent (by decide))
  have hright := hleft.act (t := 0) (a := .newCounter "right" (some 0)) (by decide) (by decide) (hparent (by decide))
  exact hright.act (t := 0) (a := .newCounter "leaf" (some 1)) (by decide) (by decide) (hparent (by decide))

/-- The left one does not show what was handed to the right one, and keeps its peak when an amount is taken back. -/
theorem tree_totals_grove :
    let calls : List Handing := [⟨0, 3, 7⟩, ⟨0, 2, 100⟩, ⟨0, 1, 0⟩, ⟨0, 3, -4⟩]
    ((grove.consumeAll calls).tracker 1).totals? = some ⟨3, 7, 3⟩ ∧ Int64.ofInt (total (grove.arriving 1 calls)) = 3 ∧
      (grove.arriving 1 calls).length = 3 := by
  intro calls
  have htotals : ((grove.consumeAll calls).tracker 1).totals? = some ⟨3, 7, 3⟩ := by decide
  have hnew : ∀ i < grove.trackers.size, ∃ label, (grove.tracker i).kind = .counter label {} := by
    have hsize : grove.trackers.size = 4 := by decide
    intro i hi
    rw [hsize] at hi
    interval_cases i
    · exact ⟨"root", rfl⟩
    · exact ⟨"left", rfl⟩
    · exact ⟨"right", rfl⟩
    · exact ⟨"leaf", rfl⟩
  have hcalls : ∀ call ∈ calls, call.tracker < grove.trackers.size := by decide
  obtain ⟨totals, hshown, hconsumption, hcommits, -⟩ := tree_totals run_grove hnew hcalls 1
  obtain rfl : ⟨3, 7, 3⟩ = totals := Option.some.inj (htotals.symm.trans hshown)
  exact ⟨htotals, hconsumption.symm, hcommits.symm⟩

end HeapLedger
