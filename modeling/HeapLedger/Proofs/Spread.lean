import Mathlib
import HeapLedger.Proofs.ChargeMoves

/-!
# A commit from inside the hook

An amount that is committed inside the hook is added once to every counter above, and every charge that
an echo answers it with is refused. Nothing else changes.
-/

namespace HeapLedger

def Tracker.answers (tr : Tracker) : List Request :=
  match tr.kind with
  | .counter .. => []
  | .echo e => if e.spend?.isSome then e.charges else []

def Tracker.takes (tr : Tracker) (b : Delta) : Tracker :=
  match tr.kind with
  | .counter label totals => { tr with kind := .counter label (totals.add b) }
  | .echo e => { tr with kind := .echo (e.spend?.getD e) }

theorem Tracker.totals?_takes (tr : Tracker) (b : Delta) : (tr.takes b).totals? = tr.totals?.map (·.add b) := by
  unfold takes totals?
  cases tr.kind <;> rfl

def Service.skips (svc : Service) (n : Nat) : Service := { svc with skipped := svc.skipped + n }

theorem Service.skips_skips (svc : Service) (n m : Nat) : (svc.skips n).skips m = svc.skips (n + m) := by
  simp [skips, Nat.add_assoc]

namespace Ledger

/-- How many charges through a service are refused while an amount travels up some trackers. -/
def refusals (l : Ledger) (is : List TrackerId) (s : ServiceId) : Nat :=
  (is.map fun i => (l.tracker i).answers.countP (·.service = s)).sum

def echoes (l : Ledger) (is : List TrackerId) : List String :=
  is.filterMap fun i =>
    match (l.tracker i).kind with
    | .counter .. => none
    | .echo e => some e.name

/-- What some trackers do with an amount inside the hook. -/
structure Spread (l : Ledger) (is : List TrackerId) (b : Delta) (l' : Ledger) : Prop where
  rest : { l' with trackers := l.trackers, services := l.services, journal := l.journal } = l
  tracker : ∀ i, i ∉ is → l'.tracker i = l.tracker i
  taken : ∀ i ∈ is, l'.tracker i = (l.tracker i).takes b
  trackers_size : l'.trackers.size = l.trackers.size
  service : ∀ s, l'.service s = (l.service s).skips (l.refusals is s)
  services_size : l'.services.size = l.services.size
  receipts : receipts l'.journal = (l.echoes is).reverse.map (·, b) ++ receipts l.journal

variable {l l' : Ledger} {t : ThreadId} {b : Delta}

/-! ## Refused charges -/

theorem service_countSkip {s : ServiceId} (hs : s < l.services.size) (j : ServiceId) :
    (l.countSkip s).service j = (l.service j).skips (if s = j then 1 else 0) := by
  rw [countSkip, service_modifyService]
  by_cases hj : s = j
  · simp [hj, hj ▸ hs, Service.skips]
  · simp [hj, Service.skips]

theorem refused_answers (name : String) : ∀ {rs : List Request} {l : Ledger}, l.Serves rs →
    let l' := rs.foldl (answer refuse t name) l
    { l' with services := l.services, journal := l.journal } = l ∧ l'.services.size = l.services.size ∧
      (∀ s, l'.service s = (l.service s).skips (rs.countP (·.service = s))) ∧
      receipts l'.journal = receipts l.journal
  | [], _, _ => ⟨rfl, rfl, fun _ => rfl, rfl⟩
  | r :: rs, l, h => by
    have hr := h r (List.mem_cons_self ..)
    have hsize : (answer refuse t name l r).services.size = l.services.size :=
      services_size_modifyService l r.service _
    have hserves : (answer refuse t name l r).Serves rs :=
      fun r' hr' => lt_of_lt_of_eq (h r' (List.mem_cons_of_mem _ hr')) hsize.symm
    obtain ⟨h1, h2, h3, h4⟩ := refused_answers name hserves
    rw [List.foldl_cons]
    refine ⟨?_, h2.trans hsize, fun s => ?_, h4⟩
    · exact congrArg (fun l' : Ledger => { l' with services := l.services, journal := l.journal }) h1
    · have hskip : (answer refuse t name l r).service s = _ := service_countSkip hr s
      rw [h3, hskip, Service.skips_skips, List.countP_cons]
      simp [Nat.add_comm]

/-! ## Up the trackers -/

theorem Spread.totals {is : List TrackerId} (h : Spread l is b l') {i : TrackerId} (hi : i ∈ is) :
    (l'.tracker i).totals? = (l.tracker i).totals?.map (·.add b) := by
  rw [h.taken i hi, Tracker.totals?_takes]

theorem Spread.append {is js : List TrackerId} {l'' : Ledger} (h : Spread l is b l') (h' : Spread l' js b l'')
    (hd : ∀ i ∈ js, i ∉ is) : Spread l (is ++ js) b l'' where
  rest := (congrArg (fun l₁ : Ledger =>
    { l₁ with trackers := l.trackers, services := l.services, journal := l.journal }) h'.rest).trans h.rest
  tracker i hi := by
    rw [List.mem_append, not_or] at hi
    exact (h'.tracker i hi.2).trans (h.tracker i hi.1)
  taken i hi := by
    by_cases hj : i ∈ js
    · rw [h'.taken i hj, h.tracker i (hd i hj)]
    · rw [h'.tracker i hj]
      exact h.taken i ((List.mem_append.mp hi).resolve_right hj)
  trackers_size := h'.trackers_size.trans h.trackers_size
  service s := by
    have hsame : l'.refusals js s = l.refusals js s := by
      unfold refusals
      congr 1
      refine List.map_congr_left fun i hi => ?_
      rw [h.tracker i (hd i hi)]
    rw [h'.service, h.service, hsame, Service.skips_skips]
    simp [refusals]
  services_size := h'.services_size.trans h.services_size
  receipts := by
    have hsame : l'.echoes js = l.echoes js := by
      refine List.filterMap_congr fun i hi => ?_
      rw [h.tracker i (hd i hi)]
    rw [h'.receipts, h.receipts, hsame]
    simp [echoes]

theorem spread_nil (l : Ledger) (b : Delta) : Spread l [] b l where
  rest := rfl
  tracker _ _ := rfl
  taken _ hi := by cases hi
  trackers_size := rfl
  service _ := rfl
  services_size := rfl
  receipts := rfl

section
variable {i : TrackerId}

theorem spread_counter (hi : i < l.trackers.size) {label : String} {totals : Totals}
    (hk : (l.tracker i).kind = .counter label totals) :
    Spread l [i] b (l.modifyTracker i fun tr => { tr with kind := .counter label (totals.add b) }) where
  rest := rfl
  tracker j hj := Table.get_modify_ne _ _ fun he => hj (List.mem_singleton.mpr he.symm)
  taken j hj := by
    obtain rfl := List.mem_singleton.mp hj
    rw [tracker_modifyTracker, if_pos ⟨rfl, hi⟩]
    simp [Tracker.takes, hk]
  trackers_size := trackers_size_modifyTracker ..
  service s := by simp [refusals, Tracker.answers, hk, Service.skips]; rfl
  services_size := rfl
  receipts := by simp [echoes, hk]; rfl

theorem spread_mute {e : Echo} (hk : (l.tracker i).kind = .echo e) (hs : e.spend? = none) :
    Spread l [i] b (l.event (.received e.name b (l.inHook t))) where
  rest := rfl
  tracker _ _ := rfl
  taken j hj := by
    obtain rfl := List.mem_singleton.mp hj
    show l.tracker j = _
    simp only [Tracker.takes, hk, hs, Option.getD_none]
    rw [← hk]
  trackers_size := rfl
  service s := by simp [refusals, Tracker.answers, hk, hs, Service.skips]; rfl
  services_size := rfl
  receipts := by simp [echoes, hk]; rfl

theorem spread_echo (hi : i < l.trackers.size) {e e' : Echo} (hk : (l.tracker i).kind = .echo e)
    (hspend : e.spend? = some e') (hs : l.Serves e.charges) :
    Spread l [i] b (e.charges.foldl (answer refuse t e.name)
      ((l.event (.received e.name b (l.inHook t))).modifyTracker i fun tr => { tr with kind := .echo e' })) := by
  let spent : Ledger := (l.event (.received e.name b (l.inHook t))).modifyTracker i fun tr =>
    { tr with kind := .echo e' }
  have hanswers : (l.tracker i).answers = e.charges := by simp [Tracker.answers, hk, hspend]
  -- the charges that answer are refused, so the trackers are those of the echo that has answered
  obtain ⟨hrest, hsize, hservice, hreceipts⟩ := refused_answers (t := t) (l := spent) e.name hs
  have htrackers : (e.charges.foldl (answer refuse t e.name) spent).trackers = spent.trackers :=
    (congrArg Ledger.trackers hrest :)
  have hread : ∀ j, (e.charges.foldl (answer refuse t e.name) spent).tracker j = spent.tracker j := by
    intro j
    rw [Ledger.tracker, htrackers]
    rfl
  exact {
    rest := congrArg (fun l' : Ledger =>
      { l' with trackers := l.trackers, services := l.services, journal := l.journal }) hrest
    tracker := fun j hj => by
      rw [hread]
      exact Table.get_modify_ne _ _ fun he => hj (List.mem_singleton.mpr he.symm)
    taken := fun j hj => by
      obtain rfl := List.mem_singleton.mp hj
      rw [hread, show spent.tracker j = _ from Table.get_modify_self _ hi]
      simp only [Tracker.takes, hk, hspend, Option.getD_some]
      rfl
    trackers_size := by
      rw [htrackers]
      exact trackers_size_modifyTracker ..
    service := fun s => by
      rw [hservice s]
      simp [refusals, hanswers]
      rfl
    services_size := hsize
    receipts := by
      rw [hreceipts]
      simp [echoes, hk]
      rfl }

theorem spread_deliver (hi : i < l.trackers.size) (hs : l.Serves (l.tracker i).answers) :
    Spread l [i] b (deliver refuse t b l i) := by
  unfold deliver
  cases hk : (l.tracker i).kind with
  | counter label totals => exact spread_counter hi hk
  | echo e =>
    dsimp only
    cases hspend : e.spend? with
    | none => exact spread_mute hk hspend
    | some e' =>
      have hanswers : (l.tracker i).answers = e.charges := by simp [Tracker.answers, hk, hspend]
      exact spread_echo hi hk hspend (hanswers ▸ hs)

end

theorem spread_delivers : ∀ {is : List TrackerId} {l : Ledger}, is.Nodup →
    (∀ i ∈ is, i < l.trackers.size ∧ l.Serves (l.tracker i).answers) →
    Spread l is b (is.foldl (deliver refuse t b) l)
  | [], l, _, _ => spread_nil l b
  | i :: is, l, hn, h => by
    obtain ⟨hi, hs⟩ := h i (List.mem_cons_self ..)
    obtain ⟨hni, hn⟩ := List.nodup_cons.mp hn
    have hfirst := spread_deliver (t := t) (b := b) hi hs
    refine hfirst.append (spread_delivers hn fun j hj => ?_) fun j hj he => ?_
    · obtain ⟨hlt, hserves⟩ := h j (List.mem_cons_of_mem _ hj)
      have hne : j ∉ [i] := fun he => hni (List.mem_singleton.mp he ▸ hj)
      rw [hfirst.tracker j hne]
      exact ⟨lt_of_lt_of_eq hlt hfirst.trackers_size.symm, fun r hr =>
        lt_of_lt_of_eq (hserves r hr) hfirst.services_size.symm⟩
    · exact hni (List.mem_singleton.mp he ▸ hj)

/-! ## A whole route -/

theorem serves_answers (h : Sound l) (i : TrackerId) : l.Serves (l.tracker i).answers := by
  unfold Tracker.answers
  cases hk : (l.tracker i).kind with
  | counter => exact fun _ hr => by cases hr
  | echo e =>
    dsimp only
    split
    · exact h.echo_requests i e hk
    · exact fun _ hr => by cases hr

end Ledger

end HeapLedger
