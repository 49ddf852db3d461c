import HeapLedger.Proofs.Reach

/-!
# How bytes flow

As far as bytes go, every move is one of a few flows: a context takes an amount in or hands on what is
pending, an amount is handed to a tracker directly, or an amount arrives at one. Whatever else is done
moves no bytes and keeps the links between contexts and trackers.
-/

namespace HeapLedger

open Ledger

structure Entry.Silent (e : Entry) : Prop where
  intake : e.intake? = none
  committed : ∀ c b, e ≠ .committed c b
  consumed : ∀ i b, e ≠ .consumed i b
  flushed : ∀ c, e ≠ .flushed c

structure Tied (l l' : Ledger) : Prop where
  contexts_size : l.contexts.size ≤ l'.contexts.size
  trackers_size : l.trackers.size ≤ l'.trackers.size
  tracker : ∀ c < l.contexts.size, (l'.context c).tracker = (l.context c).tracker
  above : ∀ i < l.trackers.size, (l'.tracker i).above = (l.tracker i).above

/-- A change that moves no bytes and keeps all links. -/
structure Unmoved (l l' : Ledger) : Prop extends Tied l l' where
  pending : ∀ c, (l'.context c).pending = (l.context c).pending
  threshold : ∀ c < l.contexts.size, (l'.context c).cache.threshold = (l.context c).cache.threshold
  totals : ∀ i totals, (l'.tracker i).totals? = some totals → (l.tracker i).totals? = some totals
  journal : l'.journal = l.journal

inductive Flow : Moment → Moment → Prop
  | unmoved {l l' q} (h : Unmoved l l') : Flow (l, q) (l', q)
  | note {l q e} (h : e.Silent) : Flow (l, q) (l.post e, q)
  | intake {l q e c d} (hc : c < l.contexts.size) (hr : ∀ i ∈ l.route (l.context c).tracker, i < l.trackers.size)
      (hi : e.intake? = some (c, d))
      (hd : ∀ t, e.carrier? = some t →
        (∃ s, e = .carried t s c d ∧ d = held t s l.journal) ∧ ∀ e' ∈ l.journal, e'.carrier? ≠ some t) :
      Flow (l, q) ((l.takeIn e c d).1, l.due c (l.takeIn e c d).2 ++ q)
  | drain {l q c} (hc : c < l.contexts.size) (hr : ∀ i ∈ l.route (l.context c).tracker, i < l.trackers.size) :
      Flow (l, q) (l.drain c, l.sent (l.context c).tracker (l.context c).pending ++ q)
  | consume {l q i} (b : Delta) (hr : ∀ j ∈ l.route i, j < l.trackers.size) :
      Flow (l, q) (l.post (.consumed i b), l.sent i b ++ q)
  | receive {l q i b label totals} (h : (l.tracker i).kind = .counter label totals) :
      Flow (l, (i, b) :: q)
        (l.modifyTracker i fun tr => { tr with kind := .counter label (totals.add b) }, q)
  | hear {l q i b} (h : (l.tracker i).totals? = none) : Flow (l, (i, b) :: q) (l, q)

abbrev Flows : Moment → Moment → Prop := Relation.ReflTransGen Flow

/-! ## Changes that move nothing -/

namespace Ledger

theorem unmoved_of_eq {l l' : Ledger} (hc : l'.contexts = l.contexts) (ht : l'.trackers = l.trackers)
    (hj : l'.journal = l.journal) : Unmoved l l' where
  contexts_size := Nat.le_of_eq (congrArg Table.size hc.symm)
  trackers_size := Nat.le_of_eq (congrArg Table.size ht.symm)
  pending c := by rw [context, hc]; rfl
  threshold c _ := by rw [context, hc]; rfl
  tracker c _ := by rw [context, hc]; rfl
  above i _ := by rw [tracker, ht]; rfl
  totals i totals h := by rw [tracker, ht] at h; exact h
  journal := hj

theorem Unmoved.refl (l : Ledger) : Unmoved l l := unmoved_of_eq rfl rfl rfl

section
variable (l : Ledger)

theorem unmoved_modifyTracker {i : TrackerId} {f : Tracker → Tracker} (ha : ∀ tr, (f tr).above = tr.above)
    (ht : ∀ totals, (f (l.tracker i)).totals? = some totals → (l.tracker i).totals? = some totals) :
    Unmoved l (l.modifyTracker i f) :=
  { Unmoved.refl l with
    trackers_size := Nat.le_of_eq (trackers_size_modifyTracker ..).symm
    above := fun j _ => Table.get_modify_of_eq _ i j Tracker.above ha
    totals := fun j totals h => by
      rw [tracker_modifyTracker] at h
      split at h
      · rename_i hj
        obtain ⟨rfl, -⟩ := hj
        exact ht totals h
      · exact h }

theorem unmoved_modifyContext {c : ContextId} {f : Context → Context}
    (hf : ∀ ctx, (f ctx).cache = ctx.cache ∧ (f ctx).tracker = ctx.tracker) :
    Unmoved l (l.modifyContext c f) :=
  { Unmoved.refl l with
    contexts_size := Nat.le_of_eq (contexts_size_modifyContext ..).symm
    pending := fun j => Table.get_modify_of_eq _ c j Context.pending fun ctx => congrArg Cache.pending (hf ctx).1
    threshold := fun j _ => Table.get_modify_of_eq _ c j (fun ctx => ctx.cache.threshold) fun ctx =>
      congrArg Cache.threshold (hf ctx).1
    tracker := fun j _ => Table.get_modify_of_eq _ c j Context.tracker fun ctx => (hf ctx).2 }

theorem unmoved_addContext (ctx : Context) (hz : ctx.pending = 0) :
    Unmoved l { l with contexts := l.contexts.add ctx } :=
  { Unmoved.refl l with
    contexts_size := Nat.le_trans (Nat.le_succ _) (Nat.le_of_eq (Table.size_add ..).symm)
    pending := fun c => by
      show ((l.contexts.add ctx).get c).pending = (l.contexts.get c).pending
      rw [Table.get_add]
      split
      · rename_i hc
        rw [hz, Table.get_of_size_le (Nat.le_of_eq hc.symm)]
        rfl
      · rfl
    threshold := fun c hc => by
      show ((l.contexts.add ctx).get c).cache.threshold = (l.contexts.get c).cache.threshold
      rw [Table.get_add, if_neg (Nat.ne_of_lt hc)]
    tracker := fun c hc => by
      show ((l.contexts.add ctx).get c).tracker = (l.contexts.get c).tracker
      rw [Table.get_add, if_neg (Nat.ne_of_lt hc)] }

theorem unmoved_newTracker {kind : TrackerKind} {parent : Option TrackerId}
    (hz : ∀ label totals, kind = .counter label totals → totals = {}) :
    Unmoved l (l.newTracker kind parent).1 :=
  { Unmoved.refl l with
    trackers_size := Nat.le_trans (Nat.le_succ _) (Nat.le_of_eq (Table.size_add ..).symm)
    above := fun i hi => by
      show ((l.trackers.add _).get i).above = (l.trackers.get i).above
      rw [Table.get_add, if_neg (Nat.ne_of_lt hi)]
    totals := fun i totals h => by
      have h : ((l.trackers.add _).get i).totals? = some totals := h
      rw [Table.get_add] at h
      split at h
      · rename_i hi
        rw [tracker, Table.get_of_size_le (Nat.le_of_eq hi.symm)]
        unfold Tracker.totals? at h
        split at h
        · rename_i hk
          obtain rfl := Option.some.inj h
          rw [hz _ _ hk]
          rfl
        · cases h
      · exact h }

end

/-! ## Moves are flows -/

variable {l : Ledger} {t : ThreadId} {q : List (TrackerId × Delta)}

theorem seek_flows {s : ServiceId} {k : TaskKey} : Flows (l, q) ((l.seek t s k).1, q) := by
  obtain ⟨f, g, -, -, heq⟩ := l.seek_eq t s k
  have hunmoved : Unmoved l ((l.modifyService s f).modifyThread t g) := unmoved_of_eq rfl rfl rfl
  exact .single (heq ▸ .unmoved hunmoved)

theorem park_flows {s : ServiceId} {d : Delta} : Flows (l, q) ((l.park t s d).1, q) := by
  have hnote : ∀ {l : Ledger} {charge}, charge = .parked ∨ (∃ reason, charge = .skipped reason) →
      Flow (l, q) ((l.conclude t s d none charge).1, q) := by
    rintro l charge (rfl | ⟨reason, rfl⟩) <;> exact .note ⟨rfl, by simp, by simp, by simp⟩
  have hcarry : ∀ c, Flow (l, q) (l.modifyThread t fun th => { th with carry := some c }, q) :=
    fun c => .unmoved (unmoved_of_eq rfl rfl rfl)
  unfold park
  cases (l.thread t).carry with
  | none => exact (Relation.ReflTransGen.single (hcarry _)).tail (hnote (.inl rfl))
  | some c =>
    dsimp only
    split
    · exact (Relation.ReflTransGen.single (hcarry _)).tail (hnote (.inl rfl))
    · exact .single (hnote (.inr ⟨_, rfl⟩))

theorem route_lt_of_context (hs : Sound l) {c : ContextId} (hc : c < l.contexts.size) :
    ∀ i ∈ l.route (l.context c).tracker, i < l.trackers.size :=
  fun i hi => route_lt hs (hs.context_tracker c hc) i hi

theorem intake_flow (hs : Sound l) {e : Entry} {c : ContextId} {d : Delta} (h : l.Intake t e c d) :
    Flow (l, q) ((l.takeIn e c d).1, l.due c (l.takeIn e c d).2 ++ q) := by
  have hlt := lt_of_intake hs h
  cases h with
  | task | thread | direct => exact .intake hlt (route_lt_of_context hs hlt) rfl fun t ht => by cases ht
  | carried hh hd hn =>
    refine .intake hlt (route_lt_of_context hs hlt) rfl fun j hj => ?_
    obtain rfl := Option.some.inj hj
    exact ⟨⟨_, rfl, hd⟩, hn⟩

end Ledger

variable {t : ThreadId} {m m' : Moment}

theorem Charging.flows (hs : Sound m.1) (h : Charging t m m') : Flows m m' := by
  cases h with
  | receive h => exact .single (.receive h)
  | @hear l q i b e h =>
    have hnone : (l.tracker i).totals? = none := by simp [Tracker.totals?, h]
    exact (Relation.ReflTransGen.single (.note ⟨rfl, by simp, by simp, by simp⟩)).tail (.hear hnone)
  | spend h =>
    refine .single (.unmoved (unmoved_modifyTracker _ (fun _ => rfl) fun totals ht => ?_))
    cases ht
  | event | decline => exact .single (.note ⟨rfl, by simp, by simp, by simp⟩)
  | skip | hook => exact .single (.unmoved (unmoved_of_eq rfl rfl rfl))
  | resolve => exact seek_flows.tail (.note ⟨rfl, by simp, by simp, by simp⟩)
  | park => exact park_flows
  | take hi => exact .single (intake_flow hs hi)
  | @settle l q s =>
    have hadd : Unmoved l _ := unmoved_addContext l
      { identity := .thread ⟨l.nextThread⟩, tracker := (l.service s).threadTracker
        cache := { threshold := (l.service s).threshold }, initialized := true } rfl
    exact .single (.unmoved { hadd with })

theorem Tending.flows (hs : Sound m.1) (h : Tending t m m') : Flows m m' := by
  cases h with
  | charging h => exact h.flows hs
  | notice | bound | report => exact .single (.note ⟨rfl, by simp, by simp, by simp⟩)
  | consume b hi => exact .single (.consume b (route_lt hs hi))
  | flush hc => exact .single (.drain hc (route_lt_of_context hs hc))
  | markInitialized | succeed => exact .single (.unmoved (unmoved_modifyContext _ fun _ => ⟨rfl, rfl⟩))
  | newTracker kind parent hp hk hz => exact .single (.unmoved (unmoved_newTracker _ hz))
  | bindEcho =>
    refine .single (.unmoved (unmoved_modifyTracker _ (fun tr => ?_) fun totals ht => ?_))
    · split <;> rfl
    · split at ht
      · exact ht
      · cases ht
  | newContext => exact .single (.unmoved (unmoved_addContext _ _ rfl))
  | @openAccount l q i s =>
    have hadd : Unmoved l _ := unmoved_addContext l
      { identity := .task ⟨l.nextTask⟩, tracker := i, initialized := true
        cache := { threshold := (l.service s).threshold } } rfl
    have hnew : Flow (l, q) ((l.newKey.1.newContext s l.newKey.2 i true).1, q) := .unmoved { hadd with }
    exact ((Relation.ReflTransGen.single hnew).tail (.note ⟨rfl, by simp, by simp, by simp⟩)).tail
      (.note ⟨rfl, by simp, by simp, by simp⟩)
  | @publish l q c r k =>
    have hctx : Unmoved l _ := unmoved_modifyContext l (c := c)
      (f := fun ctx => { ctx with published := k :: ctx.published }) fun _ => ⟨rfl, rfl⟩
    exact .single (.unmoved { hctx with })
  | addService source slots threshold =>
    unfold Ledger.addService
    dsimp only
    split <;> exact .single (.unmoved (unmoved_of_eq rfl rfl rfl))
  | _ => exact .single (.unmoved (unmoved_of_eq rfl rfl rfl))

theorem Ledger.shut_flows {l : Ledger} {q : List (TrackerId × Delta)} {c : ContextId} (hs : Sound l)
    (hc : c < l.contexts.size) :
    Flows (l, q) (l.shut c, l.sent (l.context c).tracker (l.context c).pending ++ q) := by
  let closed : Ledger := l.modifyContext c fun ctx => { ctx with closed := true }
  have hclose : Unmoved l closed := unmoved_modifyContext l fun _ => ⟨rfl, rfl⟩
  have hlt : c < closed.contexts.size := lt_of_lt_of_eq hc (contexts_size_modifyContext ..).symm
  have hroute : ∀ i ∈ closed.route (closed.context c).tracker, i < closed.trackers.size := by
    rw [hclose.tracker c hc]
    exact route_lt_of_context hs hc
  have hdrain : Flow (closed, q) (closed.drain c, _) := .drain hlt hroute
  rw [hclose.tracker c hc, hclose.pending c] at hdrain
  exact (Relation.ReflTransGen.single (.unmoved hclose)).tail hdrain

theorem Move.flows (hs : Sound m.1) (h : Move t m m') : Flows m m' := by
  cases h with
  | tending h => exact h.flows hs
  | close hc => exact shut_flows hs hc.lt
  | @closeHome l q s c hh =>
    have hend : Flow (l, q) (l.endHome t, q) := .unmoved (unmoved_of_eq rfl rfl rfl)
    exact Relation.ReflTransGen.head hend (shut_flows hs.endHome (closable_home hs hh).lt)
  | _ => exact .single (.unmoved (unmoved_of_eq rfl rfl rfl))

theorem Moves.flows (hr : Ready t m.1) (h : Moves t m m') : Flows m m' := by
  induction h with
  | refl => exact .refl
  | tail hm hstep ih => exact ih.trans (hstep.flows (Moves.ready hr hm).sound)

/-- Every run is a sequence of flows, and nothing is on its way after it. -/
theorem Run.flows {h : Holdings} {l : Ledger} (hr : Run h l) : Flows ({}, []) (l, []) := by
  induction hr with
  | nil => exact .refl
  | start hr ih => exact ih.tail (.unmoved (unmoved_of_eq rfl rfl rfl))
  | act hr ht he ha ih =>
    obtain ⟨hsound, hcarries, hheld⟩ := hr.reach
    have hready : Ready _ _ := ⟨hsound, hcarries, ht⟩
    exact ih.trans (Moves.flows hready (perform_moves hheld hready ha))

end HeapLedger
