import HeapLedger.Ledger.Perform

/-!
# Without the batches

`unbatch` takes out of a ledger whatever depends on when its contexts commit: thresholds, what is pending, the totals of
counters, and what the journal says about commits. As long as all trackers are counters, a commit leaves nothing else behind.
-/

namespace HeapLedger

/-! ## What is taken out -/

def TrackerKind.unbatch : TrackerKind → TrackerKind
  | counter label _ => .counter label {}
  | echo e => .echo e

def Tracker.unbatch (tr : Tracker) : Tracker := { tr with kind := tr.kind.unbatch }

def Context.unbatch (ctx : Context) : Context := { ctx with cache := default }

def Service.unbatch (svc : Service) : Service := { svc with threshold := defaultThreshold }

def Notice.unbatch : Notice → Notice
  | serviceCreated s _ slots source => .serviceCreated s defaultThreshold slots source
  | accountClosed k _ => .accountClosed k 0
  | hooksRegistered installed _ => .hooksRegistered installed defaultThreshold
  | n => n

def Entry.unbatch : Entry → Option Entry
  | committed .. => none
  | notice n => some (.notice n.unbatch)
  | e => some e

namespace Ledger

def unbatch (l : Ledger) : Ledger :=
  { l with
    trackers := l.trackers.map Tracker.unbatch
    contexts := l.contexts.map Context.unbatch
    services := l.services.map Service.unbatch
    journal := l.journal.filterMap Entry.unbatch }

def Counts (l : Ledger) : Prop := ∀ i, ∃ label totals, (l.tracker i).kind = .counter label totals

/-- Two ledgers with counters that differ only in what their contexts have committed so far. -/
structure Rebatched (l l' : Ledger) : Prop where
  same : l.unbatch = l'.unbatch
  counts : l.Counts

section
variable (l : Ledger)

theorem tracker_unbatch (i : TrackerId) : l.unbatch.tracker i = (l.tracker i).unbatch := Table.get_map _ i rfl

theorem context_unbatch (c : ContextId) : l.unbatch.context c = (l.context c).unbatch := Table.get_map _ c rfl

theorem service_unbatch (s : ServiceId) : l.unbatch.service s = (l.service s).unbatch := Table.get_map _ s rfl

theorem source_unbatch (s : ServiceId) : (l.unbatch.service s).source = (l.service s).source := by
  rw [service_unbatch]
  rfl

theorem slots_unbatch (s : ServiceId) : (l.unbatch.service s).slots = (l.service s).slots := by
  rw [service_unbatch]
  rfl

theorem closed_unbatch (c : ContextId) : (l.unbatch.context c).closed = (l.context c).closed := by
  rw [context_unbatch]
  rfl

theorem taskContext_unbatch (t : ThreadId) (s : ServiceId) (k : TaskKey) :
    l.unbatch.taskContext t s k = l.taskContext t s k := by
  simp only [taskContext, source_unbatch]
  rfl

theorem unbatch_post {e e' : Entry} (h : e.unbatch = some e') : (l.post e).unbatch = l.unbatch.post e' :=
  congrArg (fun journal : List Entry => { l.unbatch with journal }) (List.filterMap_cons_some h)

theorem unbatch_post_of_none {e : Entry} (h : e.unbatch = none) : (l.post e).unbatch = l.unbatch :=
  congrArg (fun journal : List Entry => { l.unbatch with journal }) (List.filterMap_cons_none h)

theorem unbatch_modifyContext (c : ContextId) {f : Context → Context} (hf : ∀ ctx, (f ctx).unbatch = f ctx.unbatch) :
    (l.modifyContext c f).unbatch = l.unbatch.modifyContext c f :=
  congrArg (fun contexts : Table Context => { l.unbatch with contexts }) (Table.map_modify _ c hf)

theorem unbatch_setCache (c : ContextId) (cache : Cache) :
    (l.modifyContext c fun ctx => { ctx with cache }).unbatch = l.unbatch := by
  have hcontexts : (l.contexts.modify c fun ctx => { ctx with cache }).map Context.unbatch =
      l.contexts.map Context.unbatch := Table.map_modify_of_eq _ c fun _ => rfl
  exact congrArg (fun contexts => { l.unbatch with contexts }) hcontexts

theorem unbatch_modifyService (s : ServiceId) {f : Service → Service} (hf : ∀ svc, (f svc).unbatch = f svc.unbatch) :
    (l.modifyService s f).unbatch = l.unbatch.modifyService s f :=
  congrArg (fun services : Table Service => { l.unbatch with services }) (Table.map_modify _ s hf)

end

variable {l l' : Ledger} {t : ThreadId} {s : ServiceId} {c : ContextId} {respond : Responder}

theorem counts_unbatch : l.unbatch.Counts ↔ l.Counts := by
  refine forall_congr' fun i => ?_
  rw [tracker_unbatch, Tracker.unbatch]
  cases (l.tracker i).kind with
  | counter label totals => exact ⟨fun _ => ⟨label, totals, rfl⟩, fun _ => ⟨label, {}, rfl⟩⟩
  | echo e => exact Iff.rfl

theorem Counts.of_unbatch (hc : l.Counts) (h : l'.unbatch = l.unbatch) : l'.Counts :=
  counts_unbatch.mp (h ▸ counts_unbatch.mpr hc)

theorem Rebatched.read {α : Type} (h : Rebatched l l') (v : Ledger → α) (hv : ∀ l : Ledger, v l.unbatch = v l) :
    v l = v l' := by
  rw [← hv l, h.same, hv l']

/-! ## Commits -/

/-- What a counter receives is taken out. -/
theorem unbatch_deliver (h : l.Counts) (b : Delta) (i : TrackerId) :
    (deliver respond t b l i).unbatch = l.unbatch := by
  obtain ⟨label, totals, hk⟩ := h i
  have hone : (l.trackers.modify i fun tr => { tr with kind := .counter label (totals.add b) }).map Tracker.unbatch =
      l.trackers.map Tracker.unbatch := by
    refine congrArg Table.mk (List.ext_getElem? fun j => ?_)
    simp only [Table.modify, List.getElem?_map, List.getElem?_modify]
    by_cases hij : i = j
    · subst hij
      cases hi : l.trackers.rows[i]? with
      | none => rfl
      | some tr =>
        have htr : l.tracker i = tr := by simp [tracker, Table.get, List.getD_eq_getElem?_getD, hi]
        simp [Tracker.unbatch, ← htr, hk, TrackerKind.unbatch]
    · simp [hij]
  unfold deliver
  rw [hk]
  exact congrArg (fun trackers : Table Tracker => { l.unbatch with trackers }) hone

theorem unbatch_delivers (b : Delta) : ∀ (is : List TrackerId) {l : Ledger}, l.Counts →
    (is.foldl (deliver respond t b) l).unbatch = l.unbatch
  | [], _, _ => rfl
  | i :: is, l, h => by
    have hone : (deliver respond t b l i).unbatch = l.unbatch := unbatch_deliver h b i
    exact (unbatch_delivers b is (h.of_unbatch hone)).trans hone

theorem unbatch_propagate (h : l.Counts) (i : TrackerId) (b : Delta) :
    (propagate respond l t i b).unbatch = l.unbatch := unbatch_delivers b _ h

theorem unbatch_commit (h : l.Counts) (b : Delta) : (commit respond l t c b).unbatch = l.unbatch := by
  have hpost : (l.post (.committed c b)).unbatch = l.unbatch := unbatch_post_of_none l rfl
  exact (unbatch_propagate (h.of_unbatch hpost) _ b).trans hpost

theorem unbatch_absorb (h : l.Counts) (d : Delta) : (absorb respond l t c d).unbatch = l.unbatch := by
  have hset : ∀ cache : Cache, (l.modifyContext c fun ctx => { ctx with cache }).unbatch = l.unbatch :=
    unbatch_setCache l c
  unfold absorb
  dsimp only
  split
  · exact hset _
  · exact (unbatch_commit (h.of_unbatch (hset _)) _).trans (hset _)

theorem unbatch_flush (h : l.Counts) : (flush respond l t c).1.unbatch = l.unbatch.post (.flushed c) := by
  have hset : ∀ cache : Cache, ((l.post (.flushed c)).modifyContext c fun ctx => { ctx with cache }).unbatch =
      l.unbatch.post (.flushed c) := fun cache => (unbatch_setCache _ c cache).trans (unbatch_post l rfl)
  have hcounts : (l.unbatch.post (.flushed c)).Counts := counts_unbatch.mpr h
  exact (unbatch_commit (counts_unbatch.mp (hset _ ▸ hcounts)) _).trans (hset _)

end Ledger

end HeapLedger
