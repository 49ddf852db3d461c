import HeapLedger.Proofs.Calm

/-!
# What a charge writes down

A charge writes down how the key of the active task was resolved, if there is one, and then where it went. What
follows is only what contexts commit and what echoes see, and what a new context takes in of what was parked. A charge
that is refused inside the hook writes down nothing.
-/

namespace HeapLedger

open Ledger

def Entry.Echoed : Entry → Prop
  | event (.received ..) | event (.answered ..) => True
  | _ => False

def Entry.Outgoing : Entry → Prop
  | event (.received ..) | event (.answered ..) | committed .. => True
  | _ => False

theorem Entry.Echoed.outgoing {e : Entry} (h : e.Echoed) : e.Outgoing := by
  cases e with
  | event e => cases e <;> trivial
  | _ => cases h

theorem Entry.Outgoing.intake? {e : Entry} (h : e.Outgoing) : e.intake? = none := by
  cases e with
  | event | committed => rfl
  | _ => cases h

namespace Ledger

def Grows (q : Entry → Prop) (l l' : Ledger) : Prop := ∃ new, l'.journal = new ++ l.journal ∧ ∀ e ∈ new, q e

section
variable {q : Entry → Prop} {l l' l'' : Ledger}

theorem grows_of_eq (h : l'.journal = l.journal) : Grows q l l' := ⟨[], h, fun _ he => by cases he⟩

theorem grows_post {e : Entry} (he : q e) : Grows q l (l.post e) := ⟨[e], rfl, fun e' he' => by simp_all⟩

theorem Grows.trans (h : Grows q l l') (h' : Grows q l' l'') : Grows q l l'' := by
  obtain ⟨new, hnew, hq⟩ := h
  obtain ⟨new', hnew', hq'⟩ := h'
  refine ⟨new' ++ new, by rw [hnew', hnew, List.append_assoc], fun e he => ?_⟩
  rcases List.mem_append.mp he with he | he
  · exact hq' e he
  · exact hq e he

theorem Grows.mono {q' : Entry → Prop} (h : Grows q l l') (hq : ∀ e, q e → q' e) : Grows q' l l' := by
  obtain ⟨new, hnew, he⟩ := h
  exact ⟨new, hnew, fun e hm => hq e (he e hm)⟩

theorem Grows.foldl {α : Type} {f : Ledger → α → Ledger} (hf : ∀ l a, Grows q l (f l a)) :
    ∀ (as : List α) (l : Ledger), Grows q l (as.foldl f l)
  | [], _ => grows_of_eq rfl
  | a :: as, l => (hf l a).trans (foldl hf as _)

end

/-! ## Up the trackers, inside the hook -/

section
variable {t : ThreadId}

theorem deliver_echoed (b : Delta) (l : Ledger) (i : TrackerId) : Grows Entry.Echoed l (deliver refuse t b l i) := by
  have hanswer : ∀ (name : String) (l : Ledger) (r : Request), Grows Entry.Echoed l (answer refuse t name l r) := by
    intro name l r
    have hskip : Grows Entry.Echoed l (l.countSkip r.service) := grows_of_eq rfl
    exact hskip.trans (grows_post (e := .event (.answered name (.skipped .reentrant))) trivial)
  unfold deliver
  split
  · exact grows_of_eq rfl
  · rename_i e _
    have hheard : Grows Entry.Echoed l (l.event (.received e.name b (l.inHook t))) := grows_post trivial
    dsimp only
    split
    · exact hheard
    · rename_i e' _
      let spent : Ledger := (l.event (.received e.name b (l.inHook t))).modifyTracker i fun tr => { tr with kind := .echo e' }
      have hspent : Grows Entry.Echoed l spent := hheard.trans (grows_of_eq rfl)
      exact hspent.trans (Grows.foldl (hanswer e.name) e.charges spent)

theorem propagate_echoed (l : Ledger) (i : TrackerId) (b : Delta) :
    Grows Entry.Echoed l (propagate refuse l t i b) :=
  Grows.foldl (deliver_echoed b) (l.route i) l

theorem absorb_outgoing (l : Ledger) (c : ContextId) (d : Delta) : Grows Entry.Outgoing l (l.absorb refuse t c d) := by
  unfold absorb
  dsimp only
  split
  · exact grows_of_eq rfl
  · rename_i b _
    let told : Ledger := (l.modifyContext c fun ctx => { ctx with cache := ((l.context c).cache.consume d).1 }).post
      (.committed c b)
    have htold : Grows Entry.Outgoing l told := ⟨[.committed c b], rfl, fun e he => by simp_all [Entry.Outgoing]⟩
    exact htold.trans ((propagate_echoed told _ b).mono fun _ => Entry.Echoed.outgoing)

end

/-! ## Inside the hook -/

/-- How a service finds the context of a key. -/
def resolution (l : Ledger) (t : ThreadId) (s : ServiceId) (k : TaskKey) : Resolution where
  thread := t
  service := s
  source := (l.service s).source
  slot := l.boundSlot t s
  key := k
  known := l.taskContext t s k
  live := (l.taskContext t s k).any fun c => !(l.context c).closed
  context := l.resolved t s k

def inquiry (l : Ledger) (t : ThreadId) (s : ServiceId) : List Entry :=
  ((l.activeTask t s).map fun k => .resolved (l.resolution t s k)).toList

theorem intake?_of_inquiry (l : Ledger) (t : ThreadId) (s : ServiceId) : ∀ e ∈ l.inquiry t s, e.intake? = none := by
  intro e he
  obtain ⟨k, -, rfl⟩ := Option.map_eq_some_iff.mp (Option.mem_toList.mp he)
  rfl

/-- The context that a charge comes to: the active task's, or the thread's own if the service owns it. -/
def comesTo (l : Ledger) (t : ThreadId) (s : ServiceId) : Option ContextId :=
  match l.activeTask t s with
  | some k => l.resolved t s k
  | none => l.homeOf t s

/-- A charge writes down how it came to its answer, and then some more. -/
structure Written (l : Ledger) (t : ThreadId) (s : ServiceId) (d : Delta) (after : List Entry) (r : Ledger × Charge) :
    Prop where
  journal : r.1.journal = after ++ .charged (l.verdict t s d (l.comesTo t s) r.2) :: (l.inquiry t s ++ l.journal)
  context : l.comesTo t s = none → r.2 = .parked ∨ ∃ reason, r.2 = .skipped reason

section
variable {l l' : Ledger} {t : ThreadId} {s : ServiceId} {d : Delta}

theorem journal_resolve (k : TaskKey) : (l.resolve t s k).1.journal = .resolved (l.resolution t s k) :: l.journal := by
  show .resolved { l.resolution t s k with context := (l.seek t s k).2 } :: (l.seek t s k).1.journal = _
  rw [journal_seek, seek_snd]
  rfl

theorem verdict_resolve (k : TaskKey) (context : Option ContextId) (charge : Charge) :
    (l.resolve t s k).1.verdict t s d context charge = l.verdict t s d context charge := by
  rw [← seen_of_shroud (v := fun l => l.verdict t s d context charge) _ (verdict_shroud · t s d context charge),
    veil_resolve, seen_of_shroud (v := fun l => l.verdict t s d context charge) _ (verdict_shroud · t s d context charge)]

theorem chargeContext_journal (c : ContextId) (charge : Charge) : ∃ after,
    (l.chargeContext t s c d charge).1.journal =
      after ++ .charged (l.verdict t s d (some c) (l.chargeContext t s c d charge).2) :: l.journal ∧
    ∀ e ∈ after, e.Outgoing := by
  unfold chargeContext
  split
  · exact absorb_outgoing (l.post (.charged (l.verdict t s d (some c) charge))) c d
  · exact ⟨[], rfl, fun _ he => by cases he⟩

theorem chargeThread_written (hk : l.activeTask t s = none) : ∃ after,
    Written l t s d after (l.chargeThread t s d) ∧ (∀ e ∈ after, e.Outgoing) := by
  have hinquiry : l.inquiry t s = [] := by rw [inquiry, hk]; rfl
  have hcomes : l.comesTo t s = l.homeOf t s := by rw [comesTo, hk]
  have hnone : ∀ {r : Ledger × Charge}, l.homeOf t s = none → (r.2 = .parked ∨ ∃ reason, r.2 = .skipped reason) →
      r.1.journal = .charged (l.verdict t s d none r.2) :: l.journal →
      ∃ after, Written l t s d after r ∧ (∀ e ∈ after, e.Outgoing) := fun hh hr hj =>
    ⟨[], ⟨by rw [hinquiry, hcomes, hh]; exact hj, fun _ => hr⟩, fun _ he => by cases he⟩
  unfold chargeThread
  split
  · rename_i hh
    obtain ⟨hcharge, hjournal⟩ := journal_park (l := l) (t := t) (s := s) d
    exact hnone (by rw [homeOf, hh]) (hcharge.imp_right fun h => ⟨_, h⟩) hjournal
  · rename_i hh
    exact hnone (by rw [homeOf, hh]) (.inr ⟨_, rfl⟩) rfl
  · rename_i owner c hh
    split
    · rename_i ho
      have hown : l.comesTo t s = some c := by rw [hcomes, homeOf, hh]; exact if_pos ho
      obtain ⟨after, hjournal, hafter⟩ := chargeContext_journal (l := l) (t := t) (s := s) (d := d) c .thread
      exact ⟨after, ⟨by rw [hinquiry, hown]; exact hjournal, by rw [hown]; nofun⟩, hafter⟩
    · rename_i ho
      exact hnone (by rw [homeOf, hh]; exact if_neg ho) (.inr ⟨_, rfl⟩) rfl

theorem chargeTask_written {k : TaskKey} (hk : l.activeTask t s = some k) : ∃ after,
    Written l t s d after (l.chargeTask t s k d) ∧ (∀ e ∈ after, e.Outgoing) := by
  have hinquiry : l.inquiry t s ++ l.journal = (l.resolve t s k).1.journal := by
    rw [inquiry, hk, journal_resolve]
    rfl
  have hcomes : l.comesTo t s = (l.resolve t s k).2 := by
    rw [comesTo, hk]
    exact (seek_snd k).symm
  unfold chargeTask
  dsimp only
  split
  · rename_i hc
    refine ⟨[], ⟨?_, fun _ => .inr ⟨_, rfl⟩⟩, fun _ he => by cases he⟩
    rw [hinquiry, hcomes, hc, ← verdict_resolve k]
    rfl
  · rename_i c hc
    obtain ⟨after, hjournal, hafter⟩ :=
      chargeContext_journal (l := (l.resolve t s k).1) (t := t) (s := s) (d := d) c (.task k)
    refine ⟨after, ⟨?_, by rw [hcomes, hc]; nofun⟩, hafter⟩
    rw [hinquiry, hcomes, hc, ← verdict_resolve k]
    exact hjournal

theorem chargeInHook_written : ∃ after, Written l t s d after (l.chargeInHook t s d) ∧ (∀ e ∈ after, e.Outgoing) := by
  unfold chargeInHook
  split
  · exact chargeTask_written ‹_›
  · exact chargeThread_written ‹_›

/-! ## Whole charges -/

theorem verdict_setInHook (b : Bool) (context : Option ContextId) (charge : Charge) :
    (l.setInHook t b).verdict t s d context charge = l.verdict t s d context charge := by
  have hsource : (l.setInHook t b).service s = l.service s := rfl
  simp only [verdict, Thread.innermost, thread_setInHook, hsource]

theorem inquiry_setInHook (b : Bool) : (l.setInHook t b).inquiry t s = l.inquiry t s := by
  have hsource : (l.setInHook t b).service s = l.service s := rfl
  have hroster : ∀ r, (l.setInHook t b).roster r = l.roster r := fun _ => rfl
  have hcontext : ∀ c, (l.setInHook t b).context c = l.context c := fun _ => rfl
  simp only [inquiry, resolution, activeTask_setInHook, resolved_setInHook, boundSlot, taskContext, scopedContext,
    thread_setInHook, hsource, hroster, hcontext]

theorem comesTo_setInHook (b : Bool) : (l.setInHook t b).comesTo t s = l.comesTo t s := by
  simp only [comesTo, homeOf, activeTask_setInHook, resolved_setInHook, thread_setInHook]

theorem guarded_written : ∃ after, Written l t s d after (l.guarded t (·.chargeInHook t s d)) ∧
    (∀ e ∈ after, e.Outgoing) := by
  obtain ⟨after, ⟨hjournal, hcontext⟩, hafter⟩ :=
    chargeInHook_written (l := l.setInHook t true) (t := t) (s := s) (d := d)
  rw [inquiry_setInHook, verdict_setInHook, comesTo_setInHook] at hjournal
  rw [comesTo_setInHook] at hcontext
  exact ⟨after, ⟨hjournal, hcontext⟩, hafter⟩

theorem chargeBare_written : ∃ after, Written l t s d after (l.chargeBare t s d) ∧ (∀ e ∈ after, e.Outgoing) := by
  unfold chargeBare
  split
  · exact chargeInHook_written
  · exact guarded_written

theorem settle_journal (h : (l.thread t).home = .absent) :
    ((l.thread t).carriedFor s = 0 → (l.settle t s).1.journal = l.journal) ∧
    ((l.thread t).carriedFor s ≠ 0 → l.inHook t = false → ∃ out, (∀ e ∈ out, e.Outgoing) ∧
      (l.settle t s).1.journal = out ++ .carried t s l.contexts.size ((l.thread t).carriedFor s) :: l.journal) := by
  have hinHook : (l.newHome t s).inHook t = l.inHook t := Table.get_modify_of_eq _ t t Thread.inHook fun _ => rfl
  unfold settle
  rw [h]
  dsimp only
  rw [hinHook]
  constructor
  · intro hz
    rw [if_pos (.inl hz)]
    rfl
  · intro hz hn
    rw [if_neg (by simp [hz, hn])]
    obtain ⟨out, hjournal, hout⟩ := absorb_outgoing (t := t) (((l.newHome t s).setInHook t true).post
      (.carried t s l.contexts.size ((l.thread t).carriedFor s))) l.contexts.size ((l.thread t).carriedFor s)
    exact ⟨out, hout, hjournal⟩

theorem charge_written_of_not_parked (hn : l.inHook t = false) (hp : (l.charge t s d).2 ≠ .parked) :
    ∃ after, Written l t s d after (l.charge t s d) ∧ ∀ e ∈ after, e.Outgoing := by
  obtain ⟨after, ⟨hjournal, hcontext⟩, hafter⟩ := guarded_written (l := l) (t := t) (s := s) (d := d)
  unfold charge at hp ⊢
  simp only [hn, Bool.false_eq_true, if_false] at hp ⊢
  split at hp
  · exact absurd rfl hp
  · rename_i reason hr
    rw [hr] at hjournal hcontext
    exact ⟨after, ⟨hjournal, fun _ => .inr ⟨reason, rfl⟩⟩, hafter⟩
  · exact ⟨after, ⟨hjournal, hcontext⟩, hafter⟩

/-- A charge that parks is followed by what the new context takes in, unless that is nothing. -/
theorem charge_written_of_parked (ht : t < l.threads.size) (hp : (l.charge t s d).2 = .parked) :
    ∃ after, Written l t s d after (l.charge t s d) ∧
      (((l.thread t).carriedFor s).addClamped d = 0 → after = []) ∧
      (((l.thread t).carriedFor s).addClamped d ≠ 0 → ∃ out, (∀ e ∈ out, e.Outgoing) ∧
        after = out ++ [.carried t s l.contexts.size (((l.thread t).carriedFor s).addClamped d)]) := by
  have hn : l.inHook t = false := by
    refine Bool.eq_false_iff.mpr fun hn => ?_
    rw [charge_of_inHook hn] at hp
    cases hp
  obtain ⟨after, ⟨hjournal, -⟩, -⟩ := guarded_written (l := l) (t := t) (s := s) (d := d)
  rcases guarded_stores_or_calm (s := s) (d := d) hn with ⟨hparked, hstores⟩ | ⟨hno, -⟩
  · -- nothing but the charge itself is written down before the context is there
    obtain ⟨v, hone, -⟩ := hstores.journal
    have hlength := congrArg List.length (hjournal.symm.trans hone)
    simp only [List.length_append, List.length_cons] at hlength
    obtain rfl : after = [] := List.eq_nil_of_length_eq_zero (by omega)
    have hheld : ((l.guarded t (·.chargeInHook t s d)).1.thread t).carriedFor s =
        ((l.thread t).carriedFor s).addClamped d := by
      rw [hstores.toParks.thread ht]
      simp [Thread.carriedFor]
    have hout : (l.guarded t (·.chargeInHook t s d)).1.inHook t = false :=
      (congrArg Thread.inHook (hstores.toParks.thread ht)).trans hn
    obtain ⟨hnothing, hcarried⟩ := settle_journal (s := s) ((hstores.home_eq t).trans hstores.home)
    rw [hheld, hstores.contexts] at hcarried
    rw [hheld] at hnothing
    rw [hparked] at hjournal
    have hcharge : l.charge t s d = (((l.guarded t (·.chargeInHook t s d)).1.settle t s).1, .parked) := by
      unfold charge
      simp only [hn, Bool.false_eq_true, if_false, hparked]
    rw [hcharge]
    by_cases hz : ((l.thread t).carriedFor s).addClamped d = 0
    · refine ⟨[], ⟨(hnothing hz).trans hjournal, fun _ => .inl rfl⟩, fun _ => rfl, fun h => absurd hz h⟩
    · obtain ⟨out, houtgoing, hsettled⟩ := hcarried hz hout
      refine ⟨_, ⟨?_, fun _ => .inl rfl⟩, fun h => absurd h hz, fun _ => ⟨out, houtgoing, rfl⟩⟩
      rw [hsettled, hjournal]
      simp
  · -- a charge that is answered so has parked
    unfold charge at hp
    simp only [hn, Bool.false_eq_true, if_false] at hp
    split at hp
    · exact absurd ‹_› hno
    · cases hp
    · exact absurd hp hno

end

end Ledger

end HeapLedger
