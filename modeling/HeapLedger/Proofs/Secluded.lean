import HeapLedger.Proofs.Scoped

/-!
# The account of a future

Nothing but a poll or the drop of a future enters a scope of the future's account. So whatever else is done leaves the
account out of every scope, and nothing is charged to it.
-/

namespace HeapLedger

open Ledger

def Entry.Outside (a : Account) (e : Entry) : Prop := ∀ v, e = .charged v → v.scope ≠ some a

namespace Ledger

/-- A future keeps its account, which is in no scope, and nothing is charged in one meanwhile. -/
structure Shuns (f : FutureId) (l l' : Ledger) : Prop where
  account : (l'.future f).account = (l.future f).account
  unscoped : l'.inScope (l.future f).account = false
  outside : Grows (Entry.Outside (l.future f).account) l l'

section
variable {f : FutureId} {l l' l'' : Ledger} {t : ThreadId} {a : Account}

theorem Shuns.trans (h : Shuns f l l') (h' : Shuns f l' l'') : Shuns f l l'' where
  account := h'.account.trans h.account
  unscoped := h.account ▸ h'.unscoped
  outside := h.outside.trans (h.account ▸ h'.outside)

theorem outside_of_silent {e : Entry} (hv : ∀ v, e ≠ .charged v) : e.Outside a := fun v he => absurd he (hv v)

theorem innermost_ne (h : l.inScope a = false) : (l.thread t).innermost ≠ some a := by
  intro ha
  obtain ⟨sc, hsc, hac⟩ := Option.map_eq_some_iff.mp ha
  exact inScope_eq_false_iff.mp h t sc (List.mem_of_mem_head? hsc) hac

theorem Minds.outside {e : Entry} (hm : l.Minds t e) (h : l.inScope a = false) : e.Outside a := by
  intro v hv
  rw [(hm.charged v hv).2]
  exact innermost_ne h

theorem shuns_of_eq (h : l.inScope (l.future f).account = false) (ht : l'.threads = l.threads)
    (hf : l'.futures = l.futures) (ho : Grows (Entry.Outside (l.future f).account) l l') : Shuns f l l' where
  account := by rw [future, hf]; rfl
  unscoped := by rw [inScope, ht]; exact h
  outside := ho

theorem shuns_shut (h : l.inScope (l.future f).account = false) (c : ContextId) : Shuns f l (l.shut c) := by
  refine shuns_of_eq h rfl rfl ⟨[.committed c _, .flushed c], rfl, fun e he => outside_of_silent fun v => ?_⟩
  rintro rfl
  simp at he

end

end Ledger

/-! ## Moves -/

section
variable {f : FutureId} {t : ThreadId} {m m' : Moment}

theorem Tending.outside {a : Account} (hr : Ready t m.1) (hn : m.1.inScope a = false) (h : Tending t m m') :
    Grows (Entry.Outside a) m.1 m'.1 := by
  cases h with
  | charging h => exact (h.minds hr.sound).mono fun e he => he.outside hn
  | notice | bound | report | consume => exact grows_post (outside_of_silent fun _ => nofun)
  | @flush l q c =>
    refine ⟨[.committed c _, .flushed c], rfl, fun e he => outside_of_silent fun v => ?_⟩
    rintro rfl
    simp at he
  | @openAccount l q i s =>
    refine ⟨[.opened _, .notice _], rfl, fun e he => outside_of_silent fun v => ?_⟩
    rintro rfl
    simp at he
  | @addService l q i source slots threshold =>
    refine grows_of_eq ?_
    show (l.addService source slots i threshold).1.journal = l.journal
    unfold Ledger.addService
    dsimp only
    split <;> rfl
  | _ => exact grows_of_eq rfl

theorem Tendings.shuns (hr : Ready t m.1) (hn : m.1.inScope (m.1.future f).account = false) (h : Tendings t m m') :
    Shuns f m.1 m'.1 := by
  induction h with
  | refl => exact shuns_of_eq hn rfl rfl (grows_of_eq rfl)
  | tail hm hstep ih =>
    refine ih.trans ⟨by rw [future, hstep.still.futures]; rfl, ?_, ?_⟩
    · rw [ih.account]
      exact hstep.still.inScope ih.unscoped
    · rw [ih.account]
      exact hstep.outside (Tendings.ready hr hm) ih.unscoped

theorem Leaving.shuns (hr : Ready t m.1) (hn : m.1.inScope (m.1.future f).account = false) (h : Leaving t m m') :
    Shuns f m.1 m'.1 := by
  cases h with
  | charging h => exact (Tendings.shuns hr hn (.single (.charging h)) :)
  | minor h => exact (Tendings.shuns hr hn (.single h.tending) :)
  | @leave l q =>
    refine ⟨rfl, inScope_eq_false_iff.mpr fun j sc hsc => ?_, grows_of_eq rfl⟩
    have hsc : sc ∈ ((l.modifyThread t Thread.leave).thread j).scopes := hsc
    rw [thread_modifyThread] at hsc
    split at hsc
    · refine inScope_eq_false_iff.mp hn j sc ?_
      unfold Thread.leave at hsc
      split at hsc
      · exact hsc
      · rename_i hscopes
        rw [hscopes]
        exact List.mem_cons_of_mem _ hsc
    · exact inScope_eq_false_iff.mp hn j sc hsc
  | orphans => exact shuns_of_eq hn rfl rfl (grows_of_eq rfl)
  | close => exact shuns_shut hn _
  | @closeHome l q s c =>
    have hend : Shuns f l (l.endHome t) := by
      refine ⟨rfl, inScope_eq_false_iff.mpr fun j sc hsc => ?_, grows_of_eq rfl⟩
      have hscopes : ((l.endHome t).thread j).scopes = (l.thread j).scopes :=
        Table.get_modify_of_eq _ t j Thread.scopes fun _ => rfl
      exact inScope_eq_false_iff.mp hn j sc (hscopes ▸ hsc)
    exact hend.trans (shuns_shut hend.unscoped c)

theorem Leavings.shuns (hr : Ready t m.1) (hn : m.1.inScope (m.1.future f).account = false) (h : Leavings t m m') :
    Shuns f m.1 m'.1 := by
  induction h with
  | refl => exact shuns_of_eq hn rfl rfl (grows_of_eq rfl)
  | tail hm hstep ih => exact ih.trans (hstep.shuns (Leavings.ready hr hm) (by rw [ih.account]; exact ih.unscoped))

end

namespace Ledger

/-! ## Actions -/

section
variable {f : FutureId} {l : Ledger} {t : ThreadId} {b : Account}

theorem shuns_enter (hn : l.inScope (l.future f).account = false) (hne : b ≠ (l.future f).account) :
    Shuns f l (l.enter t b) := by
  refine ⟨rfl, inScope_eq_false_iff.mpr fun j sc hsc => ?_, grows_of_eq rfl⟩
  rw [enter, thread_modifyThread] at hsc
  split at hsc
  · rcases List.mem_cons.mp hsc with rfl | hsc
    · exact hne
    · exact inScope_eq_false_iff.mp hn j sc hsc
  · exact inScope_eq_false_iff.mp hn j sc hsc

theorem within_shuns (hr : Ready t l) (hn : l.inScope (l.future f).account = false) (hne : b ≠ (l.future f).account)
    (ho : l.Opened b) (hopen : (l.context b.context).closed = false) (event : Charge → Event) {requests : List Request}
    (hs : l.Serves requests) : Shuns f l (l.within t b (·.chargeAll t event requests)) := by
  have henter := shuns_enter (t := t) hn hne
  have hready : Ready t (l.enter t b) := Move.ready (m := (l, [])) hr (.enter ho hopen)
  have hall : Chargings t (l.enter t b, []) ((l.enter t b).chargeAll t event requests, []) := chargeAll_chargings hs hready
  have hcharges := henter.trans (Leavings.shuns (m := (l.enter t b, [])) hready henter.unscoped hall.leavings)
  refine hcharges.trans (Leaving.shuns (m := (_, [])) (hall.ready hready) ?_ .leave)
  rw [hcharges.account]
  exact hcharges.unscoped

theorem closeContext_shuns (hr : Ready t l) (hn : l.inScope (l.future f).account = false) {c : ContextId}
    (hc : l.Closable c) : Shuns f l (l.closeContext t c) := by
  have hshut := shuns_shut hn c
  have hready : Ready t (l.shut c) := Move.ready (m := (l, [])) hr (.close hc)
  exact hshut.trans (Tendings.shuns (m := (l.shut c, _)) hready hshut.unscoped (shut_chargings (q := []) hready).tendings)

variable {h : Holdings} (hh : Held h l) (hr : Ready t l) (hf : f ∈ h.futures)

include hh hf

/-- The account of a future is not in any other hands. -/
theorem ne_of_account (hb : b ∈ h.accounts) : b ≠ (l.future f).account := by
  rintro rfl
  have honce := hh.once
  unfold keptAccounts at honce
  exact (List.nodup_append.mp honce).2.2 _ (List.mem_append_left _ hb) _ (List.mem_map_of_mem hf) rfl

theorem ne_of_future {g : FutureId} (hg : g ∈ h.futures) (hne : g ≠ f) : (l.future g).account ≠ (l.future f).account := by
  have honce := hh.once
  unfold keptAccounts at honce
  exact fun heq => hne (List.inj_on_of_nodup_map (List.nodup_append.mp honce).2.1 hg hf heq)

include hr

theorem poll_shuns {g : FutureId} (hg : g ∈ h.futures) (hne : g ≠ f) : Shuns f l (l.poll t g).1 := by
  obtain ⟨ho, hc⟩ := hh.account _ (kept_future hg)
  have hn := hh.unscoped f hf
  have hnext := nextPoll_move (t := t) (q := []) hr.sound g
  let nextPoll : Ledger := { l with
    futures := l.futures.modify g fun future => { future with polls := future.polls.tail } }
  have haccount : (nextPoll.future f).account = (l.future f).account :=
    Table.get_modify_of_eq _ g f Future.account fun _ => rfl
  have hnew : Shuns f l nextPoll := ⟨haccount, hn, grows_of_eq rfl⟩
  exact hnew.trans (within_shuns (l := nextPoll) (hnext.ready hr) (haccount ▸ hn)
    (haccount ▸ ne_of_future hh hf hg hne) ho hc _ (serves_next hr.sound g))

theorem dropFuture_shuns {g : FutureId} (hg : g ∈ h.futures) (hne : g ≠ f) : Shuns f l (l.dropFuture t g) := by
  obtain ⟨ho, hc⟩ := hh.account _ (kept_future hg)
  have hn := hh.unscoped f hf
  have hrequests := (hr.sound.future_requests g).2
  have hwithin := within_shuns hr hn (ne_of_future hh hf hg hne) ho hc (.dropped (l.future g).name) hrequests
  have hstill := within_charges_still hr ho hc (.dropped (l.future g).name) hrequests
  have hready := Moves.ready hr (within_moves (q := []) hr
    (·.chargeAll t (.dropped (l.future g).name) (l.future g).onDrop) ho hc fun h' => chargeAll_chargings hrequests h')
  refine hwithin.trans (Leavings.shuns (m := (_, [])) hready ?_
    (closeAccount_leavings (hstill.opened _ ho) ((hstill.closed _).trans hc) (hstill.inScope (hh.unscoped g hg)) hready))
  rw [hwithin.account]
  exact hwithin.unscoped

theorem dropContext_shuns {c : ContextId} (hc : c ∈ h.contexts) (hu : l.inUse c = false) :
    Shuns f l (l.dropContext t c) := by
  obtain ⟨hm, ho⟩ := hh.manual c hc
  have hwithdraw := withdraw_tendings (t := t) (l := l) (l.context c).published ((l.context c).published ++ l.deadKeys)
  have hfirst := Tendings.shuns (m := (l, [])) hr (hh.unscoped f hf) hwithdraw
  exact hfirst.trans (closeContext_shuns (hwithdraw.ready hr) hfirst.unscoped
    (closable_withdraw (hm.closable ho hr.sound hu) _ _))

theorem replaceContext_shuns {old new : ContextId} (ha : l.Admits h (.replaceContext old new)) :
    Shuns f l (l.replaceContext t old new) := by
  obtain ⟨hnew, hne, ho⟩ := ha
  have hsucceed := succeed_tending (t := t) hh hnew old
  have hfirst := Tendings.shuns (m := (l, [])) hr (hh.unscoped f hf) (.single hsucceed)
  unfold replaceContext
  dsimp only
  split
  · exact hfirst
  · rename_i hopen
    exact hfirst.trans (closeContext_shuns (Tendings.ready hr (.single hsucceed)) hfirst.unscoped
      (closable_succeed hne hh hr (ho.resolve_left hopen)))

theorem perform_shuns {a : Action} (ha : l.Admits h a) (hp : a ≠ .poll f) (hd : a ≠ .dropFuture f) :
    Shuns f l (l.perform t a).1 := by
  have hn := hh.unscoped f hf
  have hsame : Shuns f l l := shuns_of_eq hn rfl rfl (grows_of_eq rfl)
  by_cases hs : a.Stirs
  · cases a with
    | exit => exact Leavings.shuns (m := (l, [])) hr hn (exit_leavings hr)
    | enter b => exact shuns_enter hn (ne_of_account hh hf ha)
    | leave =>
      unfold perform insideScope
      dsimp only
      split
      · exact hsame
      · exact Leavings.shuns (m := (l, [])) hr hn (leaveScope_leavings hr)
    | unwind levels =>
      unfold perform insideScope
      dsimp only
      split
      · exact hsame
      · exact Leavings.shuns (m := (l, [])) hr hn (unwind_leavings _ hr)
    | closeAccount b =>
      obtain ⟨ho, hc⟩ := hh.account b (List.mem_append_left _ (List.mem_append_left _ ha))
      unfold perform
      dsimp only
      split
      · exact hsame
      · rename_i hb
        exact Leavings.shuns (m := (l, [])) hr hn (closeAccount_leavings ho hc (Bool.eq_false_iff.mpr hb) hr)
    | releaseAccount b =>
      obtain ⟨ho, hc⟩ := hh.account b (List.mem_append_left _ (List.mem_append_left _ ha))
      exact Leavings.shuns (m := (l, [])) hr hn (release_leavings ho hc hr)
    | newFuture name polls onDrop s i =>
      have hopen : Shuns f l (l.openAccount s i).1 :=
        Tendings.shuns (m := (l, [])) hr hn (.single (.openAccount s ha.2.1))
      exact ⟨congrArg Future.account (future_add (hh.future f hf) _), hopen.unscoped, hopen.outside⟩
    | poll g => exact poll_shuns hh hr hf ha fun he => hp (he ▸ rfl)
    | dropFuture g => exact dropFuture_shuns hh hr hf ha fun he => hd (he ▸ rfl)
    | dropContext c =>
      unfold perform
      dsimp only
      split
      · exact hsame
      · rename_i hu
        exact dropContext_shuns hh hr hf ha (Bool.eq_false_iff.mpr hu)
    | replaceContext old new => exact replaceContext_shuns hh hr hf ha
    | _ => cases hs
  · exact Tendings.shuns (m := (l, [])) hr hn (perform_tendings hh hr ha hs)

end

end Ledger

end HeapLedger
