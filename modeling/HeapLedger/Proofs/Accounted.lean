import HeapLedger.Proofs.Level
import HeapLedger.Proofs.Secluded

/-!
# What a future is charged

From the time a future is opened, its account takes in what its polls charge, on whatever threads and whatever is done
between them, and nothing else. When the future is dropped, the account takes in what that charges, too, and then
commits the last of it.
-/

namespace HeapLedger

open Ledger

/-! ## What a context took in -/

section
variable {c : ContextId} {older : List Entry}

theorem gathered_close (b : Delta) (n : Notice) :
    gathered c (.committed c b :: .flushed c :: .notice n :: older) = gathered c older := by
  rw [gathered_eq, gathered_eq]
  rfl

/-- What a context that is closed has committed is what it took in, unless an addition was cut off. -/
theorem Ledger.total_commits {l : Ledger} (hf : Fed l) (hs : Sound l) (hc : c < l.contexts.size)
    (ho : (l.context c).closed = true)
    (he : Cache.Exact (l.context c).cache.threshold [] (l.feedings c)) :
    total (l.commits c) = total (gathered c l.journal) := by
  have hlevel := Cache.level_fed he
  rw [List.append_nil, hf.fed c hc] at hlevel
  have hpending : (l.context c).cache.pending.toInt = 0 := congrArg Int64.toInt (hs.pending_closed c ho)
  have hnew : Cache.level (Cache.fed (l.context c).cache.threshold []) = 0 := rfl
  rw [hnew, Cache.level, hpending, Int.zero_add, Int.zero_add] at hlevel
  exact hlevel

end

namespace Ledger

theorem Spends.gathered {l : Ledger} {t : ThreadId} {a : Account} {event : Charge → Event} {requests : List Request}
    {new : List Entry} (h : l.Spends t a event requests new) : gathered a.context new = l.outlay t requests := by
  rw [gathered_eq, h.intake, List.filterMap_map]
  simp

end Ledger

/-! ## Polls -/

/-- The work of a future since it was opened, as long as it is not dropped, and what its polls have charged outside of
the hook, the latest first. -/
inductive Worked (f : FutureId) : Holdings → Ledger → List Delta → Prop
  | opened {h l t name polls onDrop s i} (hr : Run h l) (ht : t < l.threads.size) (he : t ∉ h.ended)
      (ha : l.Admits h (.newFuture name polls onDrop s i)) (hf : f = l.futures.size) :
      Worked f (h.after t (.newFuture name polls onDrop s i) (l.perform t (.newFuture name polls onDrop s i)).2)
        (l.perform t (.newFuture name polls onDrop s i)).1 []
  | start {h l ds} (hw : Worked f h l ds) : Worked f h l.newThread.1 ds
  | poll {h l ds t} (hw : Worked f h l ds) (ht : t < l.threads.size) (he : t ∉ h.ended)
      (hs : l.ByScopes (l.future f).next.charges) :
      Worked f h (l.perform t (.poll f)).1 (l.outlay t (l.future f).next.charges ++ ds)
  | other {h l ds t a} (hw : Worked f h l ds) (ht : t < l.threads.size) (he : t ∉ h.ended) (ha : l.Admits h a)
      (hp : a ≠ .poll f) (hd : a ≠ .dropFuture f) :
      Worked f (h.after t a (l.perform t a).2) (l.perform t a).1 ds

namespace Ledger

structure Accrued (f : FutureId) (h : Holdings) (l : Ledger) (ds : List Delta) : Prop where
  run : Run h l
  mem : f ∈ h.futures
  gathered : gathered (l.future f).account.context l.journal = ds

section
variable {f : FutureId} {h : Holdings} {l : Ledger} {ds : List Delta} {t : ThreadId}

theorem mem_futures_after {a : Action} {o : Outcome} (hf : f ∈ h.futures) (hd : a ≠ .dropFuture f) :
    f ∈ (h.after t a o).futures := by
  unfold Holdings.after
  split
  · exact hf
  · exact hf
  · exact hf
  · exact hf
  · exact List.mem_cons_of_mem _ hf
  · rename_i g _
    exact (List.mem_erase_of_ne fun he => hd (congrArg Action.dropFuture he.symm)).mpr hf
  all_goals exact hf

theorem accrued_newFuture {name : String} {polls : List PollScript} {onDrop : List Request} {s : ServiceId}
    {i : TrackerId} (hr : Run h l) (ht : t < l.threads.size) (he : t ∉ h.ended)
    (ha : l.Admits h (.newFuture name polls onDrop s i)) :
    Accrued l.futures.size (h.after t (.newFuture name polls onDrop s i)
      (l.perform t (.newFuture name polls onDrop s i)).2) (l.perform t (.newFuture name polls onDrop s i)).1 [] where
  run := hr.act ht he ha
  mem := List.mem_cons_self ..
  gathered := by
    let new : Future := { name, account := (l.openAccount s i).2, polls, onDrop }
    have hnew : (l.futures.add new).get l.futures.size = new := (Table.get_add ..).trans (if_pos rfl)
    have hcontext : ((l.newFuture s i name polls onDrop).1.future l.futures.size).account.context = l.contexts.size :=
      congrArg (·.account.context) hnew
    have hnothing : l.feedings l.contexts.size = [] := (hr.fed.fresh _ (Nat.le_refl _)).1
    show HeapLedger.gathered ((l.newFuture s i name polls onDrop).1.future l.futures.size).account.context
      (.opened _ :: .notice _ :: l.journal) = []
    rw [hcontext]
    exact congrArg (List.filterMap Feeding.amount?) hnothing

section
variable (hr : Ready t l) (hh : Held h l) (hf : f ∈ h.futures)

include hr hh hf

theorem poll_restores : Restores l (l.poll t f).1 ∧ ((l.poll t f).1.future f).account = (l.future f).account := by
  obtain ⟨ho, hc⟩ := hh.account _ (kept_future hf)
  have hnext := nextPoll_move (t := t) (q := []) hr.sound f
  have hafter := Moves.ready hr (poll_moves (q := []) ho hc hr)
  have hstill := within_charges_still (hnext.ready hr) ho hc (.polled (l.future f).name) (serves_next hr.sound f)
  refine ⟨restores_of_scopes hr.sound hafter.sound hstill.scopes, ?_⟩
  have hfutures : (l.poll t f).1.futures =
      l.futures.modify f fun future => { future with polls := future.polls.tail } := hstill.futures
  rw [future, hfutures]
  exact Table.get_modify_of_eq _ f f Future.account fun _ => rfl

theorem poll_confined (ha : Attributed l) (hs : l.ByScopes (l.future f).next.charges) :
    ∃ new, (l.poll t f).1.journal = new ++ l.journal ∧
      l.Confined t (l.future f).account (.polled (l.future f).name) (l.future f).next.charges new := by
  obtain ⟨ho, hc⟩ := hh.account _ (kept_future hf)
  let nextPoll : Ledger := { l with
    futures := l.futures.modify f fun future => { future with polls := future.polls.tail } }
  have hnext : Move t (l, []) (nextPoll, []) := nextPoll_move hr.sound f
  have hpoll : ∃ new, (l.poll t f).1.journal = new ++ l.journal ∧
      nextPoll.Confined t (l.future f).account (.polled (l.future f).name) (l.future f).next.charges new :=
    within_confined (fun _ => rfl) (hnext.ready hr) (hnext.attributed hr.sound ha) ho hc hs
  obtain ⟨new, hjournal, hconfined⟩ := hpoll
  exact ⟨new, hjournal, { hconfined with }⟩

/-- A drop is work inside the scope, and then the close of the account. -/
theorem dropFuture_closes (ha : Attributed l) : ∃ l₁ later, Restores l l₁ ∧
    l₁.Closes t (l.future f).account later (l.dropFuture t f) ∧ Restores l (l.dropFuture t f) ∧
    (l.ByScopes (l.future f).onDrop → ∃ new, l₁.journal = new ++ l.journal ∧
      l.Confined t (l.future f).account (.dropped (l.future f).name) (l.future f).onDrop new) := by
  obtain ⟨ho, hc⟩ := hh.account _ (kept_future hf)
  let drop : Ledger → Ledger := (·.chargeAll t (.dropped (l.future f).name) (l.future f).onDrop)
  have hrequests := (hr.sound.future_requests f).2
  have hstill := within_charges_still hr ho hc (.dropped (l.future f).name) hrequests
  have hready : Ready t (l.within t (l.future f).account drop) :=
    Moves.ready hr (within_moves (q := []) hr drop ho hc fun h' => chargeAll_chargings hrequests h')
  obtain ⟨hrestores, later, hcloses⟩ := closeAccount_closes hready (hstill.opened _ ho) ((hstill.closed _).trans hc)
    (hstill.inScope (hh.unscoped f hf))
  have hinside := restores_of_scopes hr.sound hready.sound hstill.scopes
  exact ⟨l.within t (l.future f).account drop, later, hinside, hcloses,
    ⟨fun j => (hrestores.active j).trans (hinside.active j), fun j => (hrestores.scopes j).trans (hinside.scopes j)⟩,
    within_confined (fun _ => rfl) hr ha ho hc⟩

end

/-! ## What accrues -/

theorem Accrued.start (h' : Accrued f h l ds) : Accrued f h l.newThread.1 ds := ⟨.start h'.run, h'.mem, h'.gathered⟩

theorem Accrued.poll (h' : Accrued f h l ds) (ht : t < l.threads.size) (he : t ∉ h.ended)
    (hs : l.ByScopes (l.future f).next.charges) :
    Accrued f h (l.perform t (.poll f)).1 (l.outlay t (l.future f).next.charges ++ ds) := by
  obtain ⟨hsound, hcarries, hheld⟩ := h'.run.reach
  have hready : Ready t l := ⟨hsound, hcarries, ht⟩
  obtain ⟨new, hjournal, hconfined⟩ := poll_confined hready hheld h'.mem h'.run.attributed hs
  refine ⟨h'.run.act (a := .poll f) ht he h'.mem, h'.mem, ?_⟩
  show HeapLedger.gathered ((l.poll t f).1.future f).account.context (l.poll t f).1.journal = _
  rw [(poll_restores hready hheld h'.mem).2, hjournal, gathered_append, hconfined.gathered, h'.gathered]

/-- Nothing else adds to it. -/
theorem Accrued.other (h' : Accrued f h l ds) {a : Action} (ht : t < l.threads.size) (he : t ∉ h.ended)
    (ha : l.Admits h a) (hp : a ≠ .poll f) (hd : a ≠ .dropFuture f) :
    Accrued f (h.after t a (l.perform t a).2) (l.perform t a).1 ds := by
  obtain ⟨hsound, hcarries, hheld⟩ := h'.run.reach
  have hshuns := perform_shuns hheld ⟨hsound, hcarries, ht⟩ h'.mem ha hp hd
  obtain ⟨new, hjournal, houtside⟩ := hshuns.outside
  have hrun := h'.run.act ht he ha
  have hmem := mem_futures_after (t := t) (o := (l.perform t a).2) h'.mem hd
  refine ⟨hrun, hmem, ?_⟩
  -- what an account takes in is charged in one of its scopes
  have hnothing : HeapLedger.gathered (l.future f).account.context new = [] := by
    refine gathered_eq_nil fun e hm d hi => ?_
    obtain ⟨-, -, hafter⟩ := hrun.reach
    obtain ⟨v, rfl, -, hscope⟩ := ((hrun.attributed e (hjournal ▸ List.mem_append_left _ hm)).intake _ d hi).2 _
      (hafter.account _ (kept_future hmem)).1 (congrArg Account.context hshuns.account)
    exact houtside _ hm v rfl (hscope.trans (congrArg some hshuns.account))
  rw [hshuns.account, hjournal, gathered_append, hnothing, h'.gathered]
  rfl

end

end Ledger

theorem Worked.accrued {f : FutureId} {h : Holdings} {l : Ledger} {ds : List Delta} (hw : Worked f h l ds) :
    Accrued f h l ds := by
  induction hw with
  | opened hr ht he ha hf => exact hf ▸ accrued_newFuture hr ht he ha
  | start _ ih => exact ih.start
  | poll _ ht he hs ih => exact ih.poll ht he hs
  | other _ ht he ha hp hd ih => exact ih.other ht he ha hp hd

/-! ## Accounted futures -/

/-- A future is opened and polled on any threads, with anything done between the polls. Whatever the thread is in, every
charge of the next poll, and of the future's drop, is answered with the future's account, whose context takes it in while
no other context takes in anything, unless the thread is inside a hook, where all of these are refused. After a poll, and
after the drop, every thread is in the scopes it was in before. The drop charges inside the account's scope, and then the
account is closed from outside of its scopes by one flush, after which nothing happens to its context any more. What the
context has committed then is what was charged by the polls and by the drop, unless an addition was cut off. -/
theorem future_accounts {f : FutureId} {h : Holdings} {l : Ledger} {ds : List Delta} (hw : Worked f h l ds)
    {t : ThreadId} (ht : t < l.threads.size) :
    let a := (l.future f).account
    Restores l (l.poll t f).1 ∧
    (l.ByScopes (l.future f).next.charges → ∃ new, (l.poll t f).1.journal = new ++ l.journal ∧
      l.Confined t a (.polled (l.future f).name) (l.future f).next.charges new) ∧
    ∃ l₁ later, Restores l l₁ ∧ l₁.Closes t a later (l.dropFuture t f) ∧ Restores l (l.dropFuture t f) ∧
      (∀ l', Passes (l.dropFuture t f) l' → l'.feedings a.context = (l.dropFuture t f).feedings a.context ∧
        l'.commits a.context = (l.dropFuture t f).commits a.context) ∧
      (l.ByScopes (l.future f).onDrop → ∃ new, l₁.journal = new ++ l.journal ∧
        l.Confined t a (.dropped (l.future f).name) (l.future f).onDrop new ∧
        (Cache.Exact ((l.dropFuture t f).context a.context).cache.threshold []
            ((l.dropFuture t f).feedings a.context) →
          total ((l.dropFuture t f).commits a.context) = total (l.outlay t (l.future f).onDrop ++ ds))) := by
  intro a
  obtain ⟨hrun, hmem, hgathered⟩ := hw.accrued
  obtain ⟨hsound, hcarries, hheld⟩ := hrun.reach
  have hready : Ready t l := ⟨hsound, hcarries, ht⟩
  have hmoves : Moves t (l, []) (l.dropFuture t f, []) := perform_moves (a := .dropFuture f) hheld hready hmem
  have hafter := Moves.ready hready hmoves
  have htold := Passes.told hrun.told hmoves.passes
  obtain ⟨l₁, later, hinside, hcloses, hrestores, hwork⟩ := dropFuture_closes hready hheld hmem hrun.attributed
  have hlt : a.context < (l.dropFuture t f).contexts.size := Nat.lt_of_lt_of_le
    (hsound.opened _ (hheld.account _ (kept_future hmem)).1).1.1 (Passes.onward hrun.told hmoves.passes).contexts_size
  refine ⟨(poll_restores hready hheld hmem).1, poll_confined hready hheld hmem hrun.attributed,
    l₁, later, hinside, hcloses, hrestores, fun l' hp => (Passes.onward htold hp).closed _ hlt hcloses.closed, fun hs => ?_⟩
  obtain ⟨new, hjournal, hconfined⟩ := hwork hs
  refine ⟨new, hjournal, hconfined, fun he => ?_⟩
  rw [total_commits ((Moves.flows hready hmoves).fed hrun.fed) hafter.sound hlt hcloses.closed he, hcloses.journal,
    gathered_append, gathered_eq_nil hcloses.intake, List.nil_append, gathered_close, hjournal, gathered_append,
    hconfined.gathered, hgathered]

/-! ## A future that panics and moves -/

/-- Within a scope of another account, a future was opened and has panicked in its first poll. Then another thread was
started. -/
def panicked : Ledger :=
  let polls : List PollScript := [{ charges := [⟨0, 7⟩, ⟨0, 9⟩], ending := .panic "stop" }]
  (((entered.perform 0 (.newFuture "job" polls [⟨0, -4⟩] 0 0)).1.perform 0 (.poll 0)).1).newThread.1

theorem worked_panicked : Worked 0 { accounts := [⟨⟨1⟩, 0⟩], futures := [0] } panicked [9, 7] := by
  let polls : List PollScript := [{ charges := [⟨0, 7⟩, ⟨0, 9⟩], ending := .panic "stop" }]
  have hadmits : entered.Admits { accounts := [⟨⟨1⟩, 0⟩] } (.newFuture "job" polls [⟨0, -4⟩] 0 0) := by
    unfold Admits Serves
    decide
  have hopened := Worked.opened (f := 0) run_entered (t := 0) (by decide) (by decide) hadmits rfl
  have hpolled := hopened.poll (t := 0) (by decide) (by decide) (by unfold ByScopes; decide)
  exact hpolled.start

theorem future_accounts_panicked : 1 < panicked.threads.size ∧ Restores panicked (panicked.poll 1 0).1 ∧
    total ((panicked.dropFuture 1 0).commits 1) = 7 + 9 - 4 := by
  have hsize : 1 < panicked.threads.size := by decide
  obtain ⟨hpoll, -, l₁, later, -, -, -, -, hdrop⟩ := future_accounts worked_panicked hsize
  obtain ⟨new, -, -, htotal⟩ := hdrop (by unfold ByScopes; decide)
  exact ⟨hsize, hpoll, htotal (by decide +kernel)⟩

end HeapLedger
