import HeapLedger.Proofs.ActionMoves

/-!
# What runs reach

After every run the ledger is sound, threads hold what they have parked, and whatever is in the hands of
those who act is open: each account is kept by one of them, by one future, or by nobody any more, and
each context that is published by hand is nobody's account and no thread's own.
-/

namespace HeapLedger

open Ledger

namespace Ledger

structure Manual (l : Ledger) (c : ContextId) : Prop where
  lt : c < l.contexts.size
  account : ∀ a, l.Opened a → a.context ≠ c
  home : ∀ t s, (l.thread t).home ≠ .settled s c

def keptAccounts (l : Ledger) (h : Holdings) : List Account :=
  h.accounts ++ l.orphans ++ h.futures.map fun f => (l.future f).account

/-- What is in hands is open, and no account is kept twice. -/
structure Held (h : Holdings) (l : Ledger) : Prop where
  once : (l.keptAccounts h).Nodup
  account : ∀ a ∈ l.keptAccounts h, l.Opened a ∧ (l.context a.context).closed = false
  future : ∀ f ∈ h.futures, f < l.futures.size
  unscoped : ∀ f ∈ h.futures, l.inScope (l.future f).account = false
  manual : ∀ c ∈ h.contexts, l.Manual c ∧ (l.context c).closed = false
  manual_once : h.contexts.Nodup

theorem held_empty : Held {} {} where
  once := List.nodup_nil
  account _ h := by cases h
  future _ h := by cases h
  unscoped _ h := by cases h
  manual _ h := by cases h
  manual_once := List.nodup_nil

section
variable {h h' : Holdings} {l l' : Ledger}

theorem Still.manual (hst : Still l l') {c : ContextId} (hm : l.Manual c) : l'.Manual c where
  lt := Nat.lt_of_lt_of_le hm.lt hst.contexts_size
  account a ha hc := by
    rcases hst.fresh a ha with ha | ha
    · exact hm.account a ha hc
    · exact absurd hm.lt (Nat.not_lt.mpr (hc ▸ ha))
  home t s hc := by
    rcases hst.home t s c hc with hc | hc
    · exact hm.home t s hc
    · exact absurd hm.lt (Nat.not_lt.mpr hc)

theorem Still.keptAccounts (hst : Still l l') (h : Holdings) : l'.keptAccounts h = l.keptAccounts h := by
  simp only [Ledger.keptAccounts, future, hst.orphans, hst.futures]

theorem Held.still (hh : Held h l) (hst : Still l l') : Held h l' where
  once := hst.keptAccounts h ▸ hh.once
  account a ha := by
    obtain ⟨hopened, hopen⟩ := hh.account a (hst.keptAccounts h ▸ ha)
    exact ⟨hst.opened a hopened, (hst.closed _).trans hopen⟩
  future f hf := hst.futures ▸ hh.future f hf
  unscoped f hf := by
    rw [Ledger.future, hst.futures]
    exact hst.inScope (hh.unscoped f hf)
  manual c hc := ⟨hst.manual (hh.manual c hc).1, (hst.closed c).trans (hh.manual c hc).2⟩
  manual_once := hh.manual_once

theorem Held.drop (hh : Held h l) {orphans : List Account}
    (hn : (Ledger.keptAccounts { l with orphans } h').Nodup)
    (ha : ∀ a ∈ Ledger.keptAccounts { l with orphans } h', a ∈ l.keptAccounts h)
    (hf : h'.futures.Sublist h.futures) (hc : h'.contexts.Sublist h.contexts) :
    Held h' { l with orphans } where
  once := hn
  account a hm := hh.account a (ha a hm)
  future f hm := hh.future f (hf.subset hm)
  unscoped f hm := hh.unscoped f (hf.subset hm)
  manual c hm := ⟨{ (hh.manual c (hc.subset hm)).1 with }, (hh.manual c (hc.subset hm)).2⟩
  manual_once := hh.manual_once.sublist hc

theorem Held.close (hh : Held h l) {t : ThreadId} {c : ContextId} (hr : Ready t l) (hcl : l.Closable c)
    (ha : ∀ a ∈ l.keptAccounts h, a.context ≠ c) (hc : c ∉ h.contexts) : Held h (l.closeContext t c) := by
  let closed : Ledger := l.modifyContext c fun ctx => { ctx with closed := true }
  have hread : ∀ j, j ≠ c → (closed.context j).closed = (l.context j).closed := by
    intro j hj
    exact congrArg Context.closed (Table.get_modify_ne _ _ (Ne.symm hj))
  have hclosed : Held h closed := {
    hh with
    account := fun a hm => ⟨(hh.account a hm).1, (hread _ (ha a hm)).trans (hh.account a hm).2⟩
    manual := fun j hm => by
      obtain ⟨hman, hopen⟩ := hh.manual j hm
      refine ⟨{ hman with lt := lt_of_lt_of_eq hman.lt (contexts_size_modifyContext ..).symm }, ?_⟩
      exact (hread j fun he => hc (he ▸ hm)).trans hopen }
  have hmove : Move t (l, []) (l.shut c, _) := .close hcl
  have hstill : Still closed (l.closeContext t c) :=
    (still_drain closed c).trans (shut_chargings (q := []) (hmove.ready hr)).still
  exact hclosed.still hstill

theorem Held.closeAccount (hh : Held h l) {t : ThreadId} {a : Account} (hr : Ready t l) (ho : l.Opened a)
    (hopen : (l.context a.context).closed = false) (hs : l.inScope a = false) (ha : a ∉ l.keptAccounts h) :
    Held h (l.closeAccount t a) := by
  have hnotice : Tending t (l, []) (l.notice (.accountClosed a.key (l.context a.context).pending), []) :=
    .notice _
  refine (hh.still hnotice.still).close (Tendings.ready hr (.single hnotice))
    { closable_account hr.sound ho hopen hs with } ?_ ?_
  · intro b hb he
    have hb : b ∈ l.keptAccounts h := hb
    obtain rfl := hr.sound.opened_inj b a (hh.account b hb).1 ho (.inr he)
    exact ha hb
  · intro hc
    exact (hh.manual _ hc).1.account a ho rfl

/-! ## Letting go of accounts -/

theorem Held.letGo (hh : Held h l) {a : Account} {orphans : List Account}
    (hp : (l.keptAccounts h).Perm (a :: Ledger.keptAccounts { l with orphans } h'))
    (hf : h'.futures.Sublist h.futures) (hc : h'.contexts.Sublist h.contexts) :
    Held h' { l with orphans } ∧ a ∉ Ledger.keptAccounts { l with orphans } h' := by
  obtain ⟨hna, hn⟩ := List.nodup_cons.mp (hp.nodup_iff.mp hh.once)
  exact ⟨hh.drop hn (fun b hb => hp.mem_iff.mpr (List.mem_cons_of_mem _ hb)) hf hc, hna⟩

theorem kept_erase_account {a : Account} (ha : a ∈ h.accounts) :
    (l.keptAccounts h).Perm (a :: l.keptAccounts { h with accounts := h.accounts.erase a }) :=
  ((List.perm_cons_erase ha).append_right _).append_right _

theorem kept_erase_orphan {a : Account} (ha : a ∈ l.orphans) :
    (l.keptAccounts h).Perm (a :: Ledger.keptAccounts { l with orphans := l.orphans.erase a } h) :=
  (((List.perm_cons_erase ha).append_left _).append_right _).trans
    (List.perm_middle.append_right _)

theorem kept_erase_future {f : FutureId} (hf : f ∈ h.futures) :
    (l.keptAccounts h).Perm
      ((l.future f).account :: l.keptAccounts { h with futures := h.futures.erase f }) :=
  (((List.perm_cons_erase hf).map _).append_left _).trans List.perm_middle

section
variable {t : ThreadId}

theorem Held.closeOrphan (hh : Held h l) (hr : Ready t l) {a : Account} (ho : l.Opened a)
    (hopen : (l.context a.context).closed = false) : Held h (l.closeOrphan t a) := by
  unfold Ledger.closeOrphan
  split
  · rename_i hc
    simp only [Bool.and_eq_true, Bool.not_eq_true', List.contains_iff_mem] at hc
    obtain ⟨hheld, hnot⟩ := hh.letGo (kept_erase_orphan hc.1) (List.Sublist.refl _) (List.Sublist.refl _)
    have horphan : Move t (l, []) ({ l with orphans := l.orphans.erase a }, []) := .orphans _
    exact hheld.closeAccount (horphan.ready hr) ho hopen hc.2 hnot
  · exact hh

theorem Held.closeKept (hh : Held h l) (hr : Ready t l) {a : Account} (ha : a ∈ h.accounts)
    (hs : l.inScope a = false) :
    Held { h with accounts := h.accounts.erase a } (l.closeAccount t a) := by
  obtain ⟨hheld, hnot⟩ := hh.letGo (kept_erase_account ha) (List.Sublist.refl _) (List.Sublist.refl _)
  obtain ⟨ho, hopen⟩ := hh.account a ((kept_erase_account ha).mem_iff.mpr (List.mem_cons_self ..))
  exact hheld.closeAccount hr ho hopen hs hnot

theorem Held.release (hh : Held h l) (hr : Ready t l) {a : Account} (ha : a ∈ h.accounts) :
    Held { h with accounts := h.accounts.erase a } (l.release t a) := by
  unfold Ledger.release
  split
  · have hp : (l.keptAccounts h).Perm (Ledger.keptAccounts { l with orphans := a :: l.orphans }
        { h with accounts := h.accounts.erase a }) :=
      (kept_erase_account ha).trans (List.perm_middle.symm.append_right _)
    exact hh.drop (hp.nodup_iff.mp hh.once) (fun b hb => hp.mem_iff.mpr hb) (List.Sublist.refl _)
      (List.Sublist.refl _)
  · rename_i hs
    exact hh.closeKept hr ha (Bool.eq_false_iff.mpr hs)

/-! ## Scopes -/

theorem Held.enter (hh : Held h l) {a : Account} (ha : a ∈ h.accounts) : Held h (l.enter t a) := by
  have hne : ∀ f ∈ h.futures, (l.future f).account ≠ a := by
    intro f hf he
    have hnot := (List.nodup_cons.mp ((kept_erase_future hf).nodup_iff.mp hh.once)).1
    exact hnot (he ▸ List.mem_append_left _ (List.mem_append_left _ ha))
  exact { hh with
    unscoped := fun f hf => by
      refine inScope_eq_false_iff.mpr fun j sc hsc => ?_
      have hold := inScope_eq_false_iff.mp (hh.unscoped f hf) j
      rw [Ledger.enter, thread_modifyThread] at hsc
      split at hsc
      · rename_i hj
        rcases List.mem_cons.mp hsc with rfl | hsc
        · exact (hne f hf).symm
        · exact hold sc hsc
      · exact hold sc hsc
    manual := fun c hc => by
      obtain ⟨hm, ho⟩ := hh.manual c hc
      refine ⟨{ hm with home := fun j s hj => hm.home j s ?_ }, ho⟩
      rw [← hj]
      exact (Table.get_modify_of_eq _ t j Thread.home fun _ => by rfl).symm }

theorem Held.leave (hh : Held h l) : Held h (l.leave t) :=
  { hh with
    unscoped := fun f hf => by
      refine inScope_eq_false_iff.mpr fun j sc hsc => ?_
      have hold := inScope_eq_false_iff.mp (hh.unscoped f hf) j
      rw [Ledger.leave, thread_modifyThread] at hsc
      split at hsc
      · refine hold sc ?_
        rename_i hj
        obtain ⟨rfl, _⟩ := hj
        unfold Thread.leave at hsc
        split at hsc
        · exact hsc
        · rename_i hs
          rw [hs]
          exact List.mem_cons_of_mem _ hsc
      · exact hold sc hsc
    manual := fun c hc => by
      obtain ⟨hm, ho⟩ := hh.manual c hc
      refine ⟨{ hm with home := fun j s hj => hm.home j s ?_ }, ho⟩
      rw [← hj]
      refine (Table.get_modify_of_eq _ t j Thread.home fun th => ?_).symm
      unfold Thread.leave
      split <;> rfl }

theorem Held.leaveScope (hh : Held h l) (hr : Ready t l) : Held h (l.leaveScope t) := by
  unfold Ledger.leaveScope
  cases hs : (l.thread t).scopes with
  | nil => exact hh
  | cons sc outer =>
    have hleave : Move t (l, []) (l.leave t, []) := .leave
    obtain ⟨ho, hopen⟩ := (hr.sound.thread t).scope sc (hs ▸ List.mem_cons_self ..)
    exact (hh.leave (t := t)).closeOrphan (hleave.ready hr) ho hopen

theorem Held.unwind : ∀ (n : Nat) {l : Ledger}, Held h l → Ready t l → Held h (l.unwind t n)
  | 0, _, hh, _ => hh
  | n + 1, _, hh, hr => Held.unwind n (hh.leaveScope hr) (Leavings.ready hr (leaveScope_leavings (q := []) hr))

/-! ## The end of a thread -/

theorem Held.closeHome (hh : Held h l) (hr : Ready t l) : Held h (l.closeHome t) := by
  unfold Ledger.closeHome
  cases hhome : (l.thread t).home with
  | settled s c =>
    refine (hh.still (still_endHome l)).close (ready_endHome hr) (closable_home hr.sound hhome) ?_ ?_
    · intro a ha
      exact ((hr.sound.thread t).home s c hhome).2.2 a (hh.account a ha).1
    · intro hc
      exact (hh.manual c hc).1.home t s hhome
  | absent => exact hh
  | closed => exact hh

theorem Held.runExitCharges (hh : Held h l) (hr : Ready t l) : Held h (l.runExitCharges t) := by
  have hall : Chargings t (l, []) (l.chargeAll t .atExit (l.thread t).exitCharges, []) :=
    chargeAll_chargings (hr.sound.thread t).exit_requests hr
  unfold Ledger.runExitCharges
  dsimp only
  split
  · exact (hh.still hall.still).closeHome (hall.ready hr)
  · exact hh.still hall.still

theorem Held.destroy (hh : Held h l) (hr : Ready t l) (d : Destructor) : Held h (destroy t l d) := by
  cases d with
  | home => exact hh.closeHome hr
  | exitCharges => exact hh.runExitCharges hr

theorem Held.destroys : ∀ (ds : List Destructor) {l : Ledger}, Held h l → Ready t l →
    Held h (ds.foldl (Ledger.destroy t) l)
  | [], _, hh, _ => hh
  | d :: ds, _, hh, hr => Held.destroys ds (hh.destroy hr d) (Leavings.ready hr (destroy_leavings (q := []) hr d))

theorem Held.exit (hh : Held h l) (hr : Ready t l) : Held h (l.exit t) := by
  have hbinding := (unbindWorker_minors (t := t) (l := l.unwind t (l.depth t)) (q := [])).tendings.still
  have hguard :=
    (unguardThread_minors (t := t) (l := ((l.unwind t (l.depth t)).unbindWorker t).1) (q := [])).tendings.still
  have hready : Ready t (l.unloaded t) := Leavings.ready hr (unloaded_leavings (q := []) hr)
  exact Held.destroys _ (((hh.unwind (l.depth t) hr).still hbinding).still hguard) hready

/-! ## Accounts and futures -/

theorem opened_openAccount (l : Ledger) (s : ServiceId) (i : TrackerId) :
    (l.openAccount s i).1.Opened ⟨⟨l.nextTask⟩, l.contexts.size⟩ := List.mem_cons_self ..

theorem open_openAccount (l : Ledger) (s : ServiceId) (i : TrackerId) :
    ((l.openAccount s i).1.context l.contexts.size).closed = false := by
  show ((l.contexts.add _).get l.contexts.size).closed = false
  rw [Table.get_add, if_pos rfl]

theorem new_not_kept (hh : Held h l) (hs : Sound l) (k : TaskKey) :
    (⟨k, l.contexts.size⟩ : Account) ∉ l.keptAccounts h := by
  intro ha
  exact absurd (hs.opened _ (hh.account _ ha).1).1.1 (Nat.lt_irrefl _)

theorem Held.openAccount (hh : Held h l) (hs : Sound l) (s : ServiceId) (i : TrackerId) :
    Held { h with accounts := (l.openAccount s i).2 :: h.accounts } (l.openAccount s i).1 := by
  have hnew := hh.still (still_openAccount l (s := s) (i := i))
  exact { hnew with
    once := List.nodup_cons.mpr ⟨new_not_kept hh hs ⟨l.nextTask⟩, hnew.once⟩
    account := List.forall_mem_cons.mpr ⟨⟨opened_openAccount l s i, open_openAccount l s i⟩, hnew.account⟩ }

theorem future_add {f : FutureId} (hf : f < l.futures.size) (new : Future) :
    (l.futures.add new).get f = l.future f := (Table.get_add ..).trans (if_neg (Nat.ne_of_lt hf))

theorem Held.newFuture (hh : Held h l) (hs : Sound l) {s : ServiceId} {i : TrackerId} {name : String}
    {polls : List PollScript} {onDrop : List Request} :
    Held { h with futures := l.futures.size :: h.futures } (l.newFuture s i name polls onDrop).1 := by
  let new : Future := { name, account := (l.openAccount s i).2, polls, onDrop }
  have hopen := hh.still (still_openAccount l (s := s) (i := i))
  have hold : ∀ f ∈ h.futures, (l.futures.add new).get f = l.future f := fun f hf => future_add (hh.future f hf) new
  have hself : (l.futures.add new).get l.futures.size = new := (Table.get_add ..).trans (if_pos rfl)
  have hkept : (l.newFuture s i name polls onDrop).1.keptAccounts
      { h with futures := l.futures.size :: h.futures } =
      h.accounts ++ l.orphans ++ new.account :: h.futures.map fun f => (l.future f).account := by
    show h.accounts ++ l.orphans ++ ((l.futures.add new).get l.futures.size).account ::
      (h.futures.map fun f => ((l.futures.add new).get f).account) = _
    rw [hself]
    congr 2
    exact List.map_congr_left fun f hf => congrArg Future.account (hold f hf)
  have hperm : (h.accounts ++ l.orphans ++ new.account :: h.futures.map fun f => (l.future f).account).Perm
      (new.account :: l.keptAccounts h) := List.perm_middle
  have hunscoped : l.inScope new.account = false := by
    refine inScope_eq_false_iff.mpr fun t sc hsc he => ?_
    have hopened := ((hs.thread t).scope sc hsc).1
    exact absurd (hs.opened _ (he ▸ hopened)).1.1 (Nat.lt_irrefl _)
  exact { hopen with
    once := by
      rw [hkept]
      exact hperm.nodup_iff.mpr (List.nodup_cons.mpr ⟨new_not_kept hh hs ⟨l.nextTask⟩, hh.once⟩)
    account := fun a ha => by
      rw [hkept] at ha
      rcases List.mem_cons.mp (hperm.mem_iff.mp ha) with rfl | ha
      · exact ⟨opened_openAccount l s i, open_openAccount l s i⟩
      · exact hopen.account a ha
    future := fun f hf => by
      show f < (l.futures.add new).size
      rw [Table.size_add]
      rcases List.mem_cons.mp hf with rfl | hf
      · exact Nat.lt_succ_self _
      · exact Nat.lt_succ_of_lt (hh.future f hf)
    unscoped := fun f hf => by
      show (l.openAccount s i).1.inScope ((l.futures.add new).get f).account = false
      refine (still_openAccount l).inScope ?_
      rcases List.mem_cons.mp hf with rfl | hf
      · rw [hself]
        exact hunscoped
      · rw [hold f hf]
        exact hh.unscoped f hf
    manual := fun c hc => ⟨{ (hopen.manual c hc).1 with }, (hopen.manual c hc).2⟩ }

/-- The work that futures have left does not matter. -/
theorem Held.setFutures (hh : Held h l) {fs : Table Future}
    (ha : ∀ f, (fs.get f).account = (l.future f).account) (hs : l.futures.size ≤ fs.size) :
    Held h { l with futures := fs } := by
  have hkept : Ledger.keptAccounts { l with futures := fs } h = l.keptAccounts h := by
    show h.accounts ++ l.orphans ++ (h.futures.map fun f => (fs.get f).account) = _
    simp only [ha, Ledger.keptAccounts]
  exact {
    once := hkept ▸ hh.once
    account := fun a hm => hh.account a (hkept ▸ hm)
    future := fun f hf => Nat.lt_of_lt_of_le (hh.future f hf) hs
    unscoped := fun f hf => by
      show l.inScope (fs.get f).account = false
      rw [ha]
      exact hh.unscoped f hf
    manual := fun c hc => ⟨{ (hh.manual c hc).1 with }, (hh.manual c hc).2⟩
    manual_once := hh.manual_once }

theorem kept_future {f : FutureId} (hf : f ∈ h.futures) : (l.future f).account ∈ l.keptAccounts h :=
  (kept_erase_future hf).mem_iff.mpr (List.mem_cons_self ..)

/-- Charges within a scope of its own leave scopes as they are. -/
theorem within_charges_still (hr : Ready t l) {a : Account} (ha : l.Opened a)
    (ho : (l.context a.context).closed = false) (event : Charge → Event) {rs : List Request} (hs : l.Serves rs) :
    Still l (l.within t a (·.chargeAll t event rs)) := by
  have henter : Move t (l, []) (l.enter t a, []) := .enter ha ho
  have hall : Chargings t (l.enter t a, []) ((l.enter t a).chargeAll t event rs, []) :=
    chargeAll_chargings hs (henter.ready hr)
  exact within_still (·.chargeAll t event rs) hr.thread hall.still

theorem Held.poll (hh : Held h l) (hr : Ready t l) {f : FutureId} (hf : f ∈ h.futures) :
    Held h (l.poll t f).1 := by
  obtain ⟨ha, ho⟩ := hh.account _ (kept_future hf)
  have hnext := nextPoll_move (t := t) (q := []) hr.sound f
  refine (hh.setFutures (fun j => ?_) (Nat.le_of_eq (Table.size_modify ..).symm)).still
    (within_charges_still (hnext.ready hr) ha ho _ (serves_next hr.sound f))
  exact Table.get_modify_of_eq _ f j Future.account fun _ => rfl

theorem Held.dropFuture (hh : Held h l) (hr : Ready t l) {f : FutureId} (hf : f ∈ h.futures) :
    Held { h with futures := h.futures.erase f } (l.dropFuture t f) := by
  obtain ⟨ha, ho⟩ := hh.account _ (kept_future hf)
  have hstill := within_charges_still hr ha ho (.dropped (l.future f).name) (hr.sound.future_requests f).2
  obtain ⟨hheld, hnot⟩ := hh.letGo (kept_erase_future hf) List.erase_sublist (List.Sublist.refl _)
  have hwithin := within_moves (q := []) hr (·.chargeAll t (.dropped (l.future f).name) (l.future f).onDrop)
    ha ho fun h' => chargeAll_chargings (hr.sound.future_requests f).2 h'
  refine (hheld.still hstill).closeAccount (Moves.ready hr hwithin) (hstill.opened _ ha) ((hstill.closed _).trans ho)
    (hstill.inScope (hh.unscoped f hf)) ?_
  rw [hstill.keptAccounts]
  exact hnot

/-! ## Contexts that are published by hand -/

theorem activateOr_tendings {r : RosterId} {key : Option TaskKey}
    (hk : ∀ k ∈ key, k ∉ l.deadKeys → ∀ c, l.Names k c → (l.context c).closed = false) :
    Tendings t (l, []) ((l.activateOr t r key).1, []) := by
  cases key with
  | none => exact .single (.activate r fun k hn => by cases hn)
  | some k =>
    unfold activateOr
    dsimp only
    split
    · exact .refl
    · rename_i hd
      refine .single (.activate r fun k' hk' => hk k' hk' ?_)
      obtain rfl : k = k' := Option.some.inj hk'
      exact fun hm => hd (List.contains_iff_mem.mpr hm)

theorem key_of_inUse {c : ContextId} (hu : l.inUse c = false) {r : RosterId} {j : ThreadId} {k : TaskKey}
    (hk : (l.roster r).active.find? j = some k) : k ∉ (l.context c).published := by
  intro hp
  rcases l.rosters.get_mem r with hm | hd
  · refine absurd (hu.symm.trans (List.any_eq_true.mpr ⟨_, hm, List.any_eq_true.mpr ⟨(j, k), ?_⟩⟩)) nofun
    exact ⟨Directory.mem_of_find? hk, List.contains_iff_mem.mpr hp⟩
  · rw [roster, hd] at hk
    cases hk

theorem Held.newContext (hh : Held h l) (hs : Sound l) (s : ServiceId) (k : TaskKey) (i : TrackerId) :
    Held { h with contexts := l.contexts.size :: h.contexts } (l.newContext s k i false).1 := by
  have hnew := hh.still (still_addContext l { identity := .task k, tracker := i, initialized := false, cache :=
    { threshold := (l.service s).threshold } } rfl)
  have hlt : l.contexts.size < (l.newContext s k i false).1.contexts.size :=
    lt_of_lt_of_eq (Nat.lt_succ_self _) (Table.size_add ..).symm
  have hopen : ((l.newContext s k i false).1.context l.contexts.size).closed = false := by
    show ((l.contexts.add _).get l.contexts.size).closed = false
    rw [Table.get_add, if_pos rfl]
  have hmanual : (l.newContext s k i false).1.Manual l.contexts.size := {
    lt := hlt
    account := fun a ha => Nat.ne_of_lt (hs.opened a ha).1.1
    home := fun t s hc => absurd ((hs.thread t).home s _ hc).1.1 (Nat.lt_irrefl _) }
  exact { hnew with
    manual := List.forall_mem_cons.mpr ⟨⟨hmanual, hopen⟩, hnew.manual⟩
    manual_once := List.nodup_cons.mpr ⟨fun hc => Nat.lt_irrefl _ (hh.manual _ hc).1.lt, hh.manual_once⟩ }

theorem Manual.closable {c : ContextId} (hm : l.Manual c) (ho : (l.context c).closed = false) (hs : Sound l)
    (hu : l.inUse c = false) : l.Closable c where
  lt := hm.lt
  live := ho
  home := hm.home
  scope j sc hsc := hm.account sc.account ((hs.thread j).scope sc hsc).1
  key _ _ _ hk := key_of_inUse hu hk

theorem closable_withdraw {c : ContextId} (hc : l.Closable c) (keys deadKeys : List TaskKey) :
    Closable { l with rosters := l.rosters.map (·.withdraw keys), deadKeys } c where
  lt := hc.lt
  live := hc.live
  home := hc.home
  scope := hc.scope
  key r j k hk := by
    refine hc.key r j k ?_
    have hk : ((l.rosters.map (·.withdraw keys)).get r).active.find? j = some k := hk
    rw [Table.get_map _ r (withdraw_default keys)] at hk
    exact hk

theorem withdraw_tendings (keys deadKeys : List TaskKey) :
    Tendings t (l, []) ({ l with rosters := l.rosters.map (·.withdraw keys), deadKeys }, []) :=
  let withdrawn : Ledger := { l with rosters := l.rosters.map (·.withdraw keys) }
  have hwithdraw : Tendings t (l, []) (withdrawn, []) := .single (.withdraw keys)
  hwithdraw.tail
    (.numbers (l := withdrawn) l.heap l.nextThread deadKeys (Nat.le_refl l.nextTask) (Nat.le_refl l.nextThread))

theorem dropContext_moves (hr : Ready t l) {c : ContextId} (hc : l.Closable c) :
    Moves t (l, []) (l.dropContext t c, []) := by
  have hwithdraw := withdraw_tendings (t := t) (l := l) (l.context c).published
    ((l.context c).published ++ l.deadKeys)
  exact hwithdraw.moves.trans (closeContext_moves (closable_withdraw hc _ _) (hwithdraw.ready hr))

theorem Held.dropContext (hh : Held h l) (hr : Ready t l) {c : ContextId} (hc : c ∈ h.contexts)
    (hu : l.inUse c = false) : Held { h with contexts := h.contexts.erase c } (l.dropContext t c) := by
  obtain ⟨hm, ho⟩ := hh.manual c hc
  have hwithdraw := withdraw_tendings (t := t) (l := l) (l.context c).published
    ((l.context c).published ++ l.deadKeys)
  have hheld : Held { h with contexts := h.contexts.erase c } l :=
    hh.drop hh.once (fun _ ha => ha) (List.Sublist.refl _) List.erase_sublist
  refine (hheld.still hwithdraw.still).close (hwithdraw.ready hr)
    (closable_withdraw (hm.closable ho hr.sound hu) _ _) ?_ hh.manual_once.not_mem_erase
  intro a ha
  exact hm.account a (hheld.account a (hwithdraw.still.keptAccounts _ ▸ ha)).1

section
variable {old new : ContextId} (hne : new ≠ old) (hh : Held h l) (hr : Ready t l) (hn : new ∈ h.contexts)

include hh

include hn in
theorem succeed_tending (old : ContextId) : Tending t (l, []) (l.modifyContext new fun ctx =>
    { ctx with published := (l.context old).published ++ ctx.published }, []) :=
  have hm := hh.manual new hn
  .succeed old hm.1.account hm.1.home

include hne hr

theorem closable_succeed (ho : old ∈ h.contexts ∧ l.inUse old = false) :
    Closable (l.modifyContext new fun ctx =>
      { ctx with published := (l.context old).published ++ ctx.published }) old := by
  obtain ⟨hm, hopen⟩ := hh.manual old ho.1
  have hc := hm.closable hopen hr.sound ho.2
  exact { hc with
    lt := lt_of_lt_of_eq hc.lt (contexts_size_modifyContext ..).symm
    live := (Table.get_modify_of_eq _ new old Context.closed fun _ => by rfl).trans hopen
    key := fun r j k hk => by
      rw [context_modifyContext, if_neg fun he => hne he.1]
      exact hc.key r j k hk }

include hn

theorem replaceContext_moves
    (ho : (l.context old).closed = true ∨ old ∈ h.contexts ∧ l.inUse old = false) :
    Moves t (l, []) (l.replaceContext t old new, []) := by
  have hsucceed := succeed_tending (t := t) hh hn old
  unfold replaceContext
  dsimp only
  split
  · exact .single (.tending hsucceed)
  · rename_i hopen
    refine Relation.ReflTransGen.head (.tending hsucceed) (closeContext_moves ?_ (Tendings.ready hr (.single hsucceed)))
    exact closable_succeed hne hh hr (ho.resolve_left hopen)

theorem Held.replaceContext
    (ho : (l.context old).closed = true ∨ old ∈ h.contexts ∧ l.inUse old = false) :
    Held { h with contexts := h.contexts.erase old } (l.replaceContext t old new) := by
  have hsucceed := succeed_tending (t := t) hh hn old
  have hheld : Held { h with contexts := h.contexts.erase old } l :=
    hh.drop hh.once (fun _ ha => ha) (List.Sublist.refl _) List.erase_sublist
  unfold Ledger.replaceContext
  dsimp only
  split
  · exact hheld.still hsucceed.still
  · rename_i hopen
    have ho := ho.resolve_left hopen
    refine (hheld.still hsucceed.still).close (Tendings.ready hr (.single hsucceed))
      (closable_succeed hne hh hr ho) ?_ hh.manual_once.not_mem_erase
    intro a ha
    exact (hh.manual old ho.1).1.account a (hheld.account a (hsucceed.still.keptAccounts _ ▸ ha)).1

end

end

end

end Ledger

/-! ## Actions -/

def Action.Stirs : Action → Prop
  | exit | enter _ | leave | unwind _ | closeAccount _ | releaseAccount _ | newFuture .. | poll _
  | dropFuture _ | dropContext _ | replaceContext .. => True
  | _ => False

namespace Ledger

section
variable {h : Holdings} {l : Ledger} {t : ThreadId} (hh : Held h l) (hr : Ready t l)

include hh hr

theorem open_of_holds {c : ContextId} (hc : l.Holds h c) :
    c < l.contexts.size ∧ (l.context c).closed = false := by
  cases hc with
  | context hc => exact (hh.manual c hc).imp_left (·.lt)
  | account ha =>
    exact (hh.account _ (List.mem_append_left _ (List.mem_append_left _ ha))).imp_left fun ho =>
      (hr.sound.opened _ ho).1.1
  | future hf => exact (hh.account _ (kept_future hf)).imp_left fun ho => (hr.sound.opened _ ho).1.1

theorem accept_tendings {c : ContextId} (hc : c ∈ h.contexts) (d : Delta) :
    Tendings t (l, []) (l.accept charge t c d, []) := by
  obtain ⟨hm, ho⟩ := hh.manual c hc
  exact (absorb_chargings obliges_charge hr (.direct hm.lt ho hm.account hm.home)).tendings

theorem perform_tendings {a : Action} (ha : l.Admits h a) (hn : ¬ a.Stirs) :
    Tendings t (l, []) ((l.perform t a).1, []) := by
  cases a with
  | exit | enter | leave | unwind | closeAccount | releaseAccount | newFuture | poll | dropFuture
  | dropContext | replaceContext => exact absurd trivial hn
  | active | inHook | scopedLookup | threadPending | allocatorInfo | describe => exact .refl
  | atExit r => exact .single (.atExit ha)
  | guard => exact guardThread_minors.tendings
  | unguard => exact unguardThread_minors.tendings
  | newThreadKey => exact .single (.numbers l.heap (l.nextThread + 1) l.deadKeys (Nat.le_refl l.nextTask) (Nat.le_succ _))
  | newCounter label parent =>
    exact .single (.newTracker _ parent ha (fun e he => by cases he) fun _ _ h => (TrackerKind.counter.inj h).2.symm)
  | newEcho name parent =>
    exact .single (.newTracker _ parent ha (fun e he => by obtain rfl := TrackerKind.echo.inj he; rfl)
      fun _ _ h => by cases h)
  | bindEcho i charges answers => exact .single (.bindEcho i answers ha)
  | consume i b => exact consume_tendings b ha hr
  | newService settings => exact toldOr_fst .. ▸ newService_tendings ha
  | charge s d => exact (obliges_charge l [] s d hr ha).tendings
  | attach s => exact (settle_chargings ha hr).tendings
  | flushThread s => exact flushThread_tendings hr
  | bindWorker s => exact toldOr_fst .. ▸ (bindWorker_minors s).tendings
  | unbindWorker => exact unbindWorker_minors.tendings
  | forgetBinding => exact .single (.discreet fun _ => by simp)
  | newBare source slots i threshold => exact toldOr_fst .. ▸ .single (.addService source slots threshold ha)
  | chargeBare s d => exact (chargeBare_chargings ha d hr).tendings
  | flushBare s => exact flushHome_tendings hr
  | openAccount s i => exact .single (.openAccount s ha.2)
  | newRoster => exact .single .newRoster
  | newKey => exact .single (.numbers l.heap l.nextThread l.deadKeys (Nat.le_succ l.nextTask) (Nat.le_refl l.nextThread))
  | newContext k s i => exact .single (.newContext s k ha.2)
  | markInitialized c => exact .single (.markInitialized c)
  | consumeContext c d => exact accept_tendings hh hr ha d
  | flushContext c =>
    obtain ⟨hc, ho⟩ := open_of_holds hh hr ha
    exact flush_tendings hc ho hr
  | publish k c r =>
    obtain ⟨hm, ho⟩ := hh.manual c ha.1
    exact .single (.publish r k hm.lt ho hm.account hm.home)
  | unpublish k r => exact .single (.unpublish r k)
  | activate r k => exact activateOr_tendings ha.2
  | newAllocator usable => exact .single (newAllocator_tending hr.sound usable)
  | register m s => exact toldOr_fst .. ▸ register_tendings hr ha.2 m
  | install m name => exact toldOr_fst .. ▸ install_tendings hr m (.recorder name) fun _ he => by cases he
  | allocate m layout granted => exact allocate_tendings hr m layout granted
  | reallocate a size granted => exact reallocate_tendings hr a size granted
  | deallocate a => exact deallocate_tendings hr a
  | usable m a layout => exact countCall_tendings hr m
  | notify m s kind a layout =>
    cases a with
    | none => exact .refl
    | some a => exact chargeBlock_tendings ha.2 hr m kind a layout
  | systemBlocks s sizes align => exact systemBlocks_tendings hr ha sizes align

theorem perform_moves {a : Action} (ha : l.Admits h a) : Moves t (l, []) ((l.perform t a).1, []) := by
  by_cases hs : a.Stirs
  · cases a with
    | exit => exact (exit_leavings hr).moves
    | enter a =>
      obtain ⟨ho, hc⟩ := hh.account a (List.mem_append_left _ (List.mem_append_left _ ha))
      exact .single (.enter ho hc)
    | leave =>
      unfold perform insideScope
      dsimp only
      split
      · exact .refl
      · exact (leaveScope_leavings hr).moves
    | unwind levels =>
      unfold perform insideScope
      dsimp only
      split
      · exact .refl
      · exact (unwind_leavings _ hr).moves
    | closeAccount a =>
      obtain ⟨ho, hc⟩ := hh.account a (List.mem_append_left _ (List.mem_append_left _ ha))
      unfold perform
      dsimp only
      split
      · exact .refl
      · rename_i hn
        exact (closeAccount_leavings ho hc (Bool.eq_false_iff.mpr hn) hr).moves
    | releaseAccount a =>
      obtain ⟨ho, hc⟩ := hh.account a (List.mem_append_left _ (List.mem_append_left _ ha))
      exact (release_leavings ho hc hr).moves
    | newFuture name polls onDrop s i => exact newFuture_moves hr.sound name ha.2.1 ha.2.2.1 ha.2.2.2
    | poll f =>
      obtain ⟨ho, hc⟩ := hh.account _ (kept_future ha)
      exact poll_moves ho hc hr
    | dropFuture f =>
      obtain ⟨ho, hc⟩ := hh.account _ (kept_future ha)
      exact dropFuture_moves ho hc (hh.unscoped f ha) hr
    | dropContext c =>
      unfold perform
      dsimp only
      split
      · exact .refl
      · rename_i hn
        obtain ⟨hm, ho⟩ := hh.manual c ha
        exact dropContext_moves hr (hm.closable ho hr.sound (Bool.eq_false_iff.mpr hn))
    | replaceContext old new => exact replaceContext_moves ha.2.1 hh hr ha.1 ha.2.2
    | _ => cases hs
  · exact (perform_tendings hh hr ha hs).moves

theorem Held.perform {a : Action} (ha : l.Admits h a) :
    Held (h.after t a (l.perform t a).2) (l.perform t a).1 := by
  by_cases hs : a.Stirs
  · cases a with
    | exit => exact { hh.exit hr with }
    | enter a => exact hh.enter ha
    | leave =>
      unfold Ledger.perform insideScope
      dsimp only
      split
      · exact hh
      · exact hh.leaveScope hr
    | unwind levels =>
      unfold Ledger.perform insideScope
      dsimp only
      split
      · exact hh
      · exact hh.unwind _ hr
    | closeAccount a =>
      unfold Ledger.perform
      dsimp only
      split
      · exact hh
      · rename_i hn
        exact hh.closeKept hr ha (Bool.eq_false_iff.mpr hn)
    | releaseAccount a => exact hh.release hr ha
    | newFuture name polls onDrop s i => exact hh.newFuture hr.sound
    | poll f => exact hh.poll hr ha
    | dropFuture f => exact hh.dropFuture hr ha
    | dropContext c =>
      unfold Ledger.perform
      dsimp only
      split
      · exact hh
      · rename_i hn
        exact hh.dropContext hr ha (Bool.eq_false_iff.mpr hn)
    | replaceContext old new => exact Held.replaceContext ha.2.1 hh hr ha.1 ha.2.2
    | _ => cases hs
  · have hstill := hh.still (perform_tendings hh hr ha hs).still
    cases a with
    | openAccount s i => exact hh.openAccount hr.sound s i
    | newContext k s i => exact hh.newContext hr.sound s k i
    | exit | enter | leave | unwind | closeAccount | releaseAccount | newFuture | poll | dropFuture
    | dropContext | replaceContext => exact absurd trivial hs
    | _ => exact hstill

end

end Ledger

/-- After a run the ledger is sound, threads hold what they parked, and what is in hands is open. -/
theorem Run.reach {h : Holdings} {l : Ledger} (hr : Run h l) : Sound l ∧ Carries l ∧ Held h l := by
  induction hr with
  | nil => exact ⟨sound_empty, carries_empty, held_empty⟩
  | @start h l hr ih =>
    obtain ⟨hs, hc, hh⟩ := ih
    have hstart : Tending 0 (l, []) (l.newThread.1, []) := .newThread
    exact ⟨hstart.sound hs, hstart.carries hc, hh.still hstart.still⟩
  | @act h l t a hr ht he ha ih =>
    obtain ⟨hs, hc, hh⟩ := ih
    have hready : Ready t l := ⟨hs, hc, ht⟩
    have hafter := Moves.ready hready (perform_moves hh hready ha)
    exact ⟨hafter.sound, hafter.carries, hh.perform hready ha⟩

end HeapLedger
