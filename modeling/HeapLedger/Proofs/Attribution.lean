import HeapLedger.Proofs.ChargeBuilt
import HeapLedger.Proofs.ChargeResults
import HeapLedger.Proofs.Feed

/-!
# Charges go to the innermost scope

A service that goes by scopes charges the account of the innermost scope on the thread, whatever is remembered
anywhere, and no task when there is no scope. So what an account's context takes in is exactly what is charged inside
its scopes.
-/

namespace HeapLedger

open Ledger

/-- Where a charge goes on a thread with this account in its innermost scope, or in no scope. -/
def Charge.GoesBy (charge : Charge) : Option Account → Prop
  | some a => charge = .task a.key
  | none => ∀ k, charge ≠ .task k

namespace Ledger

/-! ## The source goes by scopes -/

section
variable {l : Ledger} {t : ThreadId} {s : ServiceId}

/-- Only the account of the innermost scope is found. -/
theorem scopedContext_eq_some_iff (h : Sound l) {k : TaskKey} {c : ContextId} :
    l.scopedContext t k = some c ↔ (l.thread t).innermost = some ⟨k, c⟩ := by
  unfold scopedContext
  rw [(h.thread t).active]
  cases (l.thread t).innermost with
  | none => simp
  | some a =>
    obtain ⟨key, context⟩ := a
    simp

/-- The account of a scope is open, and nobody else's. -/
theorem innermost_spec (h : Sound l) {a : Account} (ha : (l.thread t).innermost = some a) :
    l.Opened a ∧ (l.context a.context).closed = false := by
  obtain ⟨sc, hsc, rfl⟩ := Option.map_eq_some_iff.mp ha
  exact (h.thread t).scope sc (List.mem_of_mem_head? hsc)

variable (hs : (l.service s).source = .scopes)

include hs

theorem activeTask_of_scopes (h : Sound l) : l.activeTask t s = (l.thread t).innermost.map (·.key) := by
  unfold activeTask
  rw [hs, ← (h.thread t).active]

theorem innermost_of_active (h : Sound l) {k : TaskKey} (hk : l.activeTask t s = some k) :
    ∃ a, (l.thread t).innermost = some a ∧ a.key = k :=
  Option.map_eq_some_iff.mp ((activeTask_of_scopes hs h).symm.trans hk)

theorem innermost_of_inactive (h : Sound l) (hk : l.activeTask t s = none) : (l.thread t).innermost = none :=
  Option.map_eq_none_iff.mp ((activeTask_of_scopes hs h).symm.trans hk)

theorem known_of_scopes {k : TaskKey} {c : ContextId} (hk : l.Known s k c) : l.Opened ⟨k, c⟩ := by
  unfold Known at hk
  rw [hs] at hk
  exact hk

/-- Whatever is found for the key of the innermost scope is the context of its account. -/
theorem eq_of_finds (h : Sound l) {a : Account} (ha : (l.thread t).innermost = some a) {c : ContextId}
    (hc : l.Finds t s a.key c) : c = a.context := by
  have hopened := known_of_scopes hs (known_of_finds h hc)
  exact (congrArg Account.context (h.opened_inj _ _ hopened (innermost_spec h ha).1 (.inl rfl)) :)

theorem resolved_of_scopes (h : Sound l) {a : Account} (ha : (l.thread t).innermost = some a) :
    l.resolved t s a.key = some a.context := by
  have hcontext : l.taskContext t s a.key = some a.context := by
    unfold taskContext
    rw [hs]
    exact (scopedContext_eq_some_iff h).mpr ha
  unfold resolved
  cases hc : l.reused t s a.key with
  | none => exact hcontext
  | some c =>
    unfold reused at hc
    split at hc
    · exact congrArg some (eq_of_finds hs h ha (.inl hc))
    · cases hc

theorem destination_of_scopes (h : Sound l) : (l.destination t s).GoesBy (l.thread t).innermost := by
  unfold destination
  rw [activeTask_of_scopes hs h]
  cases ha : (l.thread t).innermost with
  | some a =>
    obtain ⟨-, hinit, -⟩ := (h.opened a (innermost_spec h ha).1).1
    simp only [Option.map_some, resolved_of_scopes hs h ha, hinit, if_true]
    rfl
  | none =>
    intro k
    dsimp only [Option.map_none]
    split
    · nofun
    · split <;> nofun
    · split
      · split <;> nofun
      · nofun

end

/-! ## What the journal tells -/

/-- A charge through a service that goes by scopes went to the account of the innermost scope, and no context of
an account took in anything else. -/
structure Attributes (l : Ledger) (e : Entry) : Prop where
  charged : ∀ v, e = .charged v → v.source = .scopes →
    v.charge.GoesBy v.scope ∧ ∀ a ∈ v.scope, v.context = some a.context
  intake : ∀ c d, e.intake? = some (c, d) → c < l.contexts.size ∧
    ∀ a, l.Opened a → a.context = c → ∃ v, e = .charged v ∧ v.source = .scopes ∧ v.scope = some a

def Attributed (l : Ledger) : Prop := ∀ e ∈ l.journal, l.Attributes e

structure Later (l l' : Ledger) : Prop where
  contexts_size : l.contexts.size ≤ l'.contexts.size
  fresh : ∀ a, l'.Opened a → l.Opened a ∨ l.contexts.size ≤ a.context

section
variable {l l' : Ledger} {t : ThreadId} {s : ServiceId} {e : Entry}

theorem Still.later (h : Still l l') : Later l l' := ⟨h.contexts_size, h.fresh⟩

theorem Attributes.later (h : l.Attributes e) (hl : Later l l') : l'.Attributes e where
  charged := h.charged
  intake _ _ he := by
    obtain ⟨hc, hown⟩ := h.intake _ _ he
    refine ⟨Nat.lt_of_lt_of_le hc hl.contexts_size, fun a ha hac => ?_⟩
    rcases hl.fresh a ha with ha | hge
    · exact hown a ha hac
    · exact absurd hc (Nat.not_lt.mpr (hac ▸ hge))

theorem attributes_of_silent (hv : ∀ v, e ≠ .charged v) (hi : e.intake? = none) : l.Attributes e where
  charged v he := absurd he (hv v)
  intake _ _ he := absurd (hi.symm.trans he) nofun

theorem Attributed.append (h : Attributed l) (hl : Later l l') (new : List Entry)
    (hj : l'.journal = new ++ l.journal) (hn : ∀ e ∈ new, l.Attributes e) : Attributed l' := by
  intro e he
  rw [hj] at he
  rcases List.mem_append.mp he with he | he
  · exact (hn e he).later hl
  · exact (h e he).later hl

theorem Attributed.keep (h : Attributed l) (hl : Later l l') (hj : l'.journal = l.journal) : Attributed l' :=
  h.append hl [] hj fun _ he => by cases he

theorem Attributed.silent (h : Attributed l) (hl : Later l l') (new : List Entry)
    (hj : l'.journal = new ++ l.journal) (hn : ∀ e ∈ new, (∀ v, e ≠ .charged v) ∧ e.intake? = none) : Attributed l' :=
  h.append hl new hj fun e he => attributes_of_silent (hn e he).1 (hn e he).2

theorem Attributed.one (h : Attributed l) (hl : Later l l') (hj : l'.journal = e :: l.journal)
    (he : l.Attributes e) : Attributed l' :=
  h.append hl [e] hj fun _ hm => List.mem_singleton.mp hm ▸ he

/-- A charge that goes nowhere, or to the thread, is not made inside a scope. -/
theorem attributes_of_inactive (h : Sound l) {d : Delta} {c : Option ContextId} {charge : Charge}
    (hk : l.activeTask t s = none) (hc : ∀ k, charge ≠ .task k)
    (hi : ∀ c' d', (Entry.charged (l.verdict t s d c charge)).intake? = some (c', d') →
      c' < l.contexts.size ∧ ∀ a, l.Opened a → a.context ≠ c') :
    l.Attributes (.charged (l.verdict t s d c charge)) where
  intake c' d' he := ⟨(hi c' d' he).1, fun a ha hac => absurd hac ((hi c' d' he).2 a ha)⟩
  charged v hv hsource := by
    obtain rfl := (Entry.charged.inj hv).symm
    have hnone : (l.thread t).innermost = none := innermost_of_inactive (s := s) hsource h hk
    show charge.GoesBy (l.thread t).innermost ∧ ∀ a ∈ (l.thread t).innermost, c = some a.context
    rw [hnone]
    exact ⟨hc, fun _ => nofun⟩

/-- A charge for an active key that is skipped is not made inside a scope. -/
theorem attributes_of_declined (h : Sound l) {d : Delta} {c : Option ContextId} {reason : SkipReason}
    (hd : l.Declined t s c reason) : l.Attributes (.charged (l.verdict t s d c (.skipped reason))) := by
  have hinactive : l.activeTask t s = none → l.Attributes (.charged (l.verdict t s d c (.skipped reason))) :=
    fun hk => attributes_of_inactive h hk (fun _ => nofun) fun _ _ he => by cases he
  have hactive : ∀ {k}, l.activeTask t s = some k → (l.service s).source ≠ .scopes →
      l.Attributes (.charged (l.verdict t s d c (.skipped reason))) := by
    refine fun _ hn => ⟨fun v hv hsource => ?_, fun _ _ he => by cases he⟩
    obtain rfl := (Entry.charged.inj hv).symm
    exact absurd hsource hn
  cases hd with
  | absent hk hc =>
    refine hactive hk fun hsource => ?_
    obtain ⟨a, ha, rfl⟩ := innermost_of_active hsource h hk
    unfold taskContext at hc
    rw [hsource] at hc
    exact absurd (hc.symm.trans ((scopedContext_eq_some_iff h).mpr ha)) nofun
  | uninitialized hk hc hi =>
    refine hactive hk fun hsource => ?_
    obtain ⟨a, ha, rfl⟩ := innermost_of_active hsource h hk
    rw [eq_of_finds hsource h ha hc, (h.opened a (innermost_spec h ha).1).1.2.1] at hi
    cases hi
  | exiting hk | foreign hk | unset hk => exact hinactive hk

/-- An account's context takes in what is charged inside the account's scope. -/
theorem attributes_of_intake (h : Sound l) {c : ContextId} {d : Delta} (hi : l.Intake t e c d) :
    l.Attributes e := by
  have hlt := lt_of_intake h hi
  cases hi with
  | @task s k c d hk hc hinit =>
    have hscope : ∀ a, l.Opened a → a.context = c →
        (l.service s).source = .scopes ∧ (l.thread t).innermost = some a := by
      rintro a ha rfl
      have hown := (h.opened a ha).1
      cases hsource : (l.service s).source with
      | scopes =>
        obtain ⟨b, hb, rfl⟩ := innermost_of_active hsource h hk
        have heq := h.opened_inj a b ha (innermost_spec h hb).1 (.inr (eq_of_finds hsource h hb hc))
        exact ⟨rfl, heq ▸ hb⟩
      | roster r =>
        have hknown := known_of_finds h hc
        unfold Known at hknown
        rw [hsource] at hknown
        rw [hown.2.2] at hknown
        cases hknown.1
    refine ⟨fun v hv hsource => ?_, fun c' d' he => ?_⟩
    · obtain rfl := (Entry.charged.inj hv).symm
      obtain ⟨a, ha, rfl⟩ := innermost_of_active (s := s) hsource h hk
      show (Charge.task a.key).GoesBy (l.thread t).innermost ∧ ∀ b ∈ (l.thread t).innermost, some c = some b.context
      rw [ha]
      refine ⟨rfl, fun b hb => ?_⟩
      obtain rfl := Option.some.inj hb
      exact congrArg some (eq_of_finds hsource h ha hc)
    · obtain ⟨rfl, rfl⟩ := Prod.mk.inj (Option.some.inj he)
      exact ⟨hlt, fun a ha hac => ⟨_, rfl, hscope a ha hac⟩⟩
  | thread hk hh hinit =>
    refine attributes_of_inactive h hk (fun _ => nofun) fun c' d' he => ?_
    obtain ⟨rfl, rfl⟩ := Prod.mk.inj (Option.some.inj he)
    exact ⟨hlt, ((h.thread t).home _ _ hh).2.2⟩
  | carried hh hd hn =>
    refine ⟨fun _ hv => (by cases hv), fun c' d' he => ?_⟩
    obtain ⟨rfl, rfl⟩ := Prod.mk.inj (Option.some.inj he)
    exact ⟨hlt, fun a ha hac => absurd hac (((h.thread t).home _ _ hh).2.2 a ha)⟩
  | direct hc ho ha hh =>
    refine ⟨fun _ hv => (by cases hv), fun c' d' he => ?_⟩
    obtain ⟨rfl, rfl⟩ := Prod.mk.inj (Option.some.inj he)
    exact ⟨hlt, fun a hopened hac => absurd hac (ha a hopened)⟩

theorem Attributed.shut (h : Attributed l) (c : ContextId) : Attributed (l.shut c) := by
  refine h.silent ⟨?_, fun a ha => ?_⟩ [.committed c _, .flushed c] rfl (by simp [Entry.intake?])
  · refine Nat.le_of_eq (Eq.symm ?_)
    exact (contexts_size_modifyContext ..).trans (contexts_size_modifyContext ..)
  · exact .inl ((opened_post (by simp)).mp ((opened_post (by simp)).mp ha))

theorem journal_park (d : Delta) : ((l.park t s d).2 = .parked ∨ (l.park t s d).2 = .skipped .foreignThreadContext) ∧
    (l.park t s d).1.journal = .charged (l.verdict t s d none (l.park t s d).2) :: l.journal := by
  have hverdict : ∀ c : Carry, (l.modifyThread t fun th => { th with carry := some c }).verdict t s d none .parked =
      l.verdict t s d none .parked := by
    intro c
    have hscopes : ((l.modifyThread t fun th => { th with carry := some c }).thread t).scopes = (l.thread t).scopes :=
      Table.get_modify_of_eq _ t t Thread.scopes fun _ => rfl
    unfold verdict Thread.innermost
    rw [hscopes]
    rfl
  have hparked : ∀ c : Carry, ((l.modifyThread t fun th => { th with carry := some c }).conclude t s d none
      .parked).1.journal = .charged (l.verdict t s d none .parked) :: l.journal := fun c =>
    congrArg (fun v => Entry.charged v :: l.journal) (hverdict c)
  unfold Ledger.park
  cases (l.thread t).carry with
  | none => exact ⟨.inl rfl, hparked _⟩
  | some c =>
    dsimp only
    split
    · exact ⟨.inl rfl, hparked _⟩
    · exact ⟨.inr rfl, rfl⟩

theorem Attributed.park (h : Attributed l) (hs : Sound l) (hk : l.activeTask t s = none) (d : Delta) :
    Attributed (l.park t s d).1 := by
  obtain ⟨hcharge, hjournal⟩ := journal_park (l := l) (t := t) (s := s) d
  refine h.one (still_park l).later hjournal (attributes_of_inactive hs hk ?_ ?_)
  · rcases hcharge with h | h <;> rw [h] <;> exact fun _ => nofun
  · rcases hcharge with h | h <;> rw [h] <;> exact fun _ _ he => by cases he

/-! ## Moves -/

theorem grows_takeIn (c : ContextId) (d : Delta) : ∃ new, (l.takeIn e c d).1.journal = new ++ l.journal ∧
    ∀ e' ∈ new, e' = e ∨ ∃ b, e' = .committed c b := by
  rcases journal_takeIn_or l e c d with hj | ⟨b, hj⟩
  · exact ⟨[e], hj, fun _ he => .inl (List.mem_singleton.mp he)⟩
  · refine ⟨[.committed c b, e], hj, fun e' he => ?_⟩
    rcases List.mem_cons.mp he with rfl | he
    · exact .inr ⟨b, rfl⟩
    · exact .inl (List.mem_singleton.mp he)

end

end Ledger

variable {t : ThreadId} {m m' : Moment}

theorem Charging.attributed (hs : Sound m.1) (ha : Attributed m.1) (h : Charging t m m') : Attributed m'.1 := by
  have hl := h.still.later
  cases h with
  | receive | spend | skip | hook | settle => exact ha.keep hl rfl
  | hear | event => exact ha.one hl rfl (attributes_of_silent (fun _ => nofun) rfl)
  | resolve =>
    exact ha.one hl (congrArg (List.cons _) (journal_seek ..)) (attributes_of_silent (fun _ => nofun) rfl)
  | decline hd => exact ha.one hl rfl (attributes_of_declined hs hd)
  | park ht hk hh => exact ha.park hs hk _
  | take hi =>
    obtain ⟨new, hjournal, hnew⟩ := grows_takeIn _ _
    refine ha.append hl new hjournal fun e he => ?_
    rcases hnew e he with rfl | ⟨b, rfl⟩
    · exact attributes_of_intake hs hi
    · exact attributes_of_silent (fun _ => nofun) rfl

theorem Tending.attributed (hs : Sound m.1) (ha : Attributed m.1) (h : Tending t m m') : Attributed m'.1 := by
  have hl := h.still.later
  cases h with
  | charging h => exact h.attributed hs ha
  | notice | bound | report | consume => exact ha.one hl rfl (attributes_of_silent (fun _ => nofun) rfl)
  | @flush l q c hc => exact ha.silent hl [.committed c _, .flushed c] rfl (by simp [Entry.intake?])
  | @openAccount l q i s hi => exact ha.silent hl [.opened _, .notice _] rfl (by simp [Entry.intake?])
  | @addService l q i source slots threshold =>
    have hjournal : (l.addService source slots i threshold).1.journal = l.journal := by
      unfold Ledger.addService
      dsimp only
      split <;> rfl
    exact ha.keep hl hjournal
  | _ => exact ha.keep hl rfl

theorem Move.attributed (hs : Sound m.1) (ha : Attributed m.1) (h : Move t m m') : Attributed m'.1 := by
  cases h with
  | tending h => exact h.attributed hs ha
  | close => exact ha.shut _
  | closeHome => exact (ha.keep (still_endHome _).later rfl).shut _
  | _ => exact ha.keep ⟨Nat.le_refl _, fun _ => .inl⟩ rfl

theorem Moves.attributed (hr : Ready t m.1) (ha : Attributed m.1) (h : Moves t m m') : Attributed m'.1 := by
  induction h with
  | refl => exact ha
  | tail hm hstep ih => exact hstep.attributed (Moves.ready hr hm).sound ih

/-- In every run, everything in the journal is attributed. -/
theorem Run.attributed {h : Holdings} {l : Ledger} (hr : Run h l) : Attributed l := by
  induction hr with
  | nil => exact fun _ he => by cases he
  | start hr ih => exact ih.keep ⟨Nat.le_refl _, fun _ => .inl⟩ rfl
  | act hr ht he ha ih =>
    obtain ⟨hsound, hcarries, hheld⟩ := hr.reach
    have hready : Ready _ _ := ⟨hsound, hcarries, ht⟩
    exact Moves.attributed hready ih (perform_moves hheld hready ha)

/-! ## What an account is charged -/

/-- What an entry tells of an account, if it is charged for whatever happens in its scopes. -/
def Entry.scoped? (a : Account) : Entry → Option Feeding
  | charged v => if v.source = .scopes ∧ v.scope = some a then some (.consume v.delta) else none
  | flushed c => if c = a.context then some .take else none
  | _ => none

theorem Ledger.Attributes.scoped?_eq {l : Ledger} {e : Entry} (h : l.Attributes e) {a : Account} (ha : l.Opened a) :
    e.scoped? a = e.feeding? a.context := by
  have hintake : ∀ d, e.intake? = some (a.context, d) → ∃ v, e = .charged v ∧ v.source = .scopes ∧ v.scope = some a :=
    fun d he => (h.intake _ _ he).2 a ha rfl
  have hother : (∀ v, e ≠ .charged v) → (∀ c, e ≠ .flushed c) → e.feeding? a.context = none := by
    refine fun hv hf => e.feeding?_eq_none (fun d he => ?_) (hf _)
    obtain ⟨v, rfl, -⟩ := hintake d he
    exact hv v rfl
  cases e with
  | charged v =>
    by_cases hv : v.source = .scopes ∧ v.scope = some a
    · obtain ⟨hcharge, hcontext⟩ := h.charged v rfl hv.1
      rw [hv.2] at hcharge
      have htook : (Entry.charged v).intake? = some (a.context, v.delta) := by
        unfold Entry.intake?
        simp only [show v.charge = .task a.key from hcharge, hcontext a hv.2]
      exact (if_pos hv).trans (Entry.feeding?_of_intake htook).symm
    · refine (if_neg hv).trans (Entry.feeding?_eq_none (fun d he => ?_) fun hf => by cases hf).symm
      obtain ⟨v', he', hv'⟩ := hintake d he
      obtain rfl := Entry.charged.inj he'
      exact hv hv'
  | flushed c => rfl
  | _ => exact (hother (fun _ => nofun) fun _ => nofun).symm

/-- What an account's context has been through is what was charged in the account's scopes. -/
theorem Ledger.Attributed.feedings_eq {l : Ledger} (h : Attributed l) {a : Account} (ha : l.Opened a) :
    l.feedings a.context = l.journal.filterMap (Entry.scoped? a) :=
  List.filterMap_congr fun e he => ((h e he).scoped?_eq ha).symm

/-- In every run, on every thread, the active account is the one of the innermost scope, and only its key is found. The
account's context is its own, open and set up. So every charge through a service that goes by scopes, outside of the
hook or without the service around it, goes to that account if there is one, and to no task if there is none, and so
did every charge in the journal. What is pending in an account's context, and what it has committed, is what a new
cache with its threshold has come to after all that was charged in the account's scopes, and after every flush. -/
theorem scopes_attribute {h : Holdings} {l : Ledger} (hr : Run h l) :
    (∀ t, (l.thread t).active = (l.thread t).innermost ∧
      (∀ k c, l.scopedContext t k = some c ↔ (l.thread t).innermost = some ⟨k, c⟩) ∧
      (∀ a, (l.thread t).innermost = some a → l.Own a.context ∧ (l.context a.context).closed = false ∧
        (l.context a.context).identity = .task a.key) ∧
      ∀ s < l.services.size, (l.service s).source = .scopes → ∀ d,
        (l.inHook t = false → (l.charge t s d).2.GoesBy (l.thread t).innermost) ∧
        (l.chargeBare t s d).2.GoesBy (l.thread t).innermost) ∧
    (∀ v, .charged v ∈ l.journal → v.source = .scopes →
      v.charge.GoesBy v.scope ∧ ∀ a ∈ v.scope, v.context = some a.context) ∧
    ∀ a, l.Opened a → Cache.fed (l.context a.context).cache.threshold (l.journal.filterMap (Entry.scoped? a)) =
      ((l.context a.context).cache, l.commits a.context) := by
  obtain ⟨hsound, -, -⟩ := hr.reach
  have hattributed := hr.attributed
  refine ⟨fun t => ⟨(hsound.thread t).active, fun k c => scopedContext_eq_some_iff hsound, fun a ha => ?_,
    fun s hs hsource d => ⟨fun hn => ?_, ?_⟩⟩, fun v hv => (hattributed _ hv).charged v rfl, fun a ha => ?_⟩
  · obtain ⟨hopened, hopen⟩ := innermost_spec hsound ha
    exact ⟨(hsound.opened a hopened).1, hopen, (hsound.opened a hopened).2.2⟩
  · rw [charge_snd hsound, decision, hn]
    exact destination_of_scopes hsource hsound
  · rw [chargeBare_snd hsound]
    exact destination_of_scopes hsource hsound
  · rw [← hattributed.feedings_eq ha]
    exact hr.fed.fed _ (hsound.opened a ha).1.1

theorem scopes_attribute_entered :
    (entered.thread 0).innermost = some ⟨⟨1⟩, 0⟩ ∧ (entered.charge 0 0 5).2 = .task ⟨1⟩ ∧
      Cache.fed 10 (entered.journal.filterMap (Entry.scoped? ⟨⟨1⟩, 0⟩)) =
        ((entered.context 0).cache, entered.commits 0) := by
  obtain ⟨hthread, -, haccount⟩ := scopes_attribute run_entered
  obtain ⟨-, -, -, hcharge⟩ := hthread 0
  exact ⟨rfl, (hcharge 0 (by decide) rfl 5).1 rfl, haccount ⟨⟨1⟩, 0⟩ (.tail _ (.tail _ (.head _)))⟩

end HeapLedger
