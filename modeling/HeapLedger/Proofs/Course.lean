import HeapLedger.Proofs.Attribution

/-!
# The course of things

As far as threads' own contexts go, every move is one of three: a thread gets its context, a thread gives it up for
good, or everything goes on. While it does, contexts keep what they are, nobody comes to a thread's context but the
thread itself, nobody comes to a closed one, and each charge is answered as the thread's context asks.
-/

namespace HeapLedger

open Ledger

/-! ## What lasts -/

structure Context.Lasts (ctx ctx' : Context) : Prop where
  identity : ctx'.identity = ctx.identity
  tracker : ctx'.tracker = ctx.tracker
  threshold : ctx'.cache.threshold = ctx.cache.threshold
  initialized : ctx.initialized = true → ctx'.initialized = true
  closed : ctx.closed = true → ctx'.closed = true

theorem Context.Lasts.refl (ctx : Context) : ctx.Lasts ctx := ⟨rfl, rfl, rfl, id, id⟩

theorem Context.Lasts.trans {ctx ctx' ctx'' : Context} (h : ctx.Lasts ctx') (h' : ctx'.Lasts ctx'') :
    ctx.Lasts ctx'' where
  identity := h'.identity.trans h.identity
  tracker := h'.tracker.trans h.tracker
  threshold := h'.threshold.trans h.threshold
  initialized hi := h'.initialized (h.initialized hi)
  closed hc := h'.closed (h.closed hc)

structure Thread.Keeps (th th' : Thread) : Prop where
  home : th'.home = th.home
  carry : th.home ≠ .absent → th'.carry = th.carry
  destructors : ∀ d ∈ th.destructors, d ∈ th'.destructors

theorem Thread.Keeps.refl (th : Thread) : th.Keeps th := ⟨rfl, fun _ => rfl, fun _ => id⟩

namespace Ledger

/-- No context goes away or becomes another one, and no key of a thread is given out twice. -/
structure Lasting (l l' : Ledger) : Prop where
  contexts_size : l.contexts.size ≤ l'.contexts.size
  nextThread : l.nextThread ≤ l'.nextThread
  context : ∀ c < l.contexts.size, (l.context c).Lasts (l'.context c)

theorem Lasting.refl (l : Ledger) : Lasting l l := ⟨Nat.le_refl _, Nat.le_refl _, fun _ _ => .refl _⟩

theorem Lasting.trans {l l' l'' : Ledger} (h : Lasting l l') (h' : Lasting l' l'') : Lasting l l'' where
  contexts_size := Nat.le_trans h.contexts_size h'.contexts_size
  nextThread := Nat.le_trans h.nextThread h'.nextThread
  context c hc := (h.context c hc).trans (h'.context c (Nat.lt_of_lt_of_le hc h.contexts_size))

section
variable (l : Ledger)

theorem lasting_of_eq {l' : Ledger} (hc : l'.contexts = l.contexts) (hn : l.nextThread ≤ l'.nextThread) :
    Lasting l l' where
  contexts_size := Nat.le_of_eq (congrArg Table.size hc.symm)
  nextThread := hn
  context c _ := by
    rw [context, context, hc]
    exact .refl _

theorem lasting_modifyContext (c : ContextId) {f : Context → Context} (hf : (l.context c).Lasts (f (l.context c))) :
    Lasting l (l.modifyContext c f) where
  contexts_size := Nat.le_of_eq (contexts_size_modifyContext ..).symm
  nextThread := Nat.le_refl _
  context j _ := by
    rw [context_modifyContext]
    split
    · rename_i hj
      exact hj.1 ▸ hf
    · exact .refl _

theorem lasting_addContext (ctx : Context) : Lasting l { l with contexts := l.contexts.add ctx } where
  contexts_size := Nat.le_trans (Nat.le_succ _) (Nat.le_of_eq (Table.size_add ..).symm)
  nextThread := Nat.le_refl _
  context c hc := by
    have hold : (l.contexts.add ctx).get c = l.context c := (Table.get_add ..).trans (if_neg (Nat.ne_of_lt hc))
    show (l.context c).Lasts ((l.contexts.add ctx).get c)
    rw [hold]
    exact .refl _

theorem lasting_newHome (t : ThreadId) (s : ServiceId) : Lasting l (l.newHome t s) :=
  { lasting_addContext l
      { identity := .thread ⟨l.nextThread⟩, tracker := (l.service s).threadTracker
        cache := { threshold := (l.service s).threshold }, initialized := true } with
    nextThread := Nat.le_succ _ }

theorem lasting_drain (c : ContextId) : Lasting l (l.drain c) :=
  { lasting_modifyContext l c (f := fun ctx => { ctx with cache := (l.context c).cache.take.1 })
      ⟨rfl, rfl, rfl, id, id⟩ with }

theorem lasting_shut (c : ContextId) : Lasting l (l.shut c) :=
  (lasting_modifyContext l c ⟨rfl, rfl, rfl, id, fun _ => rfl⟩).trans (lasting_drain _ c)

theorem lasting_takeIn (e : Entry) (c : ContextId) (d : Delta) : Lasting l (l.takeIn e c d).1 := by
  have htake := lasting_modifyContext l c (f := fun ctx => { ctx with cache := ((l.context c).cache.consume d).1 })
    ⟨rfl, rfl, Cache.threshold_consume .., id, id⟩
  exact takeIn_keeps (I := Lasting l) { htake with } fun _ _ h => { h with }

end

end Ledger

/-! ## Answers -/

def Charge.resident : Charge → Bool
  | .thread | .parked | .skipped .foreignThreadContext | .skipped .threadExiting => true
  | _ => false

/-- How a thread answers a charge of a service while no task is active. -/
def Home.Answers (home : Home) (s : ServiceId) (charge : Charge) : Prop :=
  match home with
  | .absent => charge = .parked ∨ charge = .skipped .foreignThreadContext
  | .settled owner _ => charge = if owner = s then .thread else .skipped .foreignThreadContext
  | .closed => charge = .skipped .threadExiting

structure Verdict.Suits (v : Verdict) (home : Home) : Prop where
  resident : v.charge.resident = true → home.Answers v.service v.charge
  unscoped : v.source = .scopes → v.scope = none → v.charge.resident = true

def Entry.own? (t : ThreadId) : Entry → Option Delta
  | charged v => if v.thread = t ∧ v.charge = .thread then some v.delta else none
  | carried j _ _ d => if j = t then some d else none
  | _ => none

namespace Ledger

/-- An entry of a thread tells of no thread's context but the thread's own, and of no closed one. -/
structure Heeds (l : Ledger) (j : ThreadId) (e : Entry) : Prop where
  own : ∀ t d, e.own? t = some d → t = j ∧ ∃ s c, (l.thread j).home = .settled s c ∧ e.intake? = some (c, d)
  intake : ∀ c d, e.intake? = some (c, d) →
    (l.context c).closed = false ∧ ∀ t s, (l.thread t).home = .settled s c → e.own? t = some d
  flushed : ∀ c, e = .flushed c → (l.context c).closed = false
  committed : ∀ c b, e = .committed c b → (l.context c).closed = false
  verdict : ∀ v, e = .charged v → v.thread = j ∧ v.Suits (l.thread j).home
  carrier : ∀ t, e.carrier? = some t → t = j

structure Proceeds (j : ThreadId) (l l' : Ledger) : Prop extends Lasting l l' where
  thread : (l.thread j).Keeps (l'.thread j)
  others : ∀ t, t ≠ j → l'.thread t = l.thread t
  journal : ∃ new, l'.journal = new ++ l.journal ∧ ∀ e ∈ new, l.Heeds j e

inductive Course (j : ThreadId) (l : Ledger) : Ledger → Prop
  | proceeds {l'} (h : Proceeds j l l') : Course j l l'
  | settles {s} (hh : (l.thread j).home = .absent) : Course j l (l.newHome j s)
  | ends {s c} (hh : (l.thread j).home = .settled s c) : Course j l ((l.endHome j).shut c)

/-! ## Entries -/

section
variable {l : Ledger} {t : ThreadId} {e : Entry}

theorem heeds_of_silent (hi : e.intake? = none) (hv : ∀ v, e ≠ .charged v) (hf : ∀ c, e ≠ .flushed c)
    (hc : ∀ c b, e ≠ .committed c b) : l.Heeds t e where
  own j d he := by
    cases e with
    | charged v => exact absurd rfl (hv v)
    | carried => cases hi
    | _ => cases he
  intake c d he := absurd (hi.symm.trans he) nofun
  flushed c he := absurd he (hf c)
  committed c b he := absurd he (hc c b)
  verdict v he := absurd he (hv v)
  carrier j he := by
    cases e with
    | carried => cases hi
    | _ => cases he

theorem heeds_of_flushed {c : ContextId} (hc : (l.context c).closed = false) : l.Heeds t (.flushed c) where
  own _ _ he := by cases he
  intake _ _ he := by cases he
  flushed _ he := Entry.flushed.inj he ▸ hc
  committed _ _ he := by cases he
  verdict _ he := by cases he
  carrier _ he := by cases he

theorem heeds_of_committed {c : ContextId} {b : Delta} (hc : (l.context c).closed = false) :
    l.Heeds t (.committed c b) where
  own _ _ he := by cases he
  intake _ _ he := by cases he
  flushed _ he := by cases he
  committed _ _ he := (Entry.committed.inj he).1 ▸ hc
  verdict _ he := by cases he
  carrier _ he := by cases he

theorem heeds_of_declined {v : Verdict} (ht : v.thread = t) (hv : v.Suits (l.thread t).home)
    (hi : (Entry.charged v).intake? = none) (hn : v.charge ≠ .thread) : l.Heeds t (.charged v) where
  own j d he := by
    unfold Entry.own? at he
    dsimp only at he
    rw [if_neg fun h => hn h.2] at he
    cases he
  intake _ _ he := absurd (hi.symm.trans he) nofun
  flushed _ he := by cases he
  committed _ _ he := by cases he
  verdict _ he := Entry.charged.inj he ▸ ⟨ht, hv⟩
  carrier _ he := by cases he

end

section
variable {l : Ledger} (h : Sound l) {t : ThreadId} {s : ServiceId} {d : Delta}

include h

theorem not_home_of_finds {k : TaskKey} {c : ContextId} (hc : l.Finds t s k c) (j : ThreadId) (owner : ServiceId) :
    (l.thread j).home ≠ .settled owner c := by
  intro hh
  obtain ⟨hown, -, hacc⟩ := (h.thread j).home owner c hh
  have hknown := known_of_finds h hc
  unfold Known at hknown
  split at hknown
  · exact hacc _ hknown rfl
  · rw [hown.2.2] at hknown
    cases hknown.1

theorem suits_of_active {k : TaskKey} {c : Option ContextId} {charge : Charge} (hk : l.activeTask t s = some k)
    (hn : charge.resident = false) (home : Home) : (l.verdict t s d c charge).Suits home where
  resident hr := absurd (hn.symm.trans hr) nofun
  unscoped hs hn := by
    obtain ⟨a, ha, -⟩ := innermost_of_active hs h hk
    exact absurd (hn.symm.trans ha) nofun

theorem heeds_of_own {e : Entry} {c : ContextId} (ho : (l.context c).closed = false)
    (hh : (l.thread t).home = .settled s c) (hi : e.intake? = some (c, d))
    (hown : ∀ j, e.own? j = if t = j then some d else none) (hf : ∀ c, e ≠ .flushed c) (hc : ∀ c b, e ≠ .committed c b)
    (hv : ∀ v, e = .charged v → v.thread = t ∧ v.Suits (l.thread t).home) (hj : ∀ j, e.carrier? = some j → j = t) :
    l.Heeds t e where
  own j d' hd := by
    rw [hown] at hd
    split at hd
    · rename_i htj
      exact ⟨htj.symm, s, c, hh, Option.some.inj hd ▸ hi⟩
    · cases hd
  intake c' d' hd := by
    obtain ⟨rfl, rfl⟩ := Prod.mk.inj (Option.some.inj (hi.symm.trans hd))
    refine ⟨ho, fun j s' hh' => ?_⟩
    rw [hown, if_pos (h.home_inj t j s s' c hh hh')]
  flushed c he := absurd he (hf c)
  committed c b he := absurd he (hc c b)
  verdict := hv
  carrier := hj

omit h in
theorem heeds_of_other {e : Entry} {c : ContextId} (ho : (l.context c).closed = false)
    (hh : ∀ j s, (l.thread j).home ≠ .settled s c) (hi : e.intake? = some (c, d)) (hown : ∀ j, e.own? j = none)
    (hf : ∀ c, e ≠ .flushed c) (hc : ∀ c b, e ≠ .committed c b)
    (hv : ∀ v, e = .charged v → v.thread = t ∧ v.Suits (l.thread t).home) (hj : ∀ j, e.carrier? = some j → j = t) :
    l.Heeds t e where
  own j d' hd := absurd ((hown j).symm.trans hd) nofun
  intake c' d' hd := by
    obtain ⟨rfl, rfl⟩ := Prod.mk.inj (Option.some.inj (hi.symm.trans hd))
    exact ⟨ho, fun j s hs => absurd hs (hh j s)⟩
  flushed c he := absurd he (hf c)
  committed c b he := absurd he (hc c b)
  verdict := hv
  carrier := hj

theorem heeds_of_taken {e : Entry} {c : ContextId} (hi : l.Intake t e c d) : l.Heeds t e := by
  have hopen := open_of_intake h hi
  cases hi with
  | @task s k _ _ hk hc hinit =>
    refine heeds_of_other hopen (not_home_of_finds h hc) rfl (fun j => ?_) (by simp) (by simp) (fun v hv => ?_)
      fun _ hj => (by cases hj)
    · exact if_neg fun hj => by cases hj.2
    · obtain rfl := Entry.charged.inj hv
      exact ⟨rfl, suits_of_active h hk rfl _⟩
  | @thread s _ _ hk hh hinit =>
    refine heeds_of_own h hopen hh rfl (fun j => ?_) (by simp) (by simp) (fun v hv => ?_) fun _ hj => (by cases hj)
    · simp [Entry.own?, verdict]
    · obtain rfl := Entry.charged.inj hv
      refine ⟨rfl, ⟨fun _ => ?_, fun _ _ => rfl⟩⟩
      rw [hh]
      exact (if_pos rfl).symm
  | carried hh hd hn =>
    exact heeds_of_own h hopen hh rfl (fun _ => rfl) (by simp) (by simp) (by simp)
      fun j hj => (Option.some.inj hj).symm
  | direct hc ho ha hh =>
    exact heeds_of_other hopen hh rfl (fun _ => rfl) (by simp) (by simp) (by simp) fun _ hj => (by cases hj)

theorem heeds_of_decline {c : Option ContextId} {reason : SkipReason} (hd : l.Declined t s c reason) :
    l.Heeds t (.charged (l.verdict t s d c (.skipped reason))) := by
  have hsuits : (l.verdict t s d c (.skipped reason)).Suits (l.thread t).home := by
    cases hd with
    | absent hk hc => exact suits_of_active h hk rfl _
    | uninitialized hk hc hi => exact suits_of_active h hk rfl _
    | exiting hk hh =>
      rw [hh]
      exact ⟨fun _ => rfl, fun _ _ => rfl⟩
    | foreign hk hh ho =>
      rw [hh]
      exact ⟨fun _ => (if_neg ho).symm, fun _ _ => rfl⟩
    | unset hk hh hi =>
      obtain ⟨-, hinit, -⟩ := ((h.thread t).home _ _ hh).1
      exact absurd (hinit.symm.trans hi) nofun
  refine heeds_of_declined rfl hsuits ?_ nofun
  cases c <;> rfl

end

/-! ## Single changes -/

section
variable (l : Ledger) {t : ThreadId}

theorem proceeds_of_eq {l' : Ledger} (hc : l'.contexts = l.contexts) (ht : l'.threads = l.threads)
    (hj : l'.journal = l.journal) (hn : l.nextThread ≤ l'.nextThread) : Proceeds t l l' :=
  { lasting_of_eq l hc hn with
    thread := by
      rw [thread, thread, ht]
      exact .refl _
    others := fun j _ => by rw [thread, ht]; rfl
    journal := ⟨[], hj, fun _ he => by cases he⟩ }

theorem Proceeds.refl : Proceeds t l l := proceeds_of_eq l rfl rfl rfl (Nat.le_refl _)

theorem Lasting.proceeds {l l' : Ledger} (h : Lasting l l') (ht : l'.threads = l.threads) (new : List Entry)
    (hj : l'.journal = new ++ l.journal) (hn : ∀ e ∈ new, l.Heeds t e) : Proceeds t l l' :=
  { h with
    thread := by
      rw [thread, thread, ht]
      exact .refl _
    others := fun j _ => by rw [thread, ht]; rfl
    journal := ⟨new, hj, hn⟩ }

theorem proceeds_post {e : Entry} (he : l.Heeds t e) : Proceeds t l (l.post e) :=
  have hpost : Lasting l (l.post e) := lasting_of_eq l rfl (Nat.le_refl _)
  hpost.proceeds rfl [e] rfl fun _ hm => List.mem_singleton.mp hm ▸ he

theorem proceeds_modifyContext (c : ContextId) {f : Context → Context} (hf : (l.context c).Lasts (f (l.context c))) :
    Proceeds t l (l.modifyContext c f) :=
  (lasting_modifyContext l c hf).proceeds rfl [] rfl fun _ he => by cases he

theorem keeps_modifyThread {f : Thread → Thread} (hf : ∀ th : Thread, th.Keeps (f th)) :
    (l.thread t).Keeps ((l.modifyThread t f).thread t) := by
  rw [thread_modifyThread]
  split
  · exact hf _
  · exact .refl _

theorem proceeds_modifyThread {f : Thread → Thread} (hf : (l.thread t).Keeps ((l.modifyThread t f).thread t)) :
    Proceeds t l (l.modifyThread t f) :=
  { proceeds_of_eq l (t := t) rfl rfl rfl (Nat.le_refl _) with
    thread := hf
    others := fun _ hj => Table.get_modify_ne _ _ (Ne.symm hj) }

theorem proceeds_seek {s : ServiceId} {k : TaskKey} : Proceeds t l (l.seek t s k).1 := by
  obtain ⟨f, g, -, hg, heq⟩ := l.seek_eq t s k
  have hlookup : Proceeds t l (l.modifyService s f) := proceeds_of_eq l rfl rfl rfl (Nat.le_refl _)
  rw [heq]
  exact { hlookup with
    thread := keeps_modifyThread (l.modifyService s f) fun th => hg th ▸ ⟨rfl, fun _ => rfl, fun _ => id⟩
    others := fun _ hj => Table.get_modify_ne _ _ (Ne.symm hj) }

theorem proceeds_resolve {s : ServiceId} {k : TaskKey} : Proceeds t l (l.resolve t s k).1 :=
  { proceeds_seek l (t := t) (s := s) (k := k) with
    journal := ⟨[.resolved _], congrArg (List.cons _) (journal_seek ..), fun _ he =>
      List.mem_singleton.mp he ▸ heeds_of_silent rfl (by simp) (by simp) (by simp)⟩ }

theorem suits_of_park {s : ServiceId} {d : Delta} (hh : (l.thread t).home = .absent) :
    (l.verdict t s d none (l.park t s d).2).Suits (l.thread t).home := by
  rw [hh]
  obtain ⟨hcharge, -⟩ := journal_park (l := l) (t := t) (s := s) d
  refine ⟨fun _ => hcharge, fun _ _ => ?_⟩
  rcases hcharge with hc | hc <;> exact (congrArg Charge.resident hc).trans rfl

theorem proceeds_park {s : ServiceId} {d : Delta} (hh : (l.thread t).home = .absent) :
    Proceeds t l (l.park t s d).1 := by
  obtain ⟨hcharge, hjournal⟩ := journal_park (l := l) (t := t) (s := s) d
  have hheeds : l.Heeds t (.charged (l.verdict t s d none (l.park t s d).2)) := by
    refine heeds_of_declined rfl (suits_of_park l hh) ?_ ?_
    · rcases hcharge with hc | hc <;> rw [hc] <;> rfl
    · rcases hcharge with hc | hc <;> simp [verdict, hc]
  have hpark : ∀ c : Option Carry, Proceeds t l (l.modifyThread t fun th => { th with carry := c }) := by
    refine fun c => proceeds_modifyThread l ?_
    rw [thread_modifyThread]
    split
    · exact ⟨rfl, fun hn => absurd hh hn, fun _ => id⟩
    · exact .refl _
  have hentries : ∃ new, (l.park t s d).1.journal = new ++ l.journal ∧ ∀ e ∈ new, l.Heeds t e :=
    ⟨[_], hjournal, fun _ he => List.mem_singleton.mp he ▸ hheeds⟩
  unfold Ledger.park conclude at hentries ⊢
  cases hc : (l.thread t).carry with
  | none =>
    rw [hc] at hentries
    exact { hpark _ with journal := hentries }
  | some c =>
    rw [hc] at hentries
    dsimp only at hentries ⊢
    split
    · rename_i ho
      rw [if_pos ho] at hentries
      exact { hpark _ with journal := hentries }
    · rename_i ho
      rw [if_neg ho] at hentries
      exact { Proceeds.refl l with journal := hentries }

theorem proceeds_takeIn (hs : Sound l) {e : Entry} {c : ContextId} {d : Delta} (hi : l.Intake t e c d) :
    Proceeds t l (l.takeIn e c d).1 := by
  obtain ⟨new, hjournal, hnew⟩ := grows_takeIn (l := l) (e := e) c d
  refine (lasting_takeIn l e c d).proceeds ?_ new hjournal fun e' he => ?_
  · exact takeIn_keeps (I := fun l' => l'.threads = l.threads) rfl fun _ _ h => h
  · rcases hnew e' he with rfl | ⟨b, rfl⟩
    · exact heeds_of_taken hs hi
    · exact heeds_of_committed (open_of_intake hs hi)

theorem proceeds_drain {c : ContextId} (ho : (l.context c).closed = false) : Proceeds t l (l.drain c) :=
  (lasting_drain l c).proceeds rfl [.committed c _, .flushed c] rfl fun e he => by
    rcases List.mem_cons.mp he with rfl | he
    · exact heeds_of_committed ho
    · exact List.mem_singleton.mp he ▸ heeds_of_flushed ho

theorem proceeds_shut {c : ContextId} (ho : (l.context c).closed = false) : Proceeds t l (l.shut c) :=
  (lasting_shut l c).proceeds rfl [.committed c _, .flushed c] rfl fun e he => by
    rcases List.mem_cons.mp he with rfl | he
    · exact heeds_of_committed ho
    · exact List.mem_singleton.mp he ▸ heeds_of_flushed ho

theorem proceeds_newThread : Proceeds t l l.newThread.1 :=
  { lasting_of_eq l rfl (Nat.le_refl _) with
    thread := by
      rw [thread_newThread]
      exact .refl _
    others := fun j _ => thread_newThread l j
    journal := ⟨[], rfl, fun _ he => by cases he⟩ }

theorem proceeds_openAccount (s : ServiceId) (i : TrackerId) : Proceeds t l (l.openAccount s i).1 := by
  have hadd := lasting_addContext l
    { identity := .task ⟨l.nextTask⟩, tracker := i, initialized := true
      cache := { threshold := (l.service s).threshold } }
  have hopen : Lasting l (l.openAccount s i).1 := { hadd with }
  refine hopen.proceeds rfl [.opened _, .notice _] rfl fun e he => ?_
  rcases List.mem_cons.mp he with rfl | he
  · exact heeds_of_silent rfl (by simp) (by simp) (by simp)
  · exact List.mem_singleton.mp he ▸ heeds_of_silent rfl (by simp) (by simp) (by simp)

end

end Ledger

/-! ## Moves -/

variable {t : ThreadId} {m m' : Moment}

theorem Charging.course (hs : Sound m.1) (h : Charging t m m') : Course t m.1 m'.1 := by
  cases h with
  | receive | spend | skip => exact .proceeds (proceeds_of_eq _ rfl rfl rfl (Nat.le_refl _))
  | hear | event =>
    exact .proceeds (proceeds_post _ (heeds_of_silent rfl (by simp) (by simp) (by simp)))
  | hook b => exact .proceeds (proceeds_modifyThread _ (keeps_modifyThread _ fun _ => ⟨rfl, fun _ => rfl, fun _ => id⟩))
  | resolve => exact .proceeds (proceeds_resolve _)
  | decline hd => exact .proceeds (proceeds_post _ (heeds_of_decline hs hd))
  | park ht hk hh => exact .proceeds (proceeds_park _ hh)
  | take hi => exact .proceeds (proceeds_takeIn _ hs hi)
  | settle _ hh => exact .settles hh

theorem Tending.course (hs : Sound m.1) (h : Tending t m m') : Course t m.1 m'.1 := by
  cases h with
  | charging h => exact h.course hs
  | notice | bound | report | consume =>
    exact .proceeds (proceeds_post _ (heeds_of_silent rfl (by simp) (by simp) (by simp)))
  | flush hc ho => exact .proceeds (proceeds_drain _ ho)
  | markInitialized c => exact .proceeds (proceeds_modifyContext _ c ⟨rfl, rfl, rfl, fun _ => rfl, id⟩)
  | succeed => exact .proceeds (proceeds_modifyContext _ _ ⟨rfl, rfl, rfl, id, id⟩)
  | @newContext l q i s k hi =>
    exact .proceeds ((lasting_addContext l _).proceeds rfl [] rfl fun _ he => by cases he)
  | newThread => exact .proceeds (proceeds_newThread _)
  | discreet hf =>
    refine .proceeds (proceeds_modifyThread _ (keeps_modifyThread _ fun th => ?_))
    obtain ⟨hhome, hcarry, -, -, -, -, hdestructors⟩ := hf th
    exact ⟨hhome, fun _ => hcarry, fun _ => hdestructors ▸ id⟩
  | atExit =>
    refine .proceeds (proceeds_modifyThread _ (keeps_modifyThread _ fun th => ⟨rfl, fun _ => rfl, fun d hd => ?_⟩))
    dsimp only
    split
    · exact List.mem_cons_of_mem _ hd
    · exact hd
  | openAccount s hi => exact .proceeds (proceeds_openAccount _ s _)
  | @addService l q i source slots threshold =>
    show Course t l (l.addService source slots i threshold).1
    unfold Ledger.addService
    dsimp only
    split <;> exact .proceeds (proceeds_of_eq _ rfl rfl rfl (Nat.le_refl _))
  | @publish l q c r k =>
    have hctx : Lasting l (l.modifyContext c fun ctx => { ctx with published := k :: ctx.published }) :=
      lasting_modifyContext l c ⟨rfl, rfl, rfl, id, id⟩
    have hpublish : Lasting l (l.publish r k c) := { hctx with }
    exact .proceeds (hpublish.proceeds rfl [] rfl fun _ he => by cases he)
  | numbers _ _ _ hn ht => exact .proceeds (proceeds_of_eq _ rfl rfl rfl ht)
  | _ => exact .proceeds (proceeds_of_eq _ rfl rfl rfl (Nat.le_refl _))

/-- A thread gets its context, gives it up, or everything goes on. -/
theorem Move.course (hs : Sound m.1) (h : Move t m m') : Course t m.1 m'.1 := by
  cases h with
  | tending h => exact h.course hs
  | close hc => exact .proceeds (proceeds_shut _ hc.live)
  | closeHome hh => exact .ends hh
  | enter => exact .proceeds (proceeds_modifyThread _ (keeps_modifyThread _ fun _ => ⟨rfl, fun _ => rfl, fun _ => id⟩))
  | leave =>
    refine .proceeds (proceeds_modifyThread _ (keeps_modifyThread _ fun th => ?_))
    unfold Thread.leave
    split <;> exact ⟨rfl, fun _ => rfl, fun _ => id⟩
  | orphans | futures => exact .proceeds (proceeds_of_eq _ rfl rfl rfl (Nat.le_refl _))

end HeapLedger
