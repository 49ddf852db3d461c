import Mathlib.Logic.Relation
import HeapLedger.Proofs.Trail
import HeapLedger.Proofs.Run

/-!
# Moves

Everything that is done in a ledger is done in moves, each of which changes one or two parts of it. An
amount that has been handed to a tracker is on its way until every tracker above has received it, and
charges may be made meanwhile, so a moment is a ledger together with what is on its way.

`Charging` lists the moves of a charge and of what trackers do in answer, `Tending` adds what can be done
without touching scopes and without closing a context, and `Move` is all of it. `Leaving` is what a thread does
that leaves its scopes or ends.
-/

namespace HeapLedger

/-- A ledger, and the amounts that are on their way to trackers. -/
abbrev Moment := Ledger × List (TrackerId × Delta)

namespace Ledger

/-! ## Parts of moves -/

def sent (l : Ledger) (i : TrackerId) (b : Delta) : List (TrackerId × Delta) := (l.route i).map (·, b)

def takeIn (l : Ledger) (e : Entry) (c : ContextId) (d : Delta) : Ledger × Option Delta :=
  let r := (l.context c).cache.consume d
  let l := (l.post e).modifyContext c fun ctx => { ctx with cache := r.1 }
  match r.2 with
  | none => (l, none)
  | some b => (l.post (.committed c b), some b)

/-- What holds when a context has taken an amount in, and stays so when it commits, holds after an intake. -/
theorem takeIn_keeps {I : Ledger → Prop} {l : Ledger} {e : Entry} {c : ContextId} {d : Delta}
    (hl : I ((l.post e).modifyContext c fun ctx => { ctx with cache := ((l.context c).cache.consume d).1 }))
    (hc : ∀ l b, I l → I (l.post (.committed c b))) : I (l.takeIn e c d).1 := by
  unfold takeIn
  dsimp only
  split
  · exact hl
  · exact hc _ _ hl

theorem takeIn_snd (l : Ledger) (e : Entry) (c : ContextId) (d : Delta) :
    (l.takeIn e c d).2 = ((l.context c).cache.consume d).2 := by
  unfold takeIn
  dsimp only
  split <;> (rename_i hs; exact hs.symm)

theorem contexts_takeIn (l : Ledger) (e : Entry) (c : ContextId) (d : Delta) : (l.takeIn e c d).1.contexts =
    l.contexts.modify c fun ctx => { ctx with cache := ((l.context c).cache.consume d).1 } :=
  takeIn_keeps (I := fun l' => l'.contexts = _) rfl fun _ _ h => h

/-- Nothing but the context and the journal changes by an intake. -/
theorem rest_takeIn (l : Ledger) (e : Entry) (c : ContextId) (d : Delta) :
    { (l.takeIn e c d).1 with contexts := l.contexts, journal := l.journal } = l :=
  takeIn_keeps (I := fun l' => { l' with contexts := l.contexts, journal := l.journal } = l) rfl fun _ _ h => h

theorem journal_takeIn (l : Ledger) (e : Entry) (c : ContextId) (d : Delta) : (l.takeIn e c d).1.journal =
    match ((l.context c).cache.consume d).2 with
    | none => e :: l.journal
    | some b => .committed c b :: e :: l.journal := by
  unfold takeIn
  dsimp only
  split <;> rfl

theorem journal_takeIn_or (l : Ledger) (e : Entry) (c : ContextId) (d : Delta) :
    (l.takeIn e c d).1.journal = e :: l.journal ∨ ∃ b, (l.takeIn e c d).1.journal = .committed c b :: e :: l.journal := by
  rw [journal_takeIn]
  split
  · exact .inl rfl
  · exact .inr ⟨_, rfl⟩

def due (l : Ledger) (c : ContextId) : Option Delta → List (TrackerId × Delta)
  | none => []
  | some b => l.sent (l.context c).tracker b

def drain (l : Ledger) (c : ContextId) : Ledger :=
  let r := (l.context c).cache.take
  ((l.post (.flushed c)).modifyContext c fun ctx => { ctx with cache := r.1 }).post (.committed c r.2)

def shut (l : Ledger) (c : ContextId) : Ledger :=
  (l.modifyContext c fun ctx => { ctx with closed := true }).drain c

def endHome (l : Ledger) (t : ThreadId) : Ledger := l.modifyThread t fun th => { th with home := .closed }

/-- Whether a service may come to a context for a key: it is remembered, or known. -/
def Finds (l : Ledger) (t : ThreadId) (s : ServiceId) (k : TaskKey) (c : ContextId) : Prop :=
  l.remembered t s k = some c ∨ l.taskContext t s k = some c

inductive Declined (l : Ledger) (t : ThreadId) (s : ServiceId) : Option ContextId → SkipReason → Prop
  | absent {k} (hk : l.activeTask t s = some k) (hc : l.taskContext t s k = none) :
      Declined l t s none .taskContextAbsent
  | uninitialized {k c} (hk : l.activeTask t s = some k) (hc : l.Finds t s k c)
      (hi : (l.context c).initialized = false) : Declined l t s (some c) .contextUninitialized
  | exiting (hk : l.activeTask t s = none) (hh : (l.thread t).home = .closed) :
      Declined l t s none .threadExiting
  | foreign {owner c} (hk : l.activeTask t s = none) (hh : (l.thread t).home = .settled owner c)
      (ho : owner ≠ s) : Declined l t s none .foreignThreadContext
  | unset {c} (hk : l.activeTask t s = none) (hh : (l.thread t).home = .settled s c)
      (hi : (l.context c).initialized = false) : Declined l t s (some c) .contextUninitialized

inductive Intake (l : Ledger) (t : ThreadId) : Entry → ContextId → Delta → Prop
  | task {s k c d} (hk : l.activeTask t s = some k) (hc : l.Finds t s k c)
      (hi : (l.context c).initialized = true) :
      Intake l t (.charged (l.verdict t s d (some c) (.task k))) c d
  | thread {s c d} (hk : l.activeTask t s = none) (hh : (l.thread t).home = .settled s c)
      (hi : (l.context c).initialized = true) :
      Intake l t (.charged (l.verdict t s d (some c) .thread)) c d
  | carried {s c d} (hh : (l.thread t).home = .settled s c) (hd : d = held t s l.journal)
      (hn : ∀ e ∈ l.journal, e.carrier? ≠ some t) :
      Intake l t (.carried t s c d) c d
  | direct {c d} (hc : c < l.contexts.size) (ho : (l.context c).closed = false)
      (ha : ∀ a, l.Opened a → a.context ≠ c) (hh : ∀ t s, (l.thread t).home ≠ .settled s c) :
      Intake l t (.accepted c d) c d

/-- Nobody comes to the context any more: it is no thread's own, in no scope, and under no active key. -/
structure Closable (l : Ledger) (c : ContextId) : Prop where
  lt : c < l.contexts.size
  live : (l.context c).closed = false
  home : ∀ t s, (l.thread t).home ≠ .settled s c
  scope : ∀ t, ∀ sc ∈ (l.thread t).scopes, sc.account.context ≠ c
  key : ∀ r t k, (l.roster r).active.find? t = some k → k ∉ (l.context c).published

/-- Changes of a thread that leave alone what charges and scopes go by. -/
def Discreet (f : Thread → Thread) : Prop :=
  ∀ th, (f th).home = th.home ∧ (f th).carry = th.carry ∧ (f th).active = th.active ∧
    (f th).scopes = th.scopes ∧ (f th).recent = th.recent ∧ (f th).exitCharges = th.exitCharges ∧
    (f th).destructors = th.destructors

end Ledger

open Ledger

/-! ## Charging -/

inductive Charging (t : ThreadId) : Moment → Moment → Prop
  -- trackers
  | receive {l q i b label totals} (h : (l.tracker i).kind = .counter label totals) :
      Charging t (l, (i, b) :: q)
        (l.modifyTracker i fun tr => { tr with kind := .counter label (totals.add b) }, q)
  | hear {l q i b e} (h : (l.tracker i).kind = .echo e) :
      Charging t (l, (i, b) :: q) (l.event (.received e.name b (l.inHook t)), q)
  | spend {l q i e e'} (h : (l.tracker i).kind = .echo e) (hs : e.spend? = some e') :
      Charging t (l, q) (l.modifyTracker i fun tr => { tr with kind := .echo e' }, q)
  | event {l q} (e : Event) : Charging t (l, q) (l.event e, q)
  -- charges
  | skip {l q} (s : ServiceId) : Charging t (l, q) (l.countSkip s, q)
  | hook {l q} (b : Bool) : Charging t (l, q) (l.setInHook t b, q)
  | resolve {l q s k} (hs : s < l.services.size) (hk : l.activeTask t s = some k) :
      Charging t (l, q) ((l.resolve t s k).1, q)
  | decline {l q s d c reason} (h : l.Declined t s c reason) :
      Charging t (l, q) ((l.conclude t s d c (.skipped reason)).1, q)
  | park {l q s d} (ht : t < l.threads.size) (hk : l.activeTask t s = none)
      (hh : (l.thread t).home = .absent) : Charging t (l, q) ((l.park t s d).1, q)
  | take {l q e c d} (h : l.Intake t e c d) :
      Charging t (l, q) ((l.takeIn e c d).1, l.due c (l.takeIn e c d).2 ++ q)
  | settle {l q s} (hs : s < l.services.size) (hh : (l.thread t).home = .absent) :
      Charging t (l, q) (l.newHome t s, q)

abbrev Chargings (t : ThreadId) : Moment → Moment → Prop := Relation.ReflTransGen (Charging t)

/-! ## Tending -/

/-- Moves that close no context and leave all scopes, orphans and futures alone. -/
inductive Tending (t : ThreadId) : Moment → Moment → Prop
  | charging {m m'} (h : Charging t m m') : Tending t m m'
  -- contexts and trackers
  | notice {l q} (n : Notice) : Tending t (l, q) (l.notice n, q)
  | bound {l q} (s : ServiceId) (i : Nat) : Tending t (l, q) (l.post (.bound t s i), q)
  | report {l q} (r : Report) : Tending t (l, q) (l.post (.reported r), q)
  | consume {l q i} (b : Delta) (hi : i < l.trackers.size) :
      Tending t (l, q) (l.post (.consumed i b), l.sent i b ++ q)
  | flush {l q c} (hc : c < l.contexts.size) (ho : (l.context c).closed = false) :
      Tending t (l, q) (l.drain c, l.sent (l.context c).tracker (l.context c).pending ++ q)
  | markInitialized {l q} (c : ContextId) : Tending t (l, q) (l.markInitialized c, q)
  | newTracker {l q} (kind : TrackerKind) (parent : Option TrackerId)
      (hp : ∀ i ∈ parent, i < l.trackers.size) (hk : ∀ e, kind = .echo e → e.charges = [])
      (hz : ∀ label totals, kind = .counter label totals → totals = {}) :
      Tending t (l, q) ((l.newTracker kind parent).1, q)
  | bindEcho {l q} (i : TrackerId) {charges : List Request} (answers : Option Nat)
      (hc : l.Serves charges) : Tending t (l, q) (l.bindEcho i charges answers, q)
  | newContext {l q i} (s : ServiceId) (k : TaskKey) (hi : i < l.trackers.size) :
      Tending t (l, q) ((l.newContext s k i false).1, q)
  -- threads and accounts
  | newThread {l q} : Tending t (l, q) (l.newThread.1, q)
  | discreet {l q f} (h : Discreet f) : Tending t (l, q) (l.modifyThread t f, q)
  | atExit {l q r} (h : r.service < l.services.size) : Tending t (l, q) (l.atExit t r, q)
  | openAccount {l q i} (s : ServiceId) (hi : i < l.trackers.size) :
      Tending t (l, q) ((l.openAccount s i).1, q)
  -- services and rosters
  | addService {l q i} (source : TaskSource) (slots : Nat) (threshold : UInt64)
      (hi : i < l.trackers.size) : Tending t (l, q) ((l.addService source slots i threshold).1, q)
  | count {l q} (s : ServiceId) :
      Tending t (l, q) (l.modifyService s fun svc => { svc with registrations := svc.registrations + 1 }, q)
  | slot {l q v} (s : ServiceId) (i : Nat) (hv : v.cached = none) :
      Tending t (l, q) (l.modifySlot s i fun _ => v, q)
  | newRoster {l q} : Tending t (l, q) ({ l with rosters := l.rosters.add {} }, q)
  | publish {l q c} (r : RosterId) (k : TaskKey) (hc : c < l.contexts.size)
      (ho : (l.context c).closed = false) (ha : ∀ a, l.Opened a → a.context ≠ c)
      (hh : ∀ t s, (l.thread t).home ≠ .settled s c) : Tending t (l, q) (l.publish r k c, q)
  | succeed {l q new} (old : ContextId) (ha : ∀ a, l.Opened a → a.context ≠ new)
      (hh : ∀ t s, (l.thread t).home ≠ .settled s new) :
      Tending t (l, q) (l.modifyContext new fun ctx =>
        { ctx with published := (l.context old).published ++ ctx.published }, q)
  | unpublish {l q} (r : RosterId) (k : TaskKey) : Tending t (l, q) ((l.unpublish r k).1, q)
  | withdraw {l q} (keys : List TaskKey) :
      Tending t (l, q) ({ l with rosters := l.rosters.map (·.withdraw keys) }, q)
  | activate {l q key} (r : RosterId)
      (h : ∀ k ∈ key, ∀ c, l.Names k c → (l.context c).closed = false) :
      Tending t (l, q) (l.activate t r key, q)
  -- blocks and numbers
  | allocators {l q ms}
      (h : ∀ m s, .adapter s ∈ (Table.get ms m).table.filled → s < l.services.size) :
      Tending t (l, q) ({ l with allocators := ms }, q)
  | numbers {l q n} (heap : Directory Address Block) (nextThread : Nat) (deadKeys : List TaskKey)
      (hn : l.nextTask ≤ n) (ht : l.nextThread ≤ nextThread) :
      Tending t (l, q) ({ l with heap, nextTask := n, nextThread, deadKeys }, q)

abbrev Tendings (t : ThreadId) : Moment → Moment → Prop := Relation.ReflTransGen (Tending t)

/-! ## All moves -/

inductive Move (t : ThreadId) : Moment → Moment → Prop
  | tending {m m'} (h : Tending t m m') : Move t m m'
  | close {l q c} (h : l.Closable c) :
      Move t (l, q) (l.shut c, l.sent (l.context c).tracker (l.context c).pending ++ q)
  | closeHome {l q s c} (h : (l.thread t).home = .settled s c) :
      Move t (l, q) ((l.endHome t).shut c, l.sent (l.context c).tracker (l.context c).pending ++ q)
  | enter {l q a} (ha : l.Opened a) (ho : (l.context a.context).closed = false) :
      Move t (l, q) (l.enter t a, q)
  | leave {l q} : Move t (l, q) (l.leave t, q)
  | orphans {l q} (orphans : List Account) : Move t (l, q) ({ l with orphans }, q)
  | futures {l q fs}
      (h : ∀ f, (∀ p ∈ (Table.get fs f).polls, l.Serves p.charges) ∧ l.Serves (fs.get f).onDrop) :
      Move t (l, q) ({ l with futures := fs }, q)

abbrev Moves (t : ThreadId) : Moment → Moment → Prop := Relation.ReflTransGen (Move t)

/-! ## Leaving -/

/-- Changes of nothing but a slot, or what a thread knows of slots and hooks. -/
inductive Minor (t : ThreadId) : Moment → Moment → Prop
  | notice {l q} (n : Notice) : Minor t (l, q) (l.notice n, q)
  | bound {l q} (s : ServiceId) (i : Nat) : Minor t (l, q) (l.post (.bound t s i), q)
  | slot {l q v} (s : ServiceId) (i : Nat) (hv : v.cached = none) :
      Minor t (l, q) (l.modifySlot s i fun _ => v, q)
  | discreet {l q f} (h : Discreet f) : Minor t (l, q) (l.modifyThread t f, q)

abbrev Minors (t : ThreadId) : Moment → Moment → Prop := Relation.ReflTransGen (Minor t)

/-- Moves of a thread that leaves scopes or ends. They flush no context but what they close. -/
inductive Leaving (t : ThreadId) : Moment → Moment → Prop
  | charging {m m'} (h : Charging t m m') : Leaving t m m'
  | minor {m m'} (h : Minor t m m') : Leaving t m m'
  | leave {l q} : Leaving t (l, q) (l.leave t, q)
  | orphans {l q} (orphans : List Account) : Leaving t (l, q) ({ l with orphans }, q)
  | close {l q a} (ha : l.Opened a) (h : l.Closable a.context) :
      Leaving t (l, q)
        (l.shut a.context, l.sent (l.context a.context).tracker (l.context a.context).pending ++ q)
  | closeHome {l q s c} (h : (l.thread t).home = .settled s c) :
      Leaving t (l, q) ((l.endHome t).shut c, l.sent (l.context c).tracker (l.context c).pending ++ q)

abbrev Leavings (t : ThreadId) : Moment → Moment → Prop := Relation.ReflTransGen (Leaving t)

section
variable {t : ThreadId} {m m' : Moment}

theorem Minor.tending (h : Minor t m m') : Tending t m m' := by
  cases h with
  | notice n => exact .notice n
  | bound s i => exact .bound s i
  | slot s i hv => exact .slot s i hv
  | discreet h => exact .discreet h

theorem Leaving.move (h : Leaving t m m') : Move t m m' := by
  cases h with
  | charging h => exact .tending (.charging h)
  | minor h => exact .tending h.tending
  | leave => exact .leave
  | orphans orphans => exact .orphans orphans
  | close _ h => exact .close h
  | closeHome h => exact .closeHome h

theorem Minors.tendings (h : Minors t m m') : Tendings t m m' :=
  Relation.ReflTransGen.mono (fun _ _ => Minor.tending) _ _ h

theorem Minors.leavings (h : Minors t m m') : Leavings t m m' :=
  Relation.ReflTransGen.mono (fun _ _ => .minor) _ _ h

theorem Leavings.moves (h : Leavings t m m') : Moves t m m' :=
  Relation.ReflTransGen.mono (fun _ _ => Leaving.move) _ _ h

theorem Chargings.leavings (h : Chargings t m m') : Leavings t m m' :=
  Relation.ReflTransGen.mono (fun _ _ => .charging) _ _ h

end

theorem Chargings.tendings {t : ThreadId} {m m' : Moment} (h : Chargings t m m') : Tendings t m m' :=
  Relation.ReflTransGen.mono (fun _ _ => .charging) _ _ h

theorem Tendings.moves {t : ThreadId} {m m' : Moment} (h : Tendings t m m') : Moves t m m' :=
  Relation.ReflTransGen.mono (fun _ _ => .tending) _ _ h

end HeapLedger
