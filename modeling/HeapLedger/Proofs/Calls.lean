import Mathlib.Logic.Function.Iterate
import HeapLedger.Proofs.Reentrancy
import HeapLedger.Proofs.Spread

/-!
# Calls in progress

A charge commits to a tracker, and a tracker answers what it receives with charges. Here the calls that a thread is in
the middle of are kept in a list, the innermost first, and are gone through step by step. Nothing is said beforehand
about the charges that trackers make: each is tried like any other, and it is refused only if it finds the thread
inside the hook. Trackers may make other charges than those that the ledger has them make.
-/

namespace HeapLedger

open Ledger

/-- The charges that trackers make when they receive an amount. -/
abbrev Habit := Ledger → TrackerId → Delta → List Request

def Habit.own : Habit := fun l i _ => (l.tracker i).answers

def Tracker.title (tr : Tracker) : String :=
  match tr.kind with
  | .counter label _ => label
  | .echo e => e.name

/-! ## What functions do before they call another one -/

/-- What comes of a charge inside the hook before a context takes the amount in. -/
structure Opening where
  ledger : Ledger
  charge : Charge
  intake : Option ContextId

def Opening.close (o : Opening) (respond : Responder) (t : ThreadId) (d : Delta) : Ledger × Charge :=
  match o.intake with
  | none => (o.ledger, o.charge)
  | some c => (absorb respond o.ledger t c d, o.charge)

namespace Ledger

def openContext (l : Ledger) (t : ThreadId) (s : ServiceId) (c : ContextId) (d : Delta) (charge : Charge) : Opening :=
  if (l.context c).initialized then ⟨(l.conclude t s d (some c) charge).1, charge, some c⟩
  else ⟨(l.conclude t s d (some c) (.skipped .contextUninitialized)).1, .skipped .contextUninitialized, none⟩

def openThread (l : Ledger) (t : ThreadId) (s : ServiceId) (d : Delta) : Opening :=
  match (l.thread t).home with
  | .absent => ⟨(l.park t s d).1, (l.park t s d).2, none⟩
  | .closed => ⟨(l.conclude t s d none (.skipped .threadExiting)).1, .skipped .threadExiting, none⟩
  | .settled owner c =>
    if owner = s then l.openContext t s c d .thread
    else ⟨(l.conclude t s d none (.skipped .foreignThreadContext)).1, .skipped .foreignThreadContext, none⟩

/-- A charge inside the hook, up to where a context takes the amount in. -/
def opening (l : Ledger) (t : ThreadId) (s : ServiceId) (d : Delta) : Opening :=
  match l.activeTask t s with
  | some k =>
    let r := l.resolve t s k
    match r.2 with
    | none => ⟨(r.1.conclude t s d none (.skipped .taskContextAbsent)).1, .skipped .taskContextAbsent, none⟩
    | some c => r.1.openContext t s c d (.task k)
  | none => l.openThread t s d

def receive (l : Ledger) (t : ThreadId) (i : TrackerId) (b : Delta) : Ledger :=
  match (l.tracker i).kind with
  | .counter label totals => l.modifyTracker i fun tr => { tr with kind := .counter label (totals.add b) }
  | .echo e =>
    let l := l.event (.received e.name b (l.inHook t))
    match e.spend? with
    | none => l
    | some e' => l.modifyTracker i fun tr => { tr with kind := .echo e' }

section
variable {l : Ledger} {t : ThreadId} {s : ServiceId} {d : Delta}

theorem chargeContextWith_eq (respond : Responder) (c : ContextId) (charge : Charge) :
    chargeContextWith respond l t s c d charge = (l.openContext t s c d charge).close respond t d := by
  unfold chargeContextWith openContext
  split <;> rfl

theorem chargeThreadWith_eq (respond : Responder) :
    chargeThreadWith respond l t s d = (l.openThread t s d).close respond t d := by
  unfold chargeThreadWith openThread
  cases (l.thread t).home with
  | absent | closed => rfl
  | settled owner c =>
    dsimp only
    split
    · exact chargeContextWith_eq respond c .thread
    · rfl

/-- A charge inside the hook is what it opens with, and what the context does with the amount. -/
theorem chargeInHookWith_eq (respond : Responder) :
    chargeInHookWith respond l t s d = (l.opening t s d).close respond t d := by
  unfold chargeInHookWith opening
  cases l.activeTask t s with
  | none => exact chargeThreadWith_eq respond
  | some k =>
    unfold chargeTaskWith
    dsimp only
    cases (l.resolve t s k).2 with
    | none => rfl
    | some c => exact chargeContextWith_eq respond c (.task k)

theorem deliver_eq (respond : Responder) (i : TrackerId) (b : Delta) : deliver respond t b l i =
    (l.tracker i).answers.foldl (answer respond t (l.tracker i).title) (l.receive t i b) := by
  unfold deliver receive Tracker.answers Tracker.title
  cases (l.tracker i).kind with
  | counter => rfl
  | echo e =>
    dsimp only
    cases e.spend? <;> rfl

end

end Ledger

/-! ## Calls -/

inductive Call
  /-- A tracker receives an amount. -/
  | hand (i : TrackerId) (b : Delta)
  /-- A tracker passes an amount on. -/
  | pass (i : TrackerId) (b : Delta)
  | charge (s : ServiceId) (d : Delta)
  /-- The thread leaves the hook. -/
  | unhook
  /-- A charge that has entered the hook gives its answer. -/
  | reply (s : ServiceId) (charge : Charge)
  /-- The answer to a charge is written down. -/
  | note (event : Charge → Event)
  -- contexts
  | settle (s : ServiceId)
  | absorb (c : ContextId) (d : Delta)
  | flush (c : ContextId)
  | flushThread (s : ServiceId)
  | consume (i : TrackerId) (b : Delta)
  | closeContext (c : ContextId)
  | dropContext (c : ContextId)
  -- accounts, scopes and futures
  | closeAccount (a : Account)
  | release (a : Account)
  | leave
  | leaveScope
  | unwind (n : Nat)
  | dropFuture (f : FutureId)
  -- the end of the thread
  | exit
  | letGo
  | destroy (destructor : Destructor)

structure Execution where
  ledger : Ledger
  /-- The latest answer to a charge. -/
  answer : Charge
  /-- The calls that are not done yet, the innermost first. -/
  calls : List Call

def Call.charges (event : Charge → Event) (requests : List Request) : List Call :=
  requests.flatMap fun r => [.charge r.service r.delta, .note event]

namespace Call

section
variable (t : ThreadId) (l : Ledger) (answer : Charge)

def beginCharge (s : ServiceId) (d : Delta) : Execution :=
  if l.inHook t then ⟨l.countSkip s, .skipped .reentrant, []⟩
  else
    let o := (l.setInHook t true).opening t s d
    let afterwards := if o.charge = .parked then [settle s, reply s o.charge] else [reply s o.charge]
    ⟨o.ledger, answer, o.intake.toList.map (absorb · d) ++ unhook :: afterwards⟩

def beginReply (s : ServiceId) (given : Charge) : Execution :=
  match given with
  | .skipped _ => ⟨l.countSkip s, given, []⟩
  | _ => ⟨l, given, []⟩

def beginSettle (s : ServiceId) : Execution :=
  match (l.thread t).home with
  | .absent =>
    let carried := (l.thread t).carriedFor s
    let c := l.contexts.size
    let l := l.newHome t s
    if carried = 0 ∨ l.inHook t then ⟨l, answer, []⟩
    else ⟨(l.setInHook t true).post (.carried t s c carried), answer, [absorb c carried, unhook]⟩
  | _ => ⟨l, answer, []⟩

def beginAbsorb (c : ContextId) (d : Delta) : Execution :=
  let r := (l.context c).cache.consume d
  let l := l.modifyContext c fun ctx => { ctx with cache := r.1 }
  match r.2 with
  | none => ⟨l, answer, []⟩
  | some b => ⟨l.post (.committed c b), answer, [hand (l.context c).tracker b]⟩

def beginFlush (c : ContextId) : Execution :=
  let r := (l.context c).cache.take
  let l := (l.post (.flushed c)).modifyContext c fun ctx => { ctx with cache := r.1 }
  ⟨l.post (.committed c r.2), answer, [hand (l.context c).tracker r.2]⟩

def beginFlushThread (s : ServiceId) : Execution :=
  if l.inHook t then ⟨l, answer, []⟩
  else
    let l := l.setInHook t true
    ⟨l, answer, (l.homeOf t s).toList.map flush ++ [unhook]⟩

def beginDropContext (c : ContextId) : Execution :=
  let keys := (l.context c).published
  ⟨{ l with rosters := l.rosters.map (·.withdraw keys), deadKeys := keys ++ l.deadKeys }, answer, [closeContext c]⟩

def beginRelease (a : Account) : Execution :=
  if l.inScope a then ⟨{ l with orphans := a :: l.orphans }, answer, []⟩ else ⟨l, answer, [closeAccount a]⟩

def beginLeaveScope : Execution :=
  match (l.thread t).scopes with
  | [] => ⟨l, answer, []⟩
  | s :: _ =>
    let l := l.leave t
    if l.orphans.contains s.account && !l.inScope s.account then
      ⟨{ l with orphans := l.orphans.erase s.account }, answer, [closeAccount s.account]⟩
    else ⟨l, answer, []⟩

def beginUnwind : Nat → Execution
  | 0 => ⟨l, answer, []⟩
  | n + 1 => ⟨l, answer, [leaveScope, unwind n]⟩

def beginDropFuture (f : FutureId) : Execution :=
  let future := l.future f
  ⟨l.enter t future.account, answer,
    charges (.dropped future.name) future.onDrop ++ [leave, closeAccount future.account]⟩

def beginLetGo : Execution :=
  let l := ((l.unbindWorker t).1.unguardThread t).1
  ⟨l, answer, (l.thread t).destructors.map destroy⟩

def beginDestroy : Destructor → Execution
  | .home =>
    match (l.thread t).home with
    | .settled _ c => ⟨l.modifyThread t fun th => { th with home := .closed }, answer, [closeContext c]⟩
    | _ => ⟨l, answer, []⟩
  | .exitCharges =>
    let afterwards := match (l.thread t).home with
      | .absent => [destroy .home]
      | _ => []
    ⟨l, answer, charges .atExit (l.thread t).exitCharges ++ afterwards⟩

end

def begin (habit : Habit) (t : ThreadId) (l : Ledger) (answer : Charge) : Call → Execution
  | hand i b =>
    ⟨l.receive t i b, answer, charges (.answered (l.tracker i).title) (habit l i b) ++ [pass i b]⟩
  | pass i b => ⟨l, answer, (l.tracker i).parent?.toList.map (hand · b)⟩
  | charge s d => beginCharge t l answer s d
  | unhook => ⟨l.setInHook t false, answer, []⟩
  | reply s given => beginReply l s given
  | note event => ⟨l.event (event answer), answer, []⟩
  | settle s => beginSettle t l answer s
  | absorb c d => beginAbsorb l answer c d
  | flush c => beginFlush l answer c
  | flushThread s => beginFlushThread t l answer s
  | consume i b => ⟨l.post (.consumed i b), answer, [hand i b]⟩
  | closeContext c => ⟨l.modifyContext c fun ctx => { ctx with closed := true }, answer, [flush c]⟩
  | dropContext c => beginDropContext l answer c
  | closeAccount a =>
    ⟨l.notice (.accountClosed a.key (l.context a.context).pending), answer, [closeContext a.context]⟩
  | release a => beginRelease l answer a
  | leave => ⟨l.leave t, answer, []⟩
  | leaveScope => beginLeaveScope t l answer
  | unwind n => beginUnwind l answer n
  | dropFuture f => beginDropFuture t l answer f
  | exit => ⟨l, answer, [unwind (l.depth t), letGo]⟩
  | letGo => beginLetGo t l answer
  | destroy destructor => beginDestroy t l answer destructor

end Call

/-- The innermost call begins, and the calls that it makes come before all others. -/
def Execution.step (habit : Habit) (t : ThreadId) (x : Execution) : Execution :=
  match x.calls with
  | [] => x
  | call :: rest =>
    let y := call.begin habit t x.ledger x.answer
    { y with calls := y.calls ++ rest }

def Ledger.start? (l : Ledger) (t : ThreadId) : Action → Option (List Call)
  | .charge s d => some [.charge s d]
  | .attach s => some [.settle s]
  | .flushThread s => some [.flushThread s]
  | .flushContext c => some [.flush c]
  | .consume i b => some [.consume i b]
  | .closeAccount a => some (if l.inScope a then [] else [.closeAccount a])
  | .releaseAccount a => some [.release a]
  | .leave => some [.leaveScope]
  | .unwind levels => some [.unwind (max 1 (min levels (l.depth t)))]
  | .dropFuture f => some [.dropFuture f]
  | .dropContext c => some (if l.inUse c then [] else [.dropContext c])
  | .exit => some [.exit]
  | _ => none

end HeapLedger
