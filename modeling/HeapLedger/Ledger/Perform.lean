import HeapLedger.Describe
import HeapLedger.Ledger.Exit
import HeapLedger.Ledger.Future
import HeapLedger.Ledger.Heap
import HeapLedger.Ledger.Roster

/-!
# Performing actions

One step of a history: an action is done on a thread, and the one who does it is told the outcome. An
action that is refused leaves the ledger as it was, unless it was to build or to register a service.
-/

namespace HeapLedger

namespace Ledger

/-! ## Telling the outcome -/

def told {α : Type} (outcome : α → Outcome) (r : Ledger × α) : Ledger × Outcome := (r.1, outcome r.2)

def toldOr {ε α : Type} (refusal : ε → Refusal) (outcome : α → Outcome) (r : Ledger × Except ε α) :
    Ledger × Outcome :=
  match r.2 with
  | .ok a => (r.1, outcome a)
  | .error e => (r.1, .refused (refusal e))

theorem toldOr_fst {ε α : Type} (refusal : ε → Refusal) (outcome : α → Outcome)
    (r : Ledger × Except ε α) : (toldOr refusal outcome r).1 = r.1 := by
  unfold toldOr
  split <;> rfl

def activeKey (l : Ledger) (t : ThreadId) : Option TaskKey := (l.thread t).active.map (·.key)

def toldActive (l : Ledger) (t : ThreadId) : Ledger × Outcome := (l, .active (l.activeKey t))

/-! ## Actions -/

def insideScope (l : Ledger) (t : ThreadId) (f : Ledger → Ledger × Outcome) : Ledger × Outcome :=
  if l.depth t = 0 then (l, .refused .notInScope) else f l

def activateOr (l : Ledger) (t : ThreadId) (r : RosterId) : Option TaskKey → Ledger × Outcome
  | none => (l.activate t r none, .active none)
  | some k =>
    if l.deadKeys.contains k then (l, .refused .deadKey) else (l.activate t r (some k), .active (some k))

def perform (l : Ledger) (t : ThreadId) : Action → Ledger × Outcome
  -- threads and scopes
  | .exit => (l.exit t, .exited)
  | .atExit r => (l.atExit t r, .done)
  | .enter a => (l.enter t a).toldActive t
  | .leave => l.insideScope t fun l => (l.leaveScope t).toldActive t
  | .unwind levels => l.insideScope t fun l =>
    let l := l.unwind t (max 1 (min levels (l.depth t)))
    (l, .unwound (l.activeKey t) (l.depth t))
  | .active => l.toldActive t
  | .inHook => (l, .inHook (l.inHook t))
  | .scopedLookup k => (l, .found (l.scopedContext t k).isSome)
  | .guard => told .entered (l.guardThread t)
  | .unguard => told .left (l.unguardThread t)
  | .newThreadKey => ({ l with nextThread := l.nextThread + 1 }, .threadKey ⟨l.nextThread⟩)
  -- trackers
  | .newCounter label parent => told (.tracker · label) (l.newTracker (.counter label {}) parent)
  | .newEcho name parent => told .echo (l.newTracker (.echo { name }) parent)
  | .bindEcho i charges answers => (l.bindEcho i charges answers, .done)
  | .consume i b => (l.consume t i b, .done)
  -- services
  | .newService settings =>
    toldOr .build (.service · settings.threshold settings.slots) (l.newService settings)
  | .charge s d => told .charged (l.charge t s d)
  | .attach s => told .created (l.settle t s)
  | .flushThread s => told .flushed (l.flushThread t s)
  | .threadPending s => (l, .pending (l.homePending t s))
  | .bindWorker s => toldOr .bind .bound (l.bindWorker t s)
  | .unbindWorker => told .unbound (l.unbindWorker t)
  | .forgetBinding => told .forgotten (l.forgetBinding t)
  -- services without the service around them
  | .newBare source slots i threshold => toldOr .build .bare (l.addService source slots i threshold)
  | .chargeBare s d => told .charged (l.chargeBare t s d)
  | .flushBare s => told .flushed (l.flushHome charge t s)
  -- accounts and futures
  | .openAccount s i => told .account (l.openAccount s i)
  | .closeAccount a => if l.inScope a then (l, .refused .inUse) else (l.closeAccount t a, .done)
  | .releaseAccount a => (l.release t a, .done)
  | .newFuture name polls onDrop s i =>
    told (.future l.futures.size ·.key) (l.newFuture s i name polls onDrop)
  | .poll f =>
    let r := l.poll t f
    (r.1, .polled r.2 (r.1.activeKey t))
  | .dropFuture f => (l.dropFuture t f).toldActive t
  -- contexts and rosters
  | .newRoster => ({ l with rosters := l.rosters.add {} }, .roster l.rosters.size)
  | .newKey => told .key (l.newKey)
  | .newContext k s i => told (.context · k (l.service s).threshold) (l.newContext s k i false)
  | .markInitialized c => (l.markInitialized c, .done)
  | .consumeContext c d => (l.accept charge t c d, .done)
  | .flushContext c => told (.flushed ∘ some) (l.flush charge t c)
  | .publish k c r => (l.publish r k c, .done)
  | .unpublish k r => told .removed (l.unpublish r k)
  | .activate r k => l.activateOr t r k
  | .dropContext c => if l.inUse c then (l, .refused .inUse) else (l.dropContext t c, .done)
  | .replaceContext old new => (l.replaceContext t old new, .done)
  -- allocators
  | .newAllocator usable => told .allocator (l.newAllocator usable)
  | .register m s => toldOr .register .installed (l.register m s)
  | .install m name => toldOr .register .installed (l.install m (.recorder name))
  | .allocate m layout granted => (l.allocate t m layout granted, .block granted)
  | .reallocate a size granted => (l.reallocate t a size granted, .block granted)
  | .deallocate a => (l.deallocate t a, .done)
  | .usable m a layout => told .usable (l.usableSize t m a layout)
  | .notify m s kind a layout => (l.notify t m s kind a layout, .done)
  | .allocatorInfo m => (l, .allocatorInfo (l.allocator m).installed (l.allocator m).nested)
  | .systemBlocks s sizes align => told .systemBlocks (l.systemBlocks t s sizes align)
  -- descriptions
  | .describe subject => (l, .text (l.describe t subject))

end Ledger

end HeapLedger
