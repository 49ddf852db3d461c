import HeapLedger.Action
import HeapLedger.Text.Quoted
import HeapLedger.Text.Record

/-!
# Descriptions

The text that shows a part of the ledger with everything in it.
-/

namespace HeapLedger

open Text

def Cache.describe (c : Cache) : String :=
  record "ConsumptionCache"
    [("pending", record "Cell" [("value", int c.pending.toInt)]), ("threshold", toString c.threshold.toNat)]

def TaskKey.describe (k : TaskKey) : String := wrapped "TaskKey" (toString k.number)

def describeServiceId (s : ServiceId) : String := wrapped "ServiceId" (toString s)

def Identity.describe : Identity → String
  | thread k => wrapped "Thread" (wrapped "ThreadKey" (toString k.number))
  | task k => wrapped "Task" k.describe

def SkipReason.text : SkipReason → String
  | reentrant => "Reentrant"
  | taskContextAbsent => "TaskContextAbsent"
  | contextUninitialized => "ContextUninitialized"
  | foreignThreadContext => "ForeignThreadContext"
  | threadExiting => "ThreadExiting"

def Charge.describe : Charge → String
  | task k => wrapped "Task" k.describe
  | thread => "Thread"
  | parked => "Parked"
  | skipped reason => wrapped "Skipped" reason.text

def TaskSource.text : TaskSource → String
  | scopes => "ScopedTasks"
  | roster _ => "Manual"

def Tracker.describe (t : Tracker) : String :=
  match t.kind with
  | .counter label totals =>
    record "CountingTracker"
      [("label", quoted label), ("has_parent", bool t.parent?.isSome),
       ("consumption", int totals.consumption.toInt), ("peak", int totals.peak.toInt),
       ("commits", toString totals.commits)]
  | .echo e => wrapped "Echo" e.name

def Slot.describe (s : Slot) : String := openRecord "WorkerSlot" [("bound", bool s.bound)]

def describeBuilder : String :=
  record "ServiceBuilder"
    [("flush_threshold", toString defaultThreshold.toNat), ("worker_slots", toString defaultSlots),
     ("thread_tracker", option none), ("runtime", option none)]

namespace Ledger

def describeTracker (l : Ledger) (i : TrackerId) : String := (l.tracker i).describe

def describeContext (l : Ledger) (c : ContextId) : String :=
  let ctx := l.context c
  record "ExecutionContext"
    [("id", ctx.identity.describe), ("tracker", l.describeTracker ctx.tracker),
     ("initialized", bool ctx.initialized), ("cache", ctx.cache.describe)]

def describeAccount (l : Ledger) (a : Account) : String :=
  record "TaskAccount" [("key", a.key.describe), ("context", l.describeContext a.context)]

def describeService (l : Ledger) (s : ServiceId) : String :=
  let svc := l.service s
  let resolver := record "Resolver"
    [("owner", describeServiceId s), ("runtime", svc.source.text),
     ("workers", bracketed (svc.slots.rows.map Slot.describe)),
     ("thread_tracker", l.describeTracker svc.threadTracker),
     ("flush_threshold", toString svc.threshold.toNat), ("lookups", toString svc.lookups)]
  record "AccountingService"
    [("id", describeServiceId s), ("resolver", resolver), ("registrations", toString svc.registrations),
     ("skipped", toString svc.skipped)]

def describeStats (l : Ledger) (s : ServiceId) : String :=
  record "HookStats"
    [("lookups", toString (l.service s).lookups), ("skipped", toString (l.service s).skipped)]

def describeBinding (l : Ledger) (t : ThreadId) : String :=
  option ((l.thread t).binding.map fun w =>
    record "WorkerBinding"
      [("slot", ((l.service w.service).slots.get w.slot).describe), ("index", toString w.slot),
       ("_single_threaded", "PhantomData<*const ()>")])

def describe (l : Ledger) (t : ThreadId) : Subject → String
  | .tracker i => l.describeTracker i
  | .service s => l.describeService s
  | .stats s => l.describeStats s
  | .context c => l.describeContext c
  | .account a => l.describeAccount a
  | .future f => openRecord "Accounted" [("account", l.describeAccount (l.future f).account)]
  | .allocator m =>
    record "Allocator"
      [("inner", quoted "<allocator>"), ("installed_hooks", toString (l.allocator m).installed)]
  | .adapter s => openRecord "HookAdapter" [("service", l.describeService s)]
  | .binding => l.describeBinding t
  | .key k => k.describe
  | .builder => describeBuilder

end Ledger

/-! ## Notices -/

inductive NoticeValue
  | text (s : String)
  | number (n : Int)

def Notice.fields : Notice → List (String × NoticeValue)
  | serviceCreated s threshold slots source =>
    [("service", .text (describeServiceId s)), ("flush_threshold", .number threshold.toNat),
     ("worker_slots", .number slots), ("runtime", .text source.text)]
  | workerBound slot => [("worker_slot", .number slot)]
  | workerUnbound slot => [("worker_slot", .number slot)]
  | accountOpened k => [("task", .text k.text)]
  | accountClosed k pending => [("task", .text k.text), ("pending", .number pending.toInt)]
  | hooksRegistered installed threshold =>
    [("installed_hooks", .number installed), ("flush_threshold", .number threshold.toNat)]
  | registeredAgain registrations => [("registrations", .number registrations)]
  | registrationFailed e => [("error", .text e.message)]

end HeapLedger
