import HeapLedger.Allocator
import HeapLedger.Charge
import HeapLedger.Context
import HeapLedger.Service

/-!
# The journal

Everything that is seen from outside while the ledger works, and every movement of bytes in it.
-/

namespace HeapLedger

inductive Event
  /-- An echo received an amount. -/
  | received (tracker : String) (bytes : Delta) (inHook : Bool)
  /-- An echo made a charge. -/
  | answered (tracker : String) (charge : Charge)
  /-- A future made a charge while it was polled. -/
  | polled (future : String) (charge : Charge)
  /-- A future made a charge while it was dropped. -/
  | dropped (future : String) (charge : Charge)
  /-- A thread made a charge on its way out. -/
  | atExit (charge : Charge)
  /-- A recorder was told about a block. -/
  | block (hook : String) (kind : BlockEvent) (address : Address) (layout : Layout)

/-! ## Notices -/

inductive Notice
  | serviceCreated (service : ServiceId) (threshold : UInt64) (slots : Nat) (source : TaskSource)
  | workerBound (slot : Nat)
  | workerUnbound (slot : Nat)
  | accountOpened (key : TaskKey)
  | accountClosed (key : TaskKey) (pending : Delta)
  | hooksRegistered (installed : Nat) (threshold : UInt64)
  | registeredAgain (registrations : Nat)
  | registrationFailed (error : RegisterError)

namespace Notice

def level : Notice → String
  | serviceCreated .. | workerBound _ | workerUnbound _ => "DEBUG"
  | accountOpened _ | accountClosed .. => "TRACE"
  | hooksRegistered .. => "INFO"
  | registeredAgain _ => "WARN"
  | registrationFailed _ => "ERROR"

def message : Notice → String
  | serviceCreated .. => "accounting service created"
  | workerBound _ => "worker thread bound"
  | workerUnbound _ => "worker thread unbound"
  | accountOpened _ => "task account opened"
  | accountClosed .. => "task account closed"
  | hooksRegistered .. => "allocator hooks registered"
  | registeredAgain _ =>
    "allocator hooks registered more than once; every event will be charged repeatedly"
  | registrationFailed _ => "failed to register allocator hooks"

end Notice

/-! ## Charges -/

structure Resolution where
  thread : ThreadId
  service : ServiceId
  source : TaskSource
  /-- The slot of the service that the thread is bound to. -/
  slot : Option Nat
  key : TaskKey
  /-- What the source has under the key. -/
  known : Option ContextId
  /-- Whether that is a context, and not closed. -/
  live : Bool
  /-- What the key was resolved to, be it remembered or known. -/
  context : Option ContextId

structure Verdict where
  thread : ThreadId
  service : ServiceId
  source : TaskSource
  delta : Delta
  /-- The account of the innermost scope on the thread. -/
  scope : Option Account
  /-- The context that the charge came to. -/
  context : Option ContextId
  charge : Charge

/-! ## Blocks -/

structure Report where
  allocator : AllocatorId
  /-- The place of the hook among those that are installed. -/
  hook : Nat
  kind : BlockEvent
  address : Address
  layout : Layout
  /-- The block that is in use at the address. -/
  found : Option Block

/-! ## Entries -/

inductive Entry
  | event (e : Event)
  | notice (n : Notice)
  | opened (a : Account)
  /-- A thread was bound to a slot of a service. -/
  | bound (thread : ThreadId) (service : ServiceId) (slot : Nat)
  | resolved (r : Resolution)
  | charged (v : Verdict)
  /-- A context took in an amount that it was handed directly. -/
  | accepted (context : ContextId) (delta : Delta)
  /-- The new context of a thread took in what was held for its service. -/
  | carried (thread : ThreadId) (service : ServiceId) (context : ContextId) (delta : Delta)
  /-- A context was told to commit what is pending. -/
  | flushed (context : ContextId)
  /-- A context handed an amount to its tracker. -/
  | committed (context : ContextId) (amount : Delta)
  /-- A tracker was handed an amount directly. -/
  | consumed (tracker : TrackerId) (bytes : Delta)
  | reported (r : Report)

def Entry.event? : Entry → Option Event
  | event e => some e
  | _ => none

def Entry.notice? : Entry → Option Notice
  | notice n => some n
  | _ => none

end HeapLedger
