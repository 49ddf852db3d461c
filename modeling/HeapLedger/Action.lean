import HeapLedger.Ledger.Heap
import HeapLedger.Ledger.Service

/-!
# Actions and outcomes

What can be done on a thread, and what the one who does it is told.
-/

namespace HeapLedger

inductive Subject
  | tracker (i : TrackerId)
  | service (s : ServiceId)
  | stats (s : ServiceId)
  | context (c : ContextId)
  | account (a : Account)
  | future (f : FutureId)
  | allocator (m : AllocatorId)
  | adapter (s : ServiceId)
  | binding
  | key (k : TaskKey)
  | builder

inductive Action
  -- threads and scopes
  | exit
  | atExit (r : Request)
  | enter (a : Account)
  | leave
  /-- Leaves as many scopes as are given, or all, but at least the innermost one. -/
  | unwind (levels : Nat)
  | active
  | inHook
  | scopedLookup (k : TaskKey)
  | guard
  | unguard
  | newThreadKey
  -- trackers
  | newCounter (label : String) (parent : Option TrackerId)
  | newEcho (name : String) (parent : Option TrackerId)
  | bindEcho (i : TrackerId) (charges : List Request) (answers : Option Nat)
  | consume (i : TrackerId) (bytes : Delta)
  -- services
  | newService (settings : ServiceSettings)
  | charge (s : ServiceId) (d : Delta)
  | attach (s : ServiceId)
  | flushThread (s : ServiceId)
  | threadPending (s : ServiceId)
  | bindWorker (s : ServiceId)
  | unbindWorker
  | forgetBinding
  -- services without the service around them
  | newBare (source : TaskSource) (slots : Nat) (tracker : TrackerId) (threshold : UInt64)
  | chargeBare (s : ServiceId) (d : Delta)
  | flushBare (s : ServiceId)
  -- accounts and futures
  | openAccount (s : ServiceId) (i : TrackerId)
  | closeAccount (a : Account)
  /-- Closes an account as soon as it is in no scope. -/
  | releaseAccount (a : Account)
  | newFuture (name : String) (polls : List PollScript) (onDrop : List Request) (s : ServiceId)
      (i : TrackerId)
  | poll (f : FutureId)
  | dropFuture (f : FutureId)
  -- contexts and rosters
  | newRoster
  | newKey
  | newContext (k : TaskKey) (s : ServiceId) (i : TrackerId)
  | markInitialized (c : ContextId)
  | consumeContext (c : ContextId) (d : Delta)
  | flushContext (c : ContextId)
  | publish (k : TaskKey) (c : ContextId) (r : RosterId)
  | unpublish (k : TaskKey) (r : RosterId)
  | activate (r : RosterId) (k : Option TaskKey)
  | dropContext (c : ContextId)
  /-- Lets a context answer for the keys of an older one, and closes that one. -/
  | replaceContext (old new : ContextId)
  -- allocators
  | newAllocator (usable : UsableSize)
  | register (m : AllocatorId) (s : ServiceId)
  | install (m : AllocatorId) (name : String)
  | allocate (m : AllocatorId) (layout : Layout) (granted : Option Address)
  | reallocate (a : Address) (size : UInt64) (granted : Option Address)
  | deallocate (a : Address)
  | usable (m : AllocatorId) (a : Address) (layout : Layout)
  /-- Tells a service about a block, or about none. -/
  | notify (m : AllocatorId) (s : ServiceId) (kind : BlockEvent) (a : Option Address) (layout : Layout)
  | allocatorInfo (m : AllocatorId)
  | systemBlocks (s : ServiceId) (sizes : List UInt64) (align : UInt64)
  -- descriptions
  | describe (subject : Subject)

inductive Refusal
  | notInScope
  | inUse
  | deadKey
  | build (e : BuildError)
  | bind (e : BindError)
  | register (e : RegisterError)

inductive Outcome
  | done
  | refused (r : Refusal)
  | exited
  | active (k : Option TaskKey)
  | unwound (k : Option TaskKey) (depth : Nat)
  | inHook (b : Bool)
  | found (b : Bool)
  | entered (b : Bool)
  | left (b : Bool)
  | threadKey (k : ThreadKey)
  | tracker (i : TrackerId) (label : String)
  | echo (i : TrackerId)
  | service (s : ServiceId) (threshold : UInt64) (slots : Nat)
  | bare (s : ServiceId)
  | charged (c : Charge)
  | created (b : Bool)
  | flushed (amount : Option Delta)
  | pending (amount : Option Delta)
  | bound (slot : Nat)
  | unbound (b : Bool)
  | forgotten (b : Bool)
  | account (a : Account)
  | future (f : FutureId) (k : TaskKey)
  | polled (ending : PollEnd) (k : Option TaskKey)
  | roster (r : RosterId)
  | key (k : TaskKey)
  | context (c : ContextId) (k : TaskKey) (threshold : UInt64)
  | removed (b : Bool)
  | allocator (m : AllocatorId)
  | installed (hooks : Nat)
  | block (granted : Option Address)
  | usable (size : UInt64)
  | allocatorInfo (hooks : Nat) (nested : Nat)
  | systemBlocks (report : SystemReport)
  | text (s : String)

end HeapLedger
