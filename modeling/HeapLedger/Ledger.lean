import HeapLedger.Future
import HeapLedger.Journal
import HeapLedger.Thread
import HeapLedger.Tracker

/-!
# The ledger

Everything that is accounted for, and everybody who accounts for it.

Threads take turns, and what a thread reads is what was written last. Whatever an action does comes in a row; only
taking a worker slot and giving it back are looked at step by step as well. Numbers that only count up have no bound.
The context of a thread is created in one step, and nothing is charged meanwhile. Whether memory is short is for those
to say who ask for it, and how long something takes is not told.
-/

namespace HeapLedger

structure Ledger where
  trackers : Table Tracker := {}
  contexts : Table Context := {}
  services : Table Service := {}
  threads : Table Thread := {}
  rosters : Table Roster := {}
  futures : Table Future := {}
  allocators : Table Allocator := {}
  /-- The blocks in use, by address. -/
  heap : Directory Address Block := {}
  nextTask : Nat := 1
  nextThread : Nat := 1
  /-- The keys that no thread can activate any more. -/
  deadKeys : List TaskKey := []
  /-- The accounts that nobody keeps any more but that are in scope still. -/
  orphans : List Account := []
  /-- Whether use is made of what is remembered about resolved tasks. -/
  recalls : Bool := true
  /-- What has happened so far, the latest first. -/
  journal : List Entry := []
  deriving Inhabited

namespace Ledger

/-! ## Parts -/

def tracker (l : Ledger) (i : TrackerId) : Tracker := l.trackers.get i

def context (l : Ledger) (c : ContextId) : Context := l.contexts.get c

def service (l : Ledger) (s : ServiceId) : Service := l.services.get s

def thread (l : Ledger) (t : ThreadId) : Thread := l.threads.get t

def roster (l : Ledger) (r : RosterId) : Roster := l.rosters.get r

def future (l : Ledger) (f : FutureId) : Future := l.futures.get f

def allocator (l : Ledger) (m : AllocatorId) : Allocator := l.allocators.get m

/-! ## Changes -/

def modifyTracker (l : Ledger) (i : TrackerId) (f : Tracker → Tracker) : Ledger :=
  { l with trackers := l.trackers.modify i f }

def modifyContext (l : Ledger) (c : ContextId) (f : Context → Context) : Ledger :=
  { l with contexts := l.contexts.modify c f }

def modifyService (l : Ledger) (s : ServiceId) (f : Service → Service) : Ledger :=
  { l with services := l.services.modify s f }

def modifyThread (l : Ledger) (t : ThreadId) (f : Thread → Thread) : Ledger :=
  { l with threads := l.threads.modify t f }

def modifyRoster (l : Ledger) (r : RosterId) (f : Roster → Roster) : Ledger :=
  { l with rosters := l.rosters.modify r f }

def modifyAllocator (l : Ledger) (m : AllocatorId) (f : Allocator → Allocator) : Ledger :=
  { l with allocators := l.allocators.modify m f }

def newThread (l : Ledger) : Ledger × ThreadId := ({ l with threads := l.threads.add {} }, l.threads.size)

def post (l : Ledger) (e : Entry) : Ledger := { l with journal := e :: l.journal }

def event (l : Ledger) (e : Event) : Ledger := l.post (.event e)

def notice (l : Ledger) (n : Notice) : Ledger := l.post (.notice n)

def countSkip (l : Ledger) (s : ServiceId) : Ledger :=
  l.modifyService s fun svc => { svc with skipped := svc.skipped + 1 }

/-! ## Reading what was changed -/

theorem tracker_modifyTracker (l : Ledger) (i j : TrackerId) (f : Tracker → Tracker) :
    (l.modifyTracker i f).tracker j = if i = j ∧ i < l.trackers.size then f (l.tracker j) else l.tracker j :=
  Table.get_modify ..

theorem context_modifyContext (l : Ledger) (c j : ContextId) (f : Context → Context) :
    (l.modifyContext c f).context j = if c = j ∧ c < l.contexts.size then f (l.context j) else l.context j :=
  Table.get_modify ..

theorem service_modifyService (l : Ledger) (s j : ServiceId) (f : Service → Service) :
    (l.modifyService s f).service j = if s = j ∧ s < l.services.size then f (l.service j) else l.service j :=
  Table.get_modify ..

theorem thread_modifyThread (l : Ledger) (t j : ThreadId) (f : Thread → Thread) :
    (l.modifyThread t f).thread j = if t = j ∧ t < l.threads.size then f (l.thread j) else l.thread j :=
  Table.get_modify ..

theorem modifyContext_modifyContext (l : Ledger) (c : ContextId) (f g : Context → Context) :
    (l.modifyContext c f).modifyContext c g = l.modifyContext c (g ∘ f) :=
  congrArg (fun contexts => { l with contexts }) (Table.modify_modify ..)

theorem modifyThread_modifyThread (l : Ledger) (t : ThreadId) (f g : Thread → Thread) :
    (l.modifyThread t f).modifyThread t g = l.modifyThread t (g ∘ f) :=
  congrArg (fun threads => { l with threads }) (Table.modify_modify ..)

theorem trackers_size_modifyTracker (l : Ledger) (i : TrackerId) (f : Tracker → Tracker) :
    (l.modifyTracker i f).trackers.size = l.trackers.size := Table.size_modify ..

theorem contexts_size_modifyContext (l : Ledger) (c : ContextId) (f : Context → Context) :
    (l.modifyContext c f).contexts.size = l.contexts.size := Table.size_modify ..

theorem services_size_modifyService (l : Ledger) (s : ServiceId) (f : Service → Service) :
    (l.modifyService s f).services.size = l.services.size := Table.size_modify ..

theorem threads_size_modifyThread (l : Ledger) (t : ThreadId) (f : Thread → Thread) :
    (l.modifyThread t f).threads.size = l.threads.size := Table.size_modify ..

/-! ## Hooks -/

def inHook (l : Ledger) (t : ThreadId) : Bool := (l.thread t).inHook

def setInHook (l : Ledger) (t : ThreadId) (b : Bool) : Ledger :=
  l.modifyThread t fun th => { th with inHook := b }

/-- Runs a section inside the hook of a thread that is outside of it. -/
def guarded {α : Type} (l : Ledger) (t : ThreadId) (f : Ledger → Ledger × α) : Ledger × α :=
  let r := f (l.setInHook t true)
  (r.1.setInHook t false, r.2)

def guardThread (l : Ledger) (t : ThreadId) : Ledger × Bool :=
  if l.inHook t then (l, false)
  else (l.modifyThread t fun th => { th with inHook := true, holdsGuard := true }, true)

def unguardThread (l : Ledger) (t : ThreadId) : Ledger × Bool :=
  if (l.thread t).holdsGuard then
    (l.modifyThread t fun th => { th with inHook := false, holdsGuard := false }, true)
  else (l, false)

end Ledger

end HeapLedger
