import HeapLedger.Ledger.Resolve

/-!
# A thread's own context

The first charge on a thread cannot create the context that it belongs to, because it is made inside
the hook: the amount is parked, and the context is created right after. What another service has
parked by then is dropped.

A context is created in one step. This takes for granted that nothing is charged on the thread while its context is
being created, as it would be if asking for the memory of the context were charged itself, and that a thread can always
be given the context. So there is no telling a context that is being created from none, and no thread is without a
context for good but one that has given its own up.
-/

namespace HeapLedger

namespace Ledger

def newHome (l : Ledger) (t : ThreadId) (s : ServiceId) : Ledger :=
  let svc := l.service s
  let context : Context :=
    { identity := .thread ⟨l.nextThread⟩, tracker := svc.threadTracker
      cache := { threshold := svc.threshold }, initialized := true }
  { l with
    contexts := l.contexts.add context
    nextThread := l.nextThread + 1
    threads := l.threads.modify t fun th =>
      { th with
        home := .settled s l.contexts.size
        carry := none
        destructors := .home :: th.destructors } }

/-- Gives a thread its own context, unless it has or had one, and charges it with what is carried for
the service. Inside a hook nothing can be charged, and what is carried is lost. -/
def settle (l : Ledger) (t : ThreadId) (s : ServiceId) : Ledger × Bool :=
  match (l.thread t).home with
  | .absent =>
    let carried := (l.thread t).carriedFor s
    let c := l.contexts.size
    let l := l.newHome t s
    if carried = 0 ∨ l.inHook t then (l, true)
    else l.guarded t fun l => ((l.post (.carried t s c carried)).absorb refuse t c carried, true)
  | _ => (l, false)

def homeOf (l : Ledger) (t : ThreadId) (s : ServiceId) : Option ContextId :=
  match (l.thread t).home with
  | .settled owner c => if owner = s then some c else none
  | _ => none

def homePending (l : Ledger) (t : ThreadId) (s : ServiceId) : Option Delta :=
  (l.homeOf t s).map fun c => (l.context c).pending

def flushHome (respond : Responder) (l : Ledger) (t : ThreadId) (s : ServiceId) :
    Ledger × Option Delta :=
  match l.homeOf t s with
  | none => (l, none)
  | some c =>
    let r := l.flush respond t c
    (r.1, some r.2)

end Ledger

end HeapLedger
