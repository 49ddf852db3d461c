import HeapLedger.Ledger.Home

/-!
# Charges through a service

A charge enters the hook, so the charges that trackers make meanwhile are refused. Trackers that are
reached outside of the hook have theirs answered by `charge` itself.
-/

namespace HeapLedger

namespace Ledger

def charge : Responder := fun l t s d =>
  if l.inHook t then refuse l t s d
  else
    let r := l.guarded t (·.chargeInHook t s d)
    match r.2 with
    | .parked => ((r.1.settle t s).1, .parked)
    | .skipped reason => (r.1.countSkip s, .skipped reason)
    | _ => r

/-- A charge without the service around it: nothing is counted, and no context is created. A thread
that is outside of the hook enters it for the charge. -/
def chargeBare (l : Ledger) (t : ThreadId) (s : ServiceId) (d : Delta) : Ledger × Charge :=
  if l.inHook t then l.chargeInHook t s d else l.guarded t (·.chargeInHook t s d)

def chargeOne (t : ThreadId) (event : Charge → Event) (l : Ledger) (r : Request) : Ledger :=
  let charged := l.charge t r.service r.delta
  charged.1.event (event charged.2)

def chargeAll (l : Ledger) (t : ThreadId) (event : Charge → Event) (requests : List Request) : Ledger :=
  requests.foldl (chargeOne t event) l

def flushThread (l : Ledger) (t : ThreadId) (s : ServiceId) : Ledger × Option Delta :=
  if l.inHook t then (l, none) else l.guarded t (·.flushHome charge t s)

def consume (l : Ledger) (t : ThreadId) (i : TrackerId) (b : Delta) : Ledger :=
  (l.post (.consumed i b)).propagate charge t i b

def closeContext (l : Ledger) (t : ThreadId) (c : ContextId) : Ledger :=
  ((l.modifyContext c fun ctx => { ctx with closed := true }).flush charge t c).1

/-! ## Charges from inside the hook -/

theorem charge_of_inHook {l : Ledger} {t : ThreadId} (h : l.inHook t = true) (s : ServiceId)
    (d : Delta) : l.charge t s d = refuse l t s d := by
  simp [charge, h]

end Ledger

end HeapLedger
