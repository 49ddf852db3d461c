import HeapLedger.Ledger.Tracker

/-!
# Commits

A context hands an amount to its tracker, and the amount travels up from there. An echo on the way
makes charges, and a `Responder` says how these are answered; inside a hook they are refused.
-/

namespace HeapLedger

abbrev Responder := Ledger → ThreadId → ServiceId → Delta → Ledger × Charge

namespace Ledger

/-- The answer to a charge that is made from inside a hook. -/
def refuse : Responder := fun l _ s _ => (l.countSkip s, .skipped .reentrant)

/-! ## Up the trackers -/

def answer (respond : Responder) (t : ThreadId) (name : String) (l : Ledger) (r : Request) : Ledger :=
  let answered := respond l t r.service r.delta
  answered.1.event (.answered name answered.2)

def deliver (respond : Responder) (t : ThreadId) (b : Delta) (l : Ledger) (i : TrackerId) : Ledger :=
  match (l.tracker i).kind with
  | .counter label totals =>
    l.modifyTracker i fun tr => { tr with kind := .counter label (totals.add b) }
  | .echo e =>
    let l := l.event (.received e.name b (l.inHook t))
    match e.spend? with
    | none => l
    | some e' =>
      e.charges.foldl (answer respond t e.name) (l.modifyTracker i fun tr => { tr with kind := .echo e' })

def propagate (respond : Responder) (l : Ledger) (t : ThreadId) (i : TrackerId) (b : Delta) : Ledger :=
  (l.route i).foldl (deliver respond t b) l

/-! ## Contexts -/

def commit (respond : Responder) (l : Ledger) (t : ThreadId) (c : ContextId) (b : Delta) : Ledger :=
  propagate respond (l.post (.committed c b)) t (l.context c).tracker b

/-- An amount is added to what is pending in a context, which commits if that is too much now. -/
def absorb (respond : Responder) (l : Ledger) (t : ThreadId) (c : ContextId) (d : Delta) : Ledger :=
  let r := (l.context c).cache.consume d
  let l := l.modifyContext c fun ctx => { ctx with cache := r.1 }
  match r.2 with
  | none => l
  | some b => commit respond l t c b

def accept (respond : Responder) (l : Ledger) (t : ThreadId) (c : ContextId) (d : Delta) : Ledger :=
  absorb respond (l.post (.accepted c d)) t c d

/-- A context commits what is pending, be it zero. Returns the amount. -/
def flush (respond : Responder) (l : Ledger) (t : ThreadId) (c : ContextId) : Ledger × Delta :=
  let r := (l.context c).cache.take
  let l := (l.post (.flushed c)).modifyContext c fun ctx => { ctx with cache := r.1 }
  (commit respond l t c r.2, r.2)

end Ledger

end HeapLedger
