import HeapLedger.Ledger

/-!
# Trackers in the ledger

A new tracker stands below one that is there already, so an amount only travels to older trackers.
-/

namespace HeapLedger

namespace Ledger

def route (l : Ledger) (i : TrackerId) : List TrackerId := i :: (l.tracker i).above

def newTracker (l : Ledger) (kind : TrackerKind) (parent : Option TrackerId) : Ledger × TrackerId :=
  ({ l with trackers := l.trackers.add { kind, above := (parent.map l.route).getD [] } }, l.trackers.size)

def bindEcho (l : Ledger) (i : TrackerId) (charges : List Request) (answers : Option Nat) : Ledger :=
  l.modifyTracker i fun tr =>
    match tr.kind with
    | .counter .. => tr
    | .echo e => { tr with kind := .echo { e with charges, answers } }

end Ledger

end HeapLedger
