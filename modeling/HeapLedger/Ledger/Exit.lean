import HeapLedger.Ledger.Account
import HeapLedger.Ledger.Worker

/-!
# The end of a thread

A thread leaves its scopes, gives its binding back and lets go of the hook. Then its destructors run,
the last registered first. A destructor that registers another one is followed by that one.
-/

namespace HeapLedger

namespace Ledger

def atExit (l : Ledger) (t : ThreadId) (r : Request) : Ledger :=
  l.modifyThread t fun th =>
    { th with
      exitCharges := th.exitCharges ++ [r]
      destructors := if th.exitCharges.isEmpty then .exitCharges :: th.destructors else th.destructors }

/-- Closes the thread's own context. From now on no charge reaches it, not even one that its last
commit gives rise to. -/
def closeHome (l : Ledger) (t : ThreadId) : Ledger :=
  match (l.thread t).home with
  | .settled _ c => (l.modifyThread t fun th => { th with home := .closed }).closeContext t c
  | _ => l

/-- Makes the charges that are left for the end. A context that they create is closed right after. -/
def runExitCharges (l : Ledger) (t : ThreadId) : Ledger :=
  let after := l.chargeAll t .atExit (l.thread t).exitCharges
  match (l.thread t).home with
  | .absent => after.closeHome t
  | _ => after

def destroy (t : ThreadId) (l : Ledger) : Destructor → Ledger
  | .home => l.closeHome t
  | .exitCharges => l.runExitCharges t

def exit (l : Ledger) (t : ThreadId) : Ledger :=
  let l := ((l.unwind t (l.depth t)).unbindWorker t).1
  let l := (l.unguardThread t).1
  (l.thread t).destructors.foldl (destroy t) l

end Ledger

end HeapLedger
