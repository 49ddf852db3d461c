import HeapLedger.Ledger.Account

/-!
# Futures in the ledger

A future is polled and dropped inside a scope of its account. The account is closed after that scope.
-/

namespace HeapLedger

namespace Ledger

def newFuture (l : Ledger) (s : ServiceId) (i : TrackerId) (name : String) (polls : List PollScript)
    (onDrop : List Request) : Ledger × Account :=
  let opened := l.openAccount s i
  ({ opened.1 with futures := opened.1.futures.add { name, account := opened.2, polls, onDrop } }, opened.2)

/-- Polls a future inside its scope, which is left also when the poll panics. -/
def poll (l : Ledger) (t : ThreadId) (f : FutureId) : Ledger × PollEnd :=
  let future := l.future f
  let l := { l with futures := l.futures.modify f fun future => { future with polls := future.polls.tail } }
  (l.within t future.account (·.chargeAll t (.polled future.name) future.next.charges),
    future.next.ending)

/-- Drops a future inside its scope, and closes its account after that. -/
def dropFuture (l : Ledger) (t : ThreadId) (f : FutureId) : Ledger :=
  let future := l.future f
  (l.within t future.account (·.chargeAll t (.dropped future.name) future.onDrop)).closeAccount t
    future.account

end Ledger

end HeapLedger
