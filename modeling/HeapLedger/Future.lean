import HeapLedger.Charge
import HeapLedger.Context

/-!
# Accounted futures

A future does a fixed piece of work each time it is polled, and a last one when it is dropped, always
inside the scope of an account of its own.
-/

namespace HeapLedger

inductive PollEnd
  | pending
  /-- Ready, with the text of a value. -/
  | ready (value : String)
  | panic (message : String)

structure PollScript where
  charges : List Request
  ending : PollEnd

structure Future where
  name : String
  account : Account
  /-- What the polls to come do. -/
  polls : List PollScript
  onDrop : List Request
  deriving Inhabited

/-- What the next poll does. Past the end of the script the future stays pending. -/
def Future.next (f : Future) : PollScript := f.polls.head?.getD { charges := [], ending := .pending }

end HeapLedger
