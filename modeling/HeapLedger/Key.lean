/-!
# Keys and numbers

Tasks and threads carry keys that are handed out once. Everything else is known by its number in a
table of the ledger.

There is no last key. A counter of 64 bits hands out the same ones until it has handed out `2 ^ 64` of them, and would
begin anew then.
-/

namespace HeapLedger

structure TaskKey where
  number : Nat
  deriving DecidableEq, Inhabited

structure ThreadKey where
  number : Nat
  deriving DecidableEq, Inhabited

def TaskKey.text (k : TaskKey) : String := "task-" ++ toString k.number

def ThreadKey.text (k : ThreadKey) : String := "thread-" ++ toString k.number

abbrev TrackerId := Nat
abbrev ContextId := Nat
abbrev ServiceId := Nat
abbrev ThreadId := Nat
abbrev RosterId := Nat
abbrev FutureId := Nat
abbrev AllocatorId := Nat

abbrev Address := Nat

end HeapLedger
