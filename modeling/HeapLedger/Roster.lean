import HeapLedger.Directory
import HeapLedger.Key

/-!
# Where active tasks come from

A service learns which task is active on a thread, and where the task's context is, either from the
scopes that are entered there or from a roster that is kept by hand.
-/

namespace HeapLedger

inductive TaskSource
  | scopes
  | roster (r : RosterId)
  deriving DecidableEq

structure Roster where
  /-- The key that is active on each thread. -/
  active : Directory ThreadId TaskKey := {}
  /-- The context of each key. -/
  contexts : Directory TaskKey ContextId := {}
  deriving Inhabited

def Roster.withdraw (r : Roster) (keys : List TaskKey) : Roster :=
  { r with contexts := keys.foldl (·.erase ·) r.contexts }

end HeapLedger
