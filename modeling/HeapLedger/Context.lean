import HeapLedger.Cache
import HeapLedger.Key

/-!
# Contexts

A context gathers what one task or one thread consumes, and commits it to its tracker.
-/

namespace HeapLedger

inductive Identity
  | thread (key : ThreadKey)
  | task (key : TaskKey)
  deriving DecidableEq

structure Context where
  identity : Identity
  tracker : TrackerId
  cache : Cache
  /-- Charges are skipped until the owner has set the context up. -/
  initialized : Bool := false
  /-- A closed context has made its last commit. -/
  closed : Bool := false
  /-- The keys that it, or a context in whose place it is, was ever published under. -/
  published : List TaskKey := []

instance : Inhabited Context := ⟨{ identity := .task default, tracker := 0, cache := default }⟩

def Context.pending (c : Context) : Delta := c.cache.pending

structure Account where
  key : TaskKey
  context : ContextId
  deriving DecidableEq, Inhabited

end HeapLedger
