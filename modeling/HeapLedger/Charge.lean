import HeapLedger.Delta
import HeapLedger.Key

/-!
# Charges

A charge offers an amount to whoever is running. It says where the amount ended up.
-/

namespace HeapLedger

inductive SkipReason
  /-- The thread was already inside a hook. -/
  | reentrant
  /-- A task is active but has no context. -/
  | taskContextAbsent
  /-- The context is not ready for charges yet. -/
  | contextUninitialized
  /-- The thread belongs to another service. -/
  | foreignThreadContext
  /-- The thread is being torn down. -/
  | threadExiting
  deriving DecidableEq

inductive Charge
  | task (key : TaskKey)
  | thread
  /-- Held for the context that the thread gets right after. -/
  | parked
  | skipped (reason : SkipReason)
  deriving DecidableEq

structure Request where
  service : ServiceId
  delta : Delta

end HeapLedger
