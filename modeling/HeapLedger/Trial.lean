/-!
# Supervised jobs

A job ends with a value or in a panic. Whoever runs it on a thread of its own sees the same end: the value is handed
back, and the panic goes on with its text. Under a watchdog the caller does not wait any longer than so many seconds.
How long a job takes is not measured here, so that it is given whether the time is up before the job ends.
-/

namespace HeapLedger

inductive Job (α : Type) where
  | returns (value : α)
  | panics (message : String)

def timeLimit : Nat := 10

def timeoutMessage : String := "Test exceeded " ++ toString timeLimit ++ "-second timeout"

namespace Job

variable {α : Type}

def onFreshThread : Job α → Except String α
  | returns value => .ok value
  | panics message => .error message

def withWatchdog (expired : Bool) (job : Job α) : Except String α :=
  if expired then .error timeoutMessage else job.onFreshThread

/-- A caller can tell a watchdog from none only by the timeout, unless the job panics with the same text. -/
theorem withWatchdog_eq_onFreshThread_iff {expired : Bool} {job : Job α} :
    job.withWatchdog expired = job.onFreshThread ↔ expired = false ∨ job = panics timeoutMessage := by
  cases expired with
  | false => simp [withWatchdog]
  | true => cases job <;> simp [withWatchdog, onFreshThread, eq_comm]

end Job

end HeapLedger
