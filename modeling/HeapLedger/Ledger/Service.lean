import HeapLedger.Ledger.Tracker

/-!
# Services in the ledger

A service is built from settings. Without a tracker of its own for threads it gets a new counter.
-/

namespace HeapLedger

structure ServiceSettings where
  threshold : UInt64 := defaultThreshold
  slots : Nat := defaultSlots
  tracker : Option TrackerId := none
  source : TaskSource := .scopes

namespace Ledger

/-- Adds a service without telling anybody. One that cannot have its slots takes a number all the same. -/
def addService (l : Ledger) (source : TaskSource) (slots : Nat) (i : TrackerId) (threshold : UInt64) :
    Ledger × Except BuildError ServiceId :=
  let service : Service := { source, threshold, threadTracker := i }
  if slots ≤ maxSlots then
    let service := { service with slots := ⟨List.replicate slots {}⟩ }
    ({ l with services := l.services.add service }, .ok l.services.size)
  else ({ l with services := l.services.add service }, .error .capacityOverflow)

def trackerFor (l : Ledger) (settings : ServiceSettings) : Ledger × TrackerId :=
  match settings.tracker with
  | some i => (l, i)
  | none => l.newTracker (.counter "threads" {}) none

/-- Builds a service. It is announced before it has its slots. -/
def newService (l : Ledger) (settings : ServiceSettings) : Ledger × Except BuildError ServiceId :=
  let (l, i) := l.trackerFor settings
  let l := l.notice (.serviceCreated l.services.size settings.threshold settings.slots settings.source)
  l.addService settings.source settings.slots i settings.threshold

/-- Drops a service and its slots. No other service gets its number. -/
def dropService (l : Ledger) (s : ServiceId) : Ledger := l.modifyService s fun svc => { svc with slots := {} }

end Ledger

end HeapLedger
