import HeapLedger.Ledger.Charge

/-!
# Rosters in the ledger

Contexts are published in rosters, and threads activate their keys there. A context is dropped only
while none of its keys is active, and its keys go with it.
-/

namespace HeapLedger

namespace Ledger

def markInitialized (l : Ledger) (c : ContextId) : Ledger :=
  l.modifyContext c fun ctx => { ctx with initialized := true }

def publish (l : Ledger) (r : RosterId) (k : TaskKey) (c : ContextId) : Ledger :=
  (l.modifyRoster r fun ro => { ro with contexts := ro.contexts.put k c }).modifyContext c fun ctx =>
    { ctx with published := k :: ctx.published }

def unpublish (l : Ledger) (r : RosterId) (k : TaskKey) : Ledger × Bool :=
  (l.modifyRoster r fun ro => { ro with contexts := ro.contexts.erase k },
    ((l.roster r).contexts.find? k).isSome)

def activate (l : Ledger) (t : ThreadId) (r : RosterId) (k : Option TaskKey) : Ledger :=
  l.modifyRoster r fun ro => { ro with active := ro.active.set t k }

/-- Whether a key of the context is active on some thread, be it one that has ended. -/
def inUse (l : Ledger) (c : ContextId) : Bool :=
  l.rosters.rows.any fun ro => ro.active.entries.any fun e => (l.context c).published.contains e.2

/-- Takes the keys of a context out of every roster for good, and closes the context. -/
def dropContext (l : Ledger) (t : ThreadId) (c : ContextId) : Ledger :=
  let keys := (l.context c).published
  { l with
    rosters := l.rosters.map (·.withdraw keys)
    deadKeys := keys ++ l.deadKeys }.closeContext t c

/-- Puts a context in the place of another one. It answers for the keys of the other one, too, which is
closed unless it was dropped before. -/
def replaceContext (l : Ledger) (t : ThreadId) (old new : ContextId) : Ledger :=
  let succeeded := l.modifyContext new fun ctx =>
    { ctx with published := (l.context old).published ++ ctx.published }
  if (l.context old).closed then succeeded else succeeded.closeContext t old

end Ledger

end HeapLedger
