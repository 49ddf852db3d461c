import HeapLedger.Ledger.Charge

/-!
# Accounts and scopes

An account is the context of a task that is active while one of its scopes is entered. Scopes nest,
and leaving one makes the account around it active again. An account that nobody keeps any more is
closed when it is in no scope.
-/

namespace HeapLedger

namespace Ledger

/-! ## Accounts -/

def newKey (l : Ledger) : Ledger × TaskKey := ({ l with nextTask := l.nextTask + 1 }, ⟨l.nextTask⟩)

def newContext (l : Ledger) (s : ServiceId) (k : TaskKey) (i : TrackerId) (initialized : Bool) :
    Ledger × ContextId :=
  let context : Context :=
    { identity := .task k, tracker := i, initialized, cache := { threshold := (l.service s).threshold } }
  ({ l with contexts := l.contexts.add context }, l.contexts.size)

def openAccount (l : Ledger) (s : ServiceId) (i : TrackerId) : Ledger × Account :=
  let key := l.newKey
  let context := key.1.newContext s key.2 i true
  let account : Account := ⟨key.2, context.2⟩
  ((context.1.notice (.accountOpened key.2)).post (.opened account), account)

def closeAccount (l : Ledger) (t : ThreadId) (a : Account) : Ledger :=
  (l.notice (.accountClosed a.key (l.context a.context).pending)).closeContext t a.context

def inScope (l : Ledger) (a : Account) : Bool :=
  l.threads.rows.any fun th => th.scopes.any (·.account = a)

/-! ## Scopes -/

def enter (l : Ledger) (t : ThreadId) (a : Account) : Ledger :=
  l.modifyThread t (·.enter a)

def leave (l : Ledger) (t : ThreadId) : Ledger := l.modifyThread t Thread.leave

def depth (l : Ledger) (t : ThreadId) : Nat := (l.thread t).scopes.length

def within (l : Ledger) (t : ThreadId) (a : Account) (f : Ledger → Ledger) : Ledger :=
  (f (l.enter t a)).leave t

/-! ## Orphans -/

/-- Lets go of an account. It is closed at once, or after the last scope of it. -/
def release (l : Ledger) (t : ThreadId) (a : Account) : Ledger :=
  if l.inScope a then { l with orphans := a :: l.orphans } else l.closeAccount t a

def closeOrphan (l : Ledger) (t : ThreadId) (a : Account) : Ledger :=
  if l.orphans.contains a && !l.inScope a then
    { l with orphans := l.orphans.erase a }.closeAccount t a
  else l

/-- Leaves the innermost scope, if there is one, and closes its account if this was what kept it open. -/
def leaveScope (l : Ledger) (t : ThreadId) : Ledger :=
  match (l.thread t).scopes with
  | [] => l
  | s :: _ => (l.leave t).closeOrphan t s.account

def unwind (l : Ledger) (t : ThreadId) : Nat → Ledger
  | 0 => l
  | n + 1 => (l.leaveScope t).unwind t n

end Ledger

end HeapLedger
