import HeapLedger.Charge
import HeapLedger.Context

/-!
# Threads

What one thread keeps to itself: whether it is inside a hook, the context of its own and the amount
held before there is one, the scopes entered on it, its binding to a worker slot, the last task it
resolved without one, and what is left to do when it ends.
-/

namespace HeapLedger

/-- An amount held for the context that `owner` is about to create. -/
structure Carry where
  owner : ServiceId
  delta : Delta

inductive Home
  | absent
  | settled (owner : ServiceId) (context : ContextId)
  /-- The context's destructor has started. -/
  | closed

/-- A scope, and the account that was active around it. -/
structure Scope where
  account : Account
  outer : Option Account

structure Worker where
  service : ServiceId
  slot : Nat
  deriving DecidableEq

/-- The last task that was found without a worker slot. -/
structure Recent where
  service : ServiceId
  key : TaskKey
  context : ContextId

inductive Destructor
  | home
  | exitCharges

structure Thread where
  inHook : Bool := false
  /-- Whether the thread itself, outside of any charge, keeps the hook closed. -/
  holdsGuard : Bool := false
  home : Home := .absent
  carry : Option Carry := none
  active : Option Account := none
  /-- The scopes that are entered, innermost first. -/
  scopes : List Scope := []
  /-- The slot that the thread resolves tasks in. -/
  worker : Option Worker := none
  /-- The binding that can still be given back. -/
  binding : Option Worker := none
  recent : Option Recent := none
  exitCharges : List Request := []
  /-- The destructors, the last registered first. -/
  destructors : List Destructor := []
  deriving Inhabited

def Thread.carriedFor (t : Thread) (owner : ServiceId) : Delta :=
  match t.carry with
  | some c => if c.owner = owner then c.delta else 0
  | none => 0

theorem Thread.carriedFor_congr {t t' : Thread} (h : t'.carry = t.carry) (owner : ServiceId) :
    t'.carriedFor owner = t.carriedFor owner := by
  rw [carriedFor, carriedFor, h]

theorem Thread.carriedFor_of_none {t : Thread} (h : t.carry = none) (owner : ServiceId) : t.carriedFor owner = 0 := by
  rw [carriedFor, h]

def Thread.recall? (t : Thread) (s : ServiceId) (k : TaskKey) : Option ContextId :=
  t.recent.bind fun e => if e.service = s ∧ e.key = k then some e.context else none

def Thread.innermost (t : Thread) : Option Account := t.scopes.head?.map (·.account)

def Thread.enter (t : Thread) (a : Account) : Thread :=
  { t with scopes := ⟨a, t.active⟩ :: t.scopes, active := some a }

/-- Leaves the innermost scope, which makes the account around it active again. -/
def Thread.leave (t : Thread) : Thread :=
  match t.scopes with
  | [] => t
  | s :: rest => { t with scopes := rest, active := s.outer }

end HeapLedger
