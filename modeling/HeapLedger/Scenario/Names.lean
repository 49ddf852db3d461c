import HeapLedger.Scenario.Fault

/-!
# Names

The parts of a ledger have names, each kind its own. A name that is given again stands for the new
part from then on. An account, a future or a context is dropped when it loses its name, and a context
answers for the keys of all the contexts that had its name before.
-/

namespace HeapLedger

structure Names where
  trackers : Directory String TrackerId := {}
  services : Directory String ServiceId := {}
  bares : Directory String ServiceId := {}
  accounts : Directory String Account := {}
  contexts : Directory String ContextId := {}
  /-- The last context of each name, dropped or not. -/
  lastContexts : Directory String ContextId := {}
  keys : Directory String TaskKey := {}
  rosters : Directory String RosterId := {}
  futures : Directory String FutureId := {}
  allocators : Directory String AllocatorId := {}
  blocks : Directory String Address := {}
  threads : Directory String ThreadId := {}

namespace Names

/-! ## Finding -/

def find {α : Type} (kind : Kind) (d : Directory String α) (name : String) : Except Fault α :=
  match d.find? name with
  | some a => .ok a
  | none => .error (.unknownName kind name)

def tracker (n : Names) (name : String) : Except Fault TrackerId := find .tracker n.trackers name

def service (n : Names) (name : String) : Except Fault ServiceId := find .service n.services name

def bare (n : Names) (name : String) : Except Fault ServiceId := find .bare n.bares name

def account (n : Names) (name : String) : Except Fault Account := find .account n.accounts name

def context (n : Names) (name : String) : Except Fault ContextId := find .context n.contexts name

def key (n : Names) (name : String) : Except Fault TaskKey := find .key n.keys name

def roster (n : Names) (name : String) : Except Fault RosterId := find .roster n.rosters name

def future (n : Names) (name : String) : Except Fault FutureId := find .future n.futures name

def allocator (n : Names) (name : String) : Except Fault AllocatorId := find .allocator n.allocators name

def block (n : Names) (name : String) : Except Fault Address := find .block n.blocks name

def thread (n : Names) (name : String) : Except Fault ThreadId := find .thread n.threads name

def ofService? (n : Names) (s : ServiceId) : Option String :=
  match n.services.entries.find? (·.2 = s) with
  | some e => some ("service." ++ e.1)
  | none => (n.bares.entries.find? (·.2 = s)).map fun e => "raw." ++ e.1

/-! ## Giving and taking -/

def displace (n : Names) (name : String) : Outcome → Option Action
  | .account _ => (n.accounts.find? name).map .releaseAccount
  | .future _ _ => (n.futures.find? name).map .dropFuture
  | .context c _ _ => (n.lastContexts.find? name).map (.replaceContext · c)
  | _ => none

def assign (n : Names) (name : String) : Outcome → Names
  | .tracker i _ => { n with trackers := n.trackers.put name i }
  | .echo i => { n with trackers := n.trackers.put name i }
  | .service s _ _ => { n with services := n.services.put name s }
  | .bare s => { n with bares := n.bares.put name s }
  | .account a => { n with accounts := n.accounts.put name a }
  | .future f _ => { n with futures := n.futures.put name f }
  | .roster r => { n with rosters := n.rosters.put name r }
  | .key k => { n with keys := n.keys.put name k }
  | .context c _ _ =>
    { n with contexts := n.contexts.put name c, lastContexts := n.lastContexts.put name c }
  | .allocator m => { n with allocators := n.allocators.put name m }
  | .block (some a) => { n with blocks := n.blocks.put name a }
  | _ => n

def release (n : Names) (name : String) : Action → Names
  | .closeAccount _ => { n with accounts := n.accounts.erase name }
  | .dropContext _ => { n with contexts := n.contexts.erase name }
  | .dropFuture _ => { n with futures := n.futures.erase name }
  | .deallocate _ => { n with blocks := n.blocks.erase name }
  | _ => n

end Names

end HeapLedger
