import HeapLedger.Ledger.Perform
import HeapLedger.Scenario.Names

/-!
# Scenarios

A scenario gives names to the parts of a ledger and acts on them step by step. After each step it
tells the result, what was seen meanwhile, and every reading that is new or different.
-/

namespace HeapLedger

/-- An action, and the name of what it makes, drops or is refused for. -/
structure Step where
  action : Action
  name : String := ""
  /-- A fault that shows only when the action has been done, so that what it has made gets no name. -/
  late : Option Fault := none

inductive Reading
  | totals (t : Totals)
  | stats (lookups skipped : Nat)
  | lookups (n : Nat)
  | pending (amount : Delta)
  | context (pending : Delta) (initialized : Bool)
  /-- What is pending in a thread's own context, and whose context that is, if the owner has a name. -/
  | home (pending : Option (String × Delta))
  deriving DecidableEq

structure Scenario where
  ledger : Ledger := {}
  names : Names := {}
  /-- What was read after the last step. -/
  readings : Directory String Reading := {}
  /-- What was last read on each thread. -/
  homes : Directory String (String × Delta) := {}

structure Answer where
  result : Except Fault Outcome
  changes : List (String × Reading)
  events : List Event
  notices : List Notice

namespace Scenario

/-! ## Questions -/

def echo (sc : Scenario) (name : String) : Except Fault TrackerId := do
  let i ← sc.names.tracker name
  match (sc.ledger.tracker i).kind with
  | .echo _ => .ok i
  | .counter .. => .error (.badInput "tracker")

def grant (sc : Scenario) (fail : Bool) : Option Address :=
  if fail then none else some sc.ledger.freshAddress

/-! ## Reading -/

def read {α : Type} (kind : String) (d : Directory String α) (f : α → Option Reading) :
    List (String × Reading) :=
  d.entries.filterMap fun e => (f e.2).map (kind ++ "." ++ e.1, ·)

def readAll (sc : Scenario) : List (String × Reading) :=
  let l := sc.ledger
  read "tracker" sc.names.trackers (fun i => (l.tracker i).totals?.map .totals)
    ++ read "service" sc.names.services
      (fun s => some (.stats (l.service s).lookups (l.service s).skipped))
    ++ read "raw" sc.names.bares (fun s => some (.lookups (l.service s).lookups))
    ++ read "account" sc.names.accounts (fun a => some (.pending (l.context a.context).pending))
    ++ read "future" sc.names.futures
      (fun f => some (.pending (l.context (l.future f).account.context).pending))
    ++ read "context" sc.names.contexts
      (fun c => some (.context (l.context c).pending (l.context c).initialized))

def readHome (sc : Scenario) (t : ThreadId) : Option (String × Delta) :=
  match (sc.ledger.thread t).home with
  | .settled s c => (sc.names.ofService? s).map (·, (sc.ledger.context c).pending)
  | _ => none

/-- Reads everything again. Returns what is new or different, but nothing of a thread that has ended. -/
def observe (sc : Scenario) (on : String) : Scenario × List (String × Reading) :=
  let now := sc.readAll
  let home := (sc.names.threads.find? on).map sc.readHome
  let changes := now.filter fun e => sc.readings.find? e.1 != some e.2
  let moved := home.toList.filter (sc.homes.find? on != ·)
  ({ sc with readings := ⟨now⟩, homes := sc.homes.set on home.join },
    changes ++ moved.map ("thread." ++ on, .home ·))

/-! ## Steps -/

/-- The thread that a step is done on, which starts if none of that name runs. -/
def start (sc : Scenario) (on : String) : Scenario × ThreadId :=
  match sc.names.threads.find? on with
  | some t => (sc, t)
  | none =>
    let (ledger, t) := sc.ledger.newThread
    ({ sc with ledger, names := { sc.names with threads := sc.names.threads.put on t } }, t)

/-- Gives a name to what an action has made, takes it from what an action has dropped, and drops what
had the name before. -/
def rename (sc : Scenario) (t : ThreadId) (name : String) (action : Action) (outcome : Outcome) :
    Scenario :=
  let names := (sc.names.assign name outcome).release name action
  match sc.names.displace name outcome with
  | none => { sc with names }
  | some drop => { sc with names, ledger := (sc.ledger.perform t drop).1 }

def act (sc : Scenario) (t : ThreadId) (step : Step) : Scenario × Except Fault Outcome :=
  let (ledger, outcome) := sc.ledger.perform t step.action
  let sc := { sc with ledger }
  match step.late, outcome with
  | some e, _ => (sc, .error e)
  | none, .refused r => (sc, .error (Fault.ofRefusal step.name r))
  | none, _ => (sc.rename t step.name step.action outcome, .ok outcome)

def exit (sc : Scenario) (on : String) : Scenario × Except Fault Outcome :=
  match sc.names.thread on with
  | .error e => (sc, .error e)
  | .ok t =>
    let (sc, result) := sc.act t { action := .exit }
    ({ sc with names := { sc.names with threads := sc.names.threads.erase on } }, result)

def attempt (sc : Scenario) (on : String) : Except Fault Step → Scenario × Except Fault Outcome
  | .error e => ((sc.start on).1, .error e)
  | .ok step =>
    match step.action with
    | .exit => sc.exit on
    | _ =>
      let (sc, t) := sc.start on
      sc.act t step

def step (sc : Scenario) (on : String) (request : Except Fault Step) : Scenario × Answer :=
  let before := sc.ledger.journal.length
  let (sc, result) := sc.attempt on request
  let entries := (sc.ledger.journal.take (sc.ledger.journal.length - before)).reverse
  let (sc, changes) := sc.observe on
  (sc, { result, changes
         events := entries.filterMap Entry.event?
         notices := entries.filterMap Entry.notice? })

end Scenario

end HeapLedger
