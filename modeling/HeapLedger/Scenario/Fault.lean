import HeapLedger.Action

/-!
# Faults

What is wrong with a step: it cannot be read, it names something that is not there, or its action is
refused.
-/

namespace HeapLedger

inductive Kind
  | tracker | service | bare | account | context | key | roster | future | allocator | block | thread

def Kind.text : Kind → String
  | tracker => "tracker"
  | service => "service"
  | bare => "raw"
  | account => "account"
  | context => "context"
  | key => "key"
  | roster => "runtime"
  | future => "future"
  | allocator => "allocator"
  | block => "block"
  | thread => "thread"

inductive Fault
  | badInput (field : String)
  | unknownOp (op : String)
  | unknownName (kind : Kind) (name : String)
  | inUse (name : String)
  | deadKey (name : String)
  | notInScope
  | bind (e : BindError)
  | register (e : RegisterError)
  | panic (message : String)

namespace Fault

def kind : Fault → String
  | badInput _ => "bad_input"
  | unknownOp _ => "unknown_op"
  | unknownName .. => "unknown_name"
  | inUse _ => "in_use"
  | deadKey _ => "dead_key"
  | notInScope => "not_in_scope"
  | bind (.noFreeSlot _) => "NoFreeSlot"
  | bind .threadAlreadyBound => "ThreadAlreadyBound"
  | register _ => "HookTableFull"
  | panic _ => "panic"

def message : Fault → String
  | badInput field => field
  | unknownOp op => op
  | unknownName kind name => kind.text ++ " " ++ name
  | inUse name => name
  | deadKey name => name
  | notInScope => ""
  | bind e => e.message
  | register e => e.message
  | panic message => message

def ofRefusal (name : String) : Refusal → Fault
  | .notInScope => notInScope
  | .inUse => inUse name
  | .deadKey => deadKey name
  | .build e => panic e.message
  | .bind e => bind e
  | .register .hookTableFull => register .hookTableFull
  | .register e => panic e.message

end Fault

end HeapLedger
