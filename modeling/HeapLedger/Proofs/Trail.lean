import HeapLedger.Ledger.Perform

/-!
# What a journal says

The journal tells, the latest first, what every context took in and what every thread held for a
service until its context was there.
-/

namespace HeapLedger

namespace Entry

def intake? : Entry → Option (ContextId × Delta)
  | charged v =>
    match v.charge, v.context with
    | .task _, some c => some (c, v.delta)
    | .thread, some c => some (c, v.delta)
    | _, _ => none
  | accepted c d => some (c, d)
  | carried _ _ c d => some (c, d)
  | _ => none

def parked? : Entry → Option (ThreadId × ServiceId × Delta)
  | charged v => if v.charge = .parked then some (v.thread, v.service, v.delta) else none
  | _ => none

def carrier? : Entry → Option ThreadId
  | carried t _ _ _ => some t
  | _ => none

def receipt? : Entry → Option (String × Delta)
  | event (.received name b _) => some (name, b)
  | _ => none

end Entry

def receipts (entries : List Entry) : List (String × Delta) := entries.filterMap Entry.receipt?

theorem receipts_cons {e : Entry} (h : e.receipt? = none) (older : List Entry) :
    receipts (e :: older) = receipts older := List.filterMap_cons_none h

/-- What a thread held for a service. -/
def held (t : ThreadId) (s : ServiceId) : List Entry → Delta
  | [] => 0
  | e :: older =>
    match e.parked? with
    | some (t', s', d) => if t' = t ∧ s' = s then (held t s older).addClamped d else held t s older
    | none => held t s older

theorem held_cons {e : Entry} (h : e.parked? = none) (t : ThreadId) (s : ServiceId)
    (older : List Entry) : held t s (e :: older) = held t s older := by
  simp [held, h]

namespace Ledger

def Opened (l : Ledger) (a : Account) : Prop := .opened a ∈ l.journal

theorem opened_post {l : Ledger} {e : Entry} (h : ∀ a, e ≠ .opened a) {a : Account} :
    (l.post e).Opened a ↔ l.Opened a := by
  simp [Opened, post, Ne.symm (h a)]

end Ledger

end HeapLedger
