import HeapLedger.Ledger.Resolve

/-!
# Worker bindings

A thread takes the first free slot of a service and keeps it until the binding is given back. A
binding that is forgotten keeps both the slot and the thread bound. The flag of a slot, its cells and
what the thread knows of it are written one by one, and only the flag is tested and set at once.
-/

namespace HeapLedger

namespace Ledger

/-! ## Single steps -/

/-- Sets the flag of a slot, unless it is set. -/
def claim (l : Ledger) (s : ServiceId) (i : Nat) : Ledger × Bool :=
  if (l.slot s i).bound then (l, false) else (l.modifySlot s i fun slot => { slot with bound := true }, true)

def clearKey (l : Ledger) (w : Worker) : Ledger :=
  l.modifySlot w.service w.slot fun slot => { slot with key := none }

def clearContext (l : Ledger) (w : Worker) : Ledger :=
  l.modifySlot w.service w.slot fun slot => { slot with context := none }

def seat (l : Ledger) (t : ThreadId) (w : Worker) : Ledger :=
  ((l.modifyThread t fun th => { th with worker := some w, binding := some w }).post
    (.bound t w.service w.slot)).notice (.workerBound w.slot)

def unseat (l : Ledger) (t : ThreadId) : Ledger :=
  l.modifyThread t fun th => { th with worker := none, binding := none }

def vacate (l : Ledger) (w : Worker) : Ledger :=
  (l.modifySlot w.service w.slot fun slot => { slot with bound := false }).notice (.workerUnbound w.slot)

/-! ## Bindings -/

/-- Claims the first slot that can be claimed among some that follow each other. -/
def claimFrom (l : Ledger) (s : ServiceId) (i : Nat) : Nat → Ledger × Option Nat
  | 0 => (l, none)
  | n + 1 =>
    let r := l.claim s i
    if r.2 then (r.1, some i) else r.1.claimFrom s (i + 1) n

def bindWorker (l : Ledger) (t : ThreadId) (s : ServiceId) : Ledger × Except BindError Nat :=
  if (l.thread t).worker.isSome then (l, .error .threadAlreadyBound)
  else
    let r := l.claimFrom s 0 (l.service s).slots.size
    match r.2 with
    | none => (r.1, .error (.noFreeSlot (l.service s).slots.size))
    | some i => (((r.1.clearKey ⟨s, i⟩).clearContext ⟨s, i⟩).seat t ⟨s, i⟩, .ok i)

def unbindWorker (l : Ledger) (t : ThreadId) : Ledger × Bool :=
  match (l.thread t).binding with
  | none => (l, false)
  | some w => ((((l.clearKey w).clearContext w).unseat t).vacate w, true)

def forgetBinding (l : Ledger) (t : ThreadId) : Ledger × Bool :=
  (l.modifyThread t fun th => { th with binding := none }, (l.thread t).binding.isSome)

/-! ## All steps at once -/

end Ledger

def Service.freeSlot? (s : Service) : Option Nat :=
  (List.range s.slots.size).find? fun i => !(s.slots.get i).bound

namespace Ledger

/-- All that binding a thread to a free slot comes to. -/
def bindSlot (l : Ledger) (t : ThreadId) (s : ServiceId) (i : Nat) : Ledger :=
  (l.modifySlot s i fun _ => { bound := true }).seat t ⟨s, i⟩

def unbindSlot (l : Ledger) (t : ThreadId) (w : Worker) : Ledger :=
  ((l.modifySlot w.service w.slot fun _ => {}).unseat t).notice (.workerUnbound w.slot)

theorem claimFrom_eq (l : Ledger) (s : ServiceId) (n i : Nat) : l.claimFrom s i n =
    match (List.range' i n).find? fun j => !(l.slot s j).bound with
    | none => (l, none)
    | some j => (l.modifySlot s j fun slot => { slot with bound := true }, some j) := by
  induction n generalizing i with
  | zero => rfl
  | succ n ih =>
    rw [List.range'_succ]
    unfold claimFrom claim
    cases hb : (l.slot s i).bound with
    | true => simpa [hb] using ih (i + 1)
    | false => simp [hb]

theorem bindWorker_eq (l : Ledger) (t : ThreadId) (s : ServiceId) : l.bindWorker t s =
    if (l.thread t).worker.isSome then (l, .error .threadAlreadyBound)
    else
      match (l.service s).freeSlot? with
      | none => (l, .error (.noFreeSlot (l.service s).slots.size))
      | some i => (l.bindSlot t s i, .ok i) := by
  have hfree : ((List.range' 0 (l.service s).slots.size).find? fun j => !(l.slot s j).bound) =
      (l.service s).freeSlot? := by
    rw [← List.range_eq_range']
    rfl
  have hsteps : ∀ i,
      (((l.modifySlot s i fun slot => { slot with bound := true }).clearKey ⟨s, i⟩).clearContext ⟨s, i⟩) =
      l.modifySlot s i fun _ => { bound := true } := by
    intro i
    unfold clearKey clearContext
    rw [modifySlot_modifySlot, modifySlot_modifySlot]
    rfl
  unfold bindWorker
  rw [claimFrom_eq, hfree]
  split
  · rfl
  · cases (l.service s).freeSlot? with
    | none => rfl
    | some i => exact congrArg (fun l => (seat l t ⟨s, i⟩, Except.ok i)) (hsteps i)

theorem unbindWorker_eq (l : Ledger) (t : ThreadId) : l.unbindWorker t =
    match (l.thread t).binding with
    | none => (l, false)
    | some w => (l.unbindSlot t w, true) := by
  have hsteps : ∀ w : Worker, (((l.clearKey w).clearContext w).modifySlot w.service w.slot fun slot =>
      { slot with bound := false }) = l.modifySlot w.service w.slot fun _ => {} := by
    intro w
    unfold clearKey clearContext
    rw [modifySlot_modifySlot, modifySlot_modifySlot]
    rfl
  unfold unbindWorker
  cases (l.thread t).binding with
  | none => rfl
  | some w => exact congrArg (fun l => ((l.unseat t).notice (.workerUnbound w.slot), true)) (hsteps w)

end Ledger

end HeapLedger
