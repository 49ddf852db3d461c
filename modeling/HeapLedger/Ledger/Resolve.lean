import HeapLedger.Ledger.Commit

/-!
# Who is charged

Inside the hook, a charge goes to the task that is active on the thread, and to the thread itself if
none is. The source of active tasks is asked for a task's context only if the context is not
remembered: a worker remembers the last task in its slot, any other thread the last task found.
-/

namespace HeapLedger

namespace Ledger

/-! ## Active tasks -/

def activeTask (l : Ledger) (t : ThreadId) (s : ServiceId) : Option TaskKey :=
  match (l.service s).source with
  | .scopes => (l.thread t).active.map (·.key)
  | .roster r => (l.roster r).active.find? t

/-- The context of a key when the active scope is its own. -/
def scopedContext (l : Ledger) (t : ThreadId) (k : TaskKey) : Option ContextId :=
  (l.thread t).active.bind fun a => if a.key = k then some a.context else none

def taskContext (l : Ledger) (t : ThreadId) (s : ServiceId) (k : TaskKey) : Option ContextId :=
  match (l.service s).source with
  | .scopes => l.scopedContext t k
  | .roster r => (l.roster r).contexts.find? k

def lookup (l : Ledger) (t : ThreadId) (s : ServiceId) (k : TaskKey) : Ledger × Option ContextId :=
  (l.modifyService s fun svc => { svc with lookups := svc.lookups + 1 }, l.taskContext t s k)

/-! ## Remembered tasks -/

def boundSlot (l : Ledger) (t : ThreadId) (s : ServiceId) : Option Nat :=
  (l.thread t).worker.bind fun w => if w.service = s then some w.slot else none

def slot (l : Ledger) (s : ServiceId) (i : Nat) : Slot := (l.service s).slots.get i

def modifySlot (l : Ledger) (s : ServiceId) (i : Nat) (f : Slot → Slot) : Ledger :=
  l.modifyService s fun svc => { svc with slots := svc.slots.modify i f }

theorem modifySlot_modifySlot (l : Ledger) (s : ServiceId) (i : Nat) (f g : Slot → Slot) :
    (l.modifySlot s i f).modifySlot s i g = l.modifySlot s i (g ∘ f) := by
  refine congrArg (fun services => { l with services }) ((Table.modify_modify ..).trans ?_)
  congr 1
  funext svc
  exact congrArg (fun slots => { svc with slots }) (Table.modify_modify ..)

/-- The context that is remembered for a key: a worker remembers it in its slot. -/
def remembered (l : Ledger) (t : ThreadId) (s : ServiceId) (k : TaskKey) : Option ContextId :=
  match l.boundSlot t s with
  | some i => (l.slot s i).recall? k
  | none => (l.thread t).recall? s k

def reused (l : Ledger) (t : ThreadId) (s : ServiceId) (k : TaskKey) : Option ContextId :=
  if l.recalls then l.remembered t s k else none

/-- Remembers what the source has answered. A slot forgets its last task also when there is no context,
a thread does not. -/
def memorize (l : Ledger) (t : ThreadId) (s : ServiceId) (k : TaskKey) (answer : Option ContextId) :
    Ledger :=
  match l.boundSlot t s with
  | some i =>
    (l.modifySlot s i fun slot => { slot with key := answer.map fun _ => k }).modifySlot s i fun slot =>
      { slot with context := answer }
  | none =>
    match answer with
    | some c => l.modifyThread t fun th => { th with recent := some ⟨s, k, c⟩ }
    | none => l

/-- The two cells of a slot are written as if at once. -/
theorem memorize_eq (l : Ledger) (t : ThreadId) (s : ServiceId) (k : TaskKey) (answer : Option ContextId) :
    l.memorize t s k answer =
      match l.boundSlot t s with
      | some i => l.modifySlot s i fun slot => { slot with key := answer.map fun _ => k, context := answer }
      | none =>
        match answer with
        | some c => l.modifyThread t fun th => { th with recent := some ⟨s, k, c⟩ }
        | none => l := by
  unfold memorize
  cases l.boundSlot t s with
  | some i => exact modifySlot_modifySlot ..
  | none => rfl

def seek (l : Ledger) (t : ThreadId) (s : ServiceId) (k : TaskKey) : Ledger × Option ContextId :=
  match l.reused t s k with
  | some c => (l, some c)
  | none =>
    let r := l.lookup t s k
    (r.1.memorize t s k r.2, r.2)

def resolve (l : Ledger) (t : ThreadId) (s : ServiceId) (k : TaskKey) : Ledger × Option ContextId :=
  let r := l.seek t s k
  (r.1.post (.resolved
    { thread := t, service := s, source := (l.service s).source, slot := l.boundSlot t s, key := k
      known := l.taskContext t s k, live := (l.taskContext t s k).any fun c => !(l.context c).closed
      context := r.2 }), r.2)

theorem seek_of_reused {l : Ledger} {t : ThreadId} {s : ServiceId} {k : TaskKey} {c : ContextId}
    (h : l.reused t s k = some c) : l.seek t s k = (l, some c) := by
  simp only [seek, h]

theorem seek_of_not_reused {l : Ledger} {t : ThreadId} {s : ServiceId} {k : TaskKey} (h : l.reused t s k = none) :
    l.seek t s k = ((l.lookup t s k).1.memorize t s k (l.taskContext t s k), l.taskContext t s k) := by
  simp only [seek, h, lookup]

/-- Nothing is changed by a search but what is remembered, and how often the source was asked. -/
theorem seek_eq (l : Ledger) (t : ThreadId) (s : ServiceId) (k : TaskKey) : ∃ f g,
    (∀ svc, f svc = { svc with lookups := (f svc).lookups, slots := (f svc).slots }) ∧
    (∀ th, g th = { th with recent := (g th).recent }) ∧
    (l.seek t s k).1 = (l.modifyService s f).modifyThread t g := by
  have hnone : ∀ l : Ledger, l.modifyThread t (fun th => th) = l := fun l =>
    congrArg (fun threads => { l with threads }) (Table.modify_id ..)
  unfold seek
  cases l.reused t s k with
  | some c =>
    refine ⟨fun svc => svc, fun th => th, fun _ => rfl, fun _ => rfl, ?_⟩
    exact (congrArg (fun services => { l with services }) (Table.modify_id ..)).symm.trans (hnone _).symm
  | none =>
    let asked (svc : Service) : Service := { svc with lookups := svc.lookups + 1 }
    dsimp only
    rw [memorize_eq]
    cases (l.lookup t s k).1.boundSlot t s with
    | some i =>
      refine ⟨fun svc => { asked svc with
        slots := svc.slots.modify i fun slot =>
          { slot with key := (l.lookup t s k).2.map fun _ => k, context := (l.lookup t s k).2 } },
        fun th => th, fun _ => rfl, fun _ => rfl, ?_⟩
      exact (congrArg (fun services => { l with services }) (Table.modify_modify ..)).trans (hnone _).symm
    | none =>
      cases (l.lookup t s k).2 with
      | none => exact ⟨asked, fun th => th, fun _ => rfl, fun _ => rfl, (hnone _).symm⟩
      | some c => exact ⟨asked, fun th => { th with recent := some ⟨s, k, c⟩ }, fun _ => rfl, fun _ => rfl, rfl⟩

/-! ## Charging -/

def verdict (l : Ledger) (t : ThreadId) (s : ServiceId) (d : Delta) (context : Option ContextId)
    (charge : Charge) : Verdict :=
  { thread := t, service := s, source := (l.service s).source, delta := d
    scope := (l.thread t).innermost, context, charge }

def conclude (l : Ledger) (t : ThreadId) (s : ServiceId) (d : Delta) (context : Option ContextId)
    (charge : Charge) : Ledger × Charge :=
  (l.post (.charged (l.verdict t s d context charge)), charge)

def chargeContext (l : Ledger) (t : ThreadId) (s : ServiceId) (c : ContextId) (d : Delta)
    (charge : Charge) : Ledger × Charge :=
  if (l.context c).initialized then
    let r := l.conclude t s d (some c) charge
    (r.1.absorb refuse t c d, r.2)
  else l.conclude t s d (some c) (.skipped .contextUninitialized)

def park (l : Ledger) (t : ThreadId) (s : ServiceId) (d : Delta) : Ledger × Charge :=
  match (l.thread t).carry with
  | some c =>
    if c.owner = s then
      (l.modifyThread t fun th => { th with carry := some ⟨s, c.delta.addClamped d⟩ }).conclude t s d
        none .parked
    else l.conclude t s d none (.skipped .foreignThreadContext)
  | none => (l.modifyThread t fun th => { th with carry := some ⟨s, d⟩ }).conclude t s d none .parked

def chargeThread (l : Ledger) (t : ThreadId) (s : ServiceId) (d : Delta) : Ledger × Charge :=
  match (l.thread t).home with
  | .absent => l.park t s d
  | .closed => l.conclude t s d none (.skipped .threadExiting)
  | .settled owner c =>
    if owner = s then l.chargeContext t s c d .thread
    else l.conclude t s d none (.skipped .foreignThreadContext)

def chargeTask (l : Ledger) (t : ThreadId) (s : ServiceId) (k : TaskKey) (d : Delta) :
    Ledger × Charge :=
  let r := l.resolve t s k
  match r.2 with
  | none => r.1.conclude t s d none (.skipped .taskContextAbsent)
  | some c => r.1.chargeContext t s c d (.task k)

def chargeInHook (l : Ledger) (t : ThreadId) (s : ServiceId) (d : Delta) : Ledger × Charge :=
  match l.activeTask t s with
  | some k => l.chargeTask t s k d
  | none => l.chargeThread t s d

end Ledger

end HeapLedger
