import HeapLedger.Ledger.Perform

/-!
# Runs

A run starts threads and does actions on them. Those who act have in hands what earlier actions have
given them, and act on nothing else: an account is entered or dropped by who has it, a context is
dropped once, and no key is activated that is still the name of a context that is gone.
-/

namespace HeapLedger

/-- What earlier actions have given out and no later one has taken back. -/
structure Holdings where
  accounts : List Account := []
  futures : List FutureId := []
  /-- The contexts that are published by hand. -/
  contexts : List ContextId := []
  /-- The threads that have ended. -/
  ended : List ThreadId := []

def Holdings.after (h : Holdings) (t : ThreadId) : Action → Outcome → Holdings
  | .exit, _ => { h with ended := t :: h.ended }
  | .openAccount .., .account a => { h with accounts := a :: h.accounts }
  | .closeAccount a, .done => { h with accounts := h.accounts.erase a }
  | .releaseAccount a, _ => { h with accounts := h.accounts.erase a }
  | .newFuture .., .future f _ => { h with futures := f :: h.futures }
  | .dropFuture f, _ => { h with futures := h.futures.erase f }
  | .newContext .., .context c _ _ => { h with contexts := c :: h.contexts }
  | .dropContext c, .done => { h with contexts := h.contexts.erase c }
  | .replaceContext old _, _ => { h with contexts := h.contexts.erase old }
  | _, _ => h

namespace Ledger

def Serves (l : Ledger) (requests : List Request) : Prop := ∀ r ∈ requests, r.service < l.services.size

/-- A context that is told to commit by who has it: by hand, or through an account or a future. -/
inductive Holds (l : Ledger) (h : Holdings) : ContextId → Prop
  | context {c} (hc : c ∈ h.contexts) : Holds l h c
  | account {a} (ha : a ∈ h.accounts) : Holds l h a.context
  | future {f} (hf : f ∈ h.futures) : Holds l h (l.future f).account.context

inductive Names (l : Ledger) (k : TaskKey) (c : ContextId) : Prop
  | roster {r} (hc : (l.roster r).contexts.find? k = some c) : Names l k c
  | slot {s i r} (hs : (l.service s).source = .roster r)
      (hc : ((l.service s).slots.get i).cached = some (k, c)) : Names l k c
  | recent {t s r} (hs : (l.service s).source = .roster r)
      (hc : (l.thread t).recent = some ⟨s, k, c⟩) : Names l k c

/-- What an action asks of those who do it. -/
def Admits (l : Ledger) (h : Holdings) : Action → Prop
  | .atExit r => r.service < l.services.size
  | .enter a | .closeAccount a | .releaseAccount a => a ∈ h.accounts
  | .newCounter _ parent | .newEcho _ parent => ∀ i ∈ parent, i < l.trackers.size
  | .bindEcho _ charges _ => l.Serves charges
  | .consume i _ => i < l.trackers.size
  | .newService settings => ∀ i ∈ settings.tracker, i < l.trackers.size
  | .newBare _ _ i _ => i < l.trackers.size
  | .charge s _ | .attach s | .flushThread s | .threadPending s | .bindWorker s | .chargeBare s _
  | .flushBare s | .systemBlocks s _ _ => s < l.services.size
  | .openAccount s i | .newContext _ s i => s < l.services.size ∧ i < l.trackers.size
  | .newFuture _ polls onDrop s i =>
    s < l.services.size ∧ i < l.trackers.size ∧ (∀ p ∈ polls, l.Serves p.charges) ∧ l.Serves onDrop
  | .poll f | .dropFuture f => f ∈ h.futures
  | .markInitialized c | .consumeContext c _ | .dropContext c => c ∈ h.contexts
  | .flushContext c => l.Holds h c
  | .publish _ c r => c ∈ h.contexts ∧ r < l.rosters.size
  | .unpublish _ r => r < l.rosters.size
  | .activate r key =>
    r < l.rosters.size ∧
      ∀ k ∈ key, k ∉ l.deadKeys → ∀ c, l.Names k c → (l.context c).closed = false
  | .replaceContext old new =>
    new ∈ h.contexts ∧ new ≠ old ∧
      ((l.context old).closed = true ∨ old ∈ h.contexts ∧ l.inUse old = false)
  | .register m s => m < l.allocators.size ∧ s < l.services.size
  | .install m _ | .usable m _ _ | .allocatorInfo m => m < l.allocators.size
  | .notify m s _ _ _ => m < l.allocators.size ∧ s < l.services.size
  | .allocate m _ granted => m < l.allocators.size ∧ ∀ a ∈ granted, l.heap.find? a = none
  | .reallocate a _ granted =>
    (l.heap.find? a).isSome ∧ ∀ a' ∈ granted, a' = a ∨ l.heap.find? a' = none
  | .deallocate a => (l.heap.find? a).isSome
  | _ => True

end Ledger

inductive Run : Holdings → Ledger → Prop
  | nil : Run {} {}
  | start {h l} (hr : Run h l) : Run h l.newThread.1
  | act {h l t a} (hr : Run h l) (ht : t < l.threads.size) (he : t ∉ h.ended) (ha : l.Admits h a) :
      Run (h.after t a (l.perform t a).2) (l.perform t a).1

/-! ## A run -/

open Ledger in
def entered : Ledger :=
  let l := (perform (newThread {}).1 0 (.newService { threshold := 10 })).1
  let l := (l.perform 0 (.openAccount 0 0)).1
  let l := (l.perform 0 (.enter ⟨⟨1⟩, 0⟩)).1
  (l.perform 0 (.charge 0 7)).1

theorem run_entered : Run { accounts := [⟨⟨1⟩, 0⟩] } entered := by
  have hstart : Run {} (Ledger.newThread {}).1 := .start .nil
  have hservice := hstart.act (t := 0) (a := .newService { threshold := 10 }) (by decide) (by decide)
    fun _ h => by cases h
  have hopen := hservice.act (t := 0) (a := .openAccount 0 0) (by decide) (by decide) (by constructor <;> decide)
  have henter := hopen.act (t := 0) (a := .enter ⟨⟨1⟩, 0⟩) (by decide) (by decide) (List.mem_cons_self ..)
  exact henter.act (t := 0) (a := .charge 0 7) (by decide) (by decide) (show 0 < Table.size _ by decide)

end HeapLedger
