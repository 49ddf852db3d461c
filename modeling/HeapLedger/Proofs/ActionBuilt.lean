import HeapLedger.Proofs.ChargeBuilt

/-!
# How actions are built

Whatever is done on a thread is built from whole charges and a few other steps, unless it is about the hook, a
binding or the end of the thread, or is charged without a service around it.
-/

namespace HeapLedger

open Ledger

def Action.binds : Action → Bool
  | bindWorker _ | unbindWorker | forgetBinding => true
  | _ => false

def Action.handles : Action → Bool
  | newAllocator _ | register .. | install .. | allocate .. | reallocate .. | deallocate _ | usable .. | notify ..
  | systemBlocks .. => true
  | _ => false

def Action.special : Action → Bool
  | exit | guard | unguard | bindWorker _ | unbindWorker | forgetBinding | chargeBare .. | describe _ => true
  | _ => false

/-- The action is told what is pending or how much may be, or it has to do with trackers. -/
def Action.reveals : Action → Bool
  | newEcho .. | bindEcho .. | consume .. | newService _ | flushThread _ | threadPending _ | newBare .. | flushBare _
  | newContext .. | consumeContext .. | flushContext _ => true
  | _ => false

namespace Ledger

variable (t : ThreadId)

/-! ## Steps -/

theorem charge_step (s : ServiceId) (d : Delta) : Built veil (Outer t) fun l => l.charge t s d := .step (.charge s d)

theorem read_built {P : StepKind} {α β : Type} {g : α → Ledger → Ledger × β} (v : Ledger → α)
    (hv : ∀ l, v l.veil = v l) (hg : ∀ a, Built veil P (g a)) : Built veil P fun l => g (v l) l := .read v hv hg

theorem aside_built {α : Type} {f : Ledger → Ledger × α} (hf : Aside f) (hb : Blockless f) : Built veil (Outer t) f :=
  .step (.basic (.aside hf hb))

theorem post_built {e : Entry} (he : e.Plain) : BuiltOnly veil (Outer t) (·.post e) := .step (.basic (.post he))

theorem charge_part (s : ServiceId) (d : Delta) : Built cover (Part t) fun l => l.charge t s d := .step (.charge s d)

theorem flush_part (c : ContextId) : BuiltOnly cover (Part t) fun l => (l.flush charge t c).1 := .step (.flush c)

theorem read_parts {P : StepKind} {α β : Type} {g : α → Ledger → Ledger × β} (v : Ledger → α)
    (hv : ∀ l, v l.cover = v l) (hg : ∀ a, Built cover P (g a)) : Built cover P fun l => g (v l) l := .read v hv hg

theorem apart_part {α : Type} {f : Ledger → Ledger × α} (hf : Apart f) (hb : Blockless f) : Built cover (Part t) f :=
  .step (.apart hf hb)

theorem post_part {e : Entry} (he : e.Plain) (hb : e.unbatch = some e) : BuiltOnly cover (Part t) (·.post e) :=
  .step (.post he hb)

theorem thread_part {f : Thread → Thread} (hf : Tame f) (hh : ∀ th, (f th).home = th.home) :
    BuiltOnly cover (Part t) (·.modifyThread t f) := .step (.thread hf hh)

theorem context_part (c : ContextId) {f : Context → Context}
    (hf : ∀ ctx cache, f { ctx with cache } = { f ctx with cache }) :
    BuiltOnly cover (Part t) (·.modifyContext c f) := .step (.context c hf)

/-! ## Charges and contexts -/

theorem scopes_veil (l : Ledger) : (l.veil.thread t).scopes = (l.thread t).scopes := by
  rw [thread_veil]; rfl

theorem threshold_veil (l : Ledger) (s : ServiceId) :
    (l.veil.service s).threshold = (l.service s).threshold := by
  rw [service_veil]; rfl

theorem newContext_built (s : ServiceId) (k : TaskKey) (i : TrackerId) (initialized : Bool) :
    Built veil (Outer t) fun l => l.newContext s k i initialized := by
  have hadd : ∀ threshold : UInt64, Built veil (Outer t) fun l =>
      ({ l with
        contexts := l.contexts.add { identity := .task k, tracker := i, initialized, cache := { threshold } } },
        l.contexts.size) :=
    fun _ => aside_built t (fun _ _ _ _ _ => rfl) fun _ => ⟨rfl, rfl⟩
  exact (read_built (fun l => (l.service s).threshold) (threshold_veil · s) hadd :)

theorem newTracker_built (kind : TrackerKind) (parent : Option TrackerId) :
    Built veil (Outer t) fun l => l.newTracker kind parent :=
  aside_built t (fun _ _ _ _ _ => rfl) fun _ => ⟨rfl, rfl⟩

theorem closing_built (a : Account) :
    BuiltOnly veil (Outer t) fun l => l.notice (.accountClosed a.key (l.context a.context).pending) :=
  (read_built (fun l => (l.context a.context).pending) (fun _ => rfl) fun pending =>
    post_built t (e := .notice (.accountClosed a.key pending)) trivial :)

end Ledger

theorem Part.outer {α : Type} {t : ThreadId} {f : Ledger → Ledger × α} (h : Part t α f) : Built veil (Outer t) f := by
  cases h with
  | post he => exact post_built t he
  | thread hf hh => exact .step (.basic (.thread hf hh))
  | context c => exact (replies_charge t).modifyContext c _
  | apart hf hb => exact aside_built t hf.aside hb
  | charge s d => exact charge_step t s d
  | settle s => exact .step (.settle s)
  | flush c => exact ((replies_charge t).flush c).quiet
  | newContext s k i initialized => exact newContext_built t s k i initialized
  | newCounter label parent => exact newTracker_built t _ parent
  | closing a => exact closing_built t a

theorem Built.outer {α : Type} {t : ThreadId} {f : Ledger → Ledger × α} (h : Built cover (Part t) f) :
    Built veil (Outer t) f :=
  h.mono cover_veil Part.outer

namespace Ledger

variable (t : ThreadId)

theorem chargeAll_parts (event : Charge → Event) (requests : List Request) :
    BuiltOnly cover (Part t) fun l => l.chargeAll t event requests := by
  have hone : ∀ r, BuiltOnly cover (Part t) fun l => chargeOne t event l r := fun r =>
    (charge_part t r.service r.delta).bind fun charge => post_part t (e := .event (event charge)) trivial rfl
  exact BuiltOnly.foldl hone requests

theorem chargeAll_built (event : Charge → Event) (requests : List Request) :
    BuiltOnly veil (Outer t) fun l => l.chargeAll t event requests := (chargeAll_parts t event requests).outer

theorem closeContext_parts (c : ContextId) : BuiltOnly cover (Part t) fun l => l.closeContext t c :=
  (context_part t c (f := fun ctx => { ctx with closed := true }) fun _ _ => rfl).seq (flush_part t c)

theorem closeContext_built (c : ContextId) : BuiltOnly veil (Outer t) fun l => l.closeContext t c :=
  (closeContext_parts t c).outer

/-! ## A thread's own context -/

theorem homeOf_veil (l : Ledger) (s : ServiceId) : l.veil.homeOf t s = l.homeOf t s := by
  simp only [homeOf, home_veil]

theorem homePending_veil (l : Ledger) (s : ServiceId) : l.veil.homePending t s = l.homePending t s := by
  rw [homePending, homeOf_veil]; rfl

theorem flushHome_built (s : ServiceId) : Built veil (Outer t) fun l => l.flushHome charge t s := by
  refine .split (·.homeOf t s) (homeOf_veil t · s) fun home => ?_
  cases home with
  | none => exact ⟨_, .done none, fun l h => by simp only [flushHome, h]⟩
  | some c =>
    exact ⟨_, ((replies_charge t).flush c).map some, fun l h => by simp only [flushHome, h]⟩

theorem flushThread_built (s : ServiceId) : Built veil (Outer t) fun l => l.flushThread t s :=
  .guarded t (flushHome_built t s) (.done none)

theorem consume_built (i : TrackerId) (b : Delta) : BuiltOnly veil (Outer t) fun l => l.consume t i b :=
  (post_built t (e := .consumed i b) trivial).seq ((replies_charge t).propagate i b)

/-! ## Accounts and scopes -/

theorem newKey_parts : Built cover (Part t) fun l => l.newKey :=
  apart_part t (fun _ _ _ _ _ _ _ => rfl) fun _ => ⟨rfl, rfl⟩

theorem openAccount_parts (s : ServiceId) (i : TrackerId) : Built cover (Part t) fun l => l.openAccount s i := by
  have hpost : ∀ (k : TaskKey) (c : ContextId), Built cover (Part t) fun l =>
      ((l.notice (.accountOpened k)).post (.opened ⟨k, c⟩), (⟨k, c⟩ : Account)) := fun k c =>
    (post_part t (e := .notice (.accountOpened k)) trivial rfl).seq
      ((post_part t (e := .opened ⟨k, c⟩) trivial rfl).answer (⟨k, c⟩ : Account))
  exact (newKey_parts t).bind fun k => .bind (.step (.newContext s k i true)) (hpost k)

theorem closeAccount_parts (a : Account) : BuiltOnly cover (Part t) fun l => l.closeAccount t a :=
  BuiltOnly.seq (.step (.closing a)) (closeContext_parts t a.context)

theorem inScope_cover (l : Ledger) (a : Account) : l.cover.inScope a = l.inScope a := by
  unfold inScope
  show (l.threads.rows.map _).any _ = _
  rw [List.any_map]
  rfl

theorem enter_parts (a : Account) : BuiltOnly cover (Part t) (·.enter t a) :=
  thread_part t (fun _ _ _ _ _ _ _ => rfl) fun _ => rfl

theorem leave_parts : BuiltOnly cover (Part t) (·.leave t) := by
  refine thread_part t (fun th _ _ _ _ _ _ => ?_) fun th => ?_
  · cases th with
    | mk _ _ _ _ _ scopes => cases scopes <;> rfl
  · unfold Thread.leave
    split <;> rfl

theorem within_parts (a : Account) {f : Ledger → Ledger} (hf : BuiltOnly cover (Part t) f) :
    BuiltOnly cover (Part t) fun l => l.within t a f :=
  (enter_parts t a).seq (hf.seq (leave_parts t))

theorem orphans_parts (f : List Account → List Account) :
    BuiltOnly cover (Part t) fun l => { l with orphans := f l.orphans } :=
  apart_part t (fun _ _ _ _ _ _ _ => rfl) fun _ => ⟨rfl, rfl⟩

theorem release_parts (a : Account) : BuiltOnly cover (Part t) fun l => l.release t a := by
  refine .split (·.inScope a) (inScope_cover · a) fun inScope => ?_
  cases inScope with
  | true => exact ⟨_, orphans_parts t (a :: ·), fun l h => by simp only [release, h, if_true]⟩
  | false => exact ⟨_, closeAccount_parts t a, fun l h => by
      simp only [release, h, Bool.false_eq_true, if_false]⟩

theorem closeOrphan_parts (a : Account) : BuiltOnly cover (Part t) fun l => l.closeOrphan t a := by
  refine .split (fun l => l.orphans.contains a && !l.inScope a) (fun l => by rw [inScope_cover]; rfl) fun free => ?_
  cases free with
  | true =>
    exact ⟨_, (orphans_parts t (·.erase a)).seq (closeAccount_parts t a), fun l h => by
      simp only [closeOrphan, h, if_true]⟩
  | false => exact ⟨_, .done (), fun l h => by
      simp only [closeOrphan, h, Bool.false_eq_true, if_false]⟩

theorem leaveScope_parts : BuiltOnly cover (Part t) fun l => l.leaveScope t := by
  refine .split (fun l => (l.thread t).scopes) (scopes_cover · t) fun scopes => ?_
  cases scopes with
  | nil => exact ⟨_, .done (), fun l h => by simp only [leaveScope, h]⟩
  | cons s rest =>
    exact ⟨_, (leave_parts t).seq (closeOrphan_parts t s.account), fun l h => by
      simp only [leaveScope, h]⟩

theorem unwind_parts : ∀ n : Nat, BuiltOnly cover (Part t) fun l => l.unwind t n
  | 0 => .done ()
  | n + 1 => (leaveScope_parts t).seq (unwind_parts n)

theorem unwind_built (n : Nat) : BuiltOnly veil (Outer t) fun l => l.unwind t n := (unwind_parts t n).outer

/-! ## Futures -/

theorem newFuture_parts (s : ServiceId) (i : TrackerId) (name : String) (polls : List PollScript)
    (onDrop : List Request) : Built cover (Part t) fun l => l.newFuture s i name polls onDrop := by
  have hadd : ∀ a : Account, Built cover (Part t) fun l =>
      ({ l with futures := l.futures.add { name, account := a, polls, onDrop } }, a) :=
    fun _ => apart_part t (fun _ _ _ _ _ _ _ => rfl) fun _ => ⟨rfl, rfl⟩
  exact (openAccount_parts t s i).bind hadd

theorem poll_parts (f : FutureId) : Built cover (Part t) fun l => l.poll t f := by
  have hnext : BuiltOnly cover (Part t) fun l =>
      { l with futures := l.futures.modify f fun future => { future with polls := future.polls.tail } } :=
    apart_part t (fun _ _ _ _ _ _ _ => rfl) fun _ => ⟨rfl, rfl⟩
  exact (read_parts (·.future f) (fun _ => rfl) fun future =>
    hnext.seq ((within_parts t future.account
      (chargeAll_parts t (.polled future.name) future.next.charges)).answer future.next.ending) :)

theorem dropFuture_parts (f : FutureId) : BuiltOnly cover (Part t) fun l => l.dropFuture t f :=
  (read_parts (·.future f) (fun _ => rfl) fun future =>
    (within_parts t future.account (chargeAll_parts t (.dropped future.name) future.onDrop)).seq
      (closeAccount_parts t future.account) :)

/-! ## Blocks -/

theorem blocks_built {α : Type} {f : Ledger → Ledger × α} (hf : Aside f) : Built veil (Handling t) f :=
  .step (.blocks hf)

theorem told_built {e : Entry} (he : e.Plain) : BuiltOnly veil (Handling t) (·.post e) := (post_built t he).handling

theorem countCall_built (m : AllocatorId) : BuiltOnly veil (Handling t) fun l => l.countCall t m :=
  have hcount : BuiltOnly veil (Handling t) (·.modifyAllocator m fun al => { al with nested := al.nested + 1 }) :=
    blocks_built t fun _ _ _ _ _ => rfl
  .split (·.inHook t) (inHook_veil · t) fun inHook => by
    cases inHook with
    | true => exact ⟨_, hcount, fun l h => by simp only [countCall, h, if_true]⟩
    | false => exact ⟨_, .done (), fun l h => by simp only [countCall, h, Bool.false_eq_true, if_false]⟩

theorem usableSize_built (m : AllocatorId) (a : Address) (layout : Layout) :
    Built veil (Handling t) fun l => l.usableSize t m a layout :=
  (read_built (fun l => (l.allocator m).usable a layout) (fun _ => rfl) fun size =>
    (countCall_built t m).answer size :)

theorem chargeBlock_built (m : AllocatorId) (s : ServiceId) (kind : BlockEvent) (a : Address) (layout : Layout) :
    BuiltOnly veil (Handling t) fun l => l.chargeBlock t m s kind a layout :=
  (usableSize_built t m a layout).bind fun size => (charge_step t s (kind.delta size)).quiet.handling

theorem notify_built (m : AllocatorId) (s : ServiceId) (kind : BlockEvent) (a : Option Address) (layout : Layout) :
    BuiltOnly veil (Handling t) fun l => l.notify t m s kind a layout := by
  cases a with
  | none => exact .done ()
  | some a => exact chargeBlock_built t m s kind a layout

theorem runHook_built (m : AllocatorId) (kind : BlockEvent) (a : Address) (layout : Layout) (hook : Hook) :
    BuiltOnly veil (Handling t) fun l => runHook t m kind a layout l hook := by
  cases hook with
  | adapter s => exact chargeBlock_built t m s kind a layout
  | recorder name => exact told_built t (e := .event (.block name kind a layout)) trivial

theorem tellHook_built (m : AllocatorId) (kind : BlockEvent) (a : Address) (layout : Layout) (hook : Hook × Nat) :
    BuiltOnly veil (Handling t) fun l => tellHook t m kind a layout l hook := by
  have hreport : ∀ r : Report, BuiltOnly veil (Handling t) (·.post (.reported r)) := fun r => .step (.report r)
  exact (read_built (·.heap.find? a) (fun _ => rfl) fun found =>
    (hreport ⟨m, hook.2, kind, a, layout, found⟩).seq (runHook_built t m kind a layout hook.1) :)

theorem runHooks_built (m : AllocatorId) (kind : BlockEvent) (a : Address) (layout : Layout) :
    BuiltOnly veil (Handling t) fun l => l.runHooks t m kind a layout :=
  (read_built (fun l => (l.allocator m).hooks.zipIdx) (fun _ => rfl) fun hooks =>
    BuiltOnly.foldl (tellHook_built t m kind a layout) hooks :)

theorem newAllocator_built (usable : UsableSize) : Built veil (Handling t) fun l => l.newAllocator usable :=
  blocks_built t fun _ _ _ _ _ => rfl

theorem install_built (m : AllocatorId) (hook : Hook) : Built veil (Handling t) fun l => l.install m hook := by
  have hinstall : ∀ al : Allocator, BuiltOnly veil (Handling t) (·.modifyAllocator m fun _ => al) :=
    fun _ => blocks_built t fun _ _ _ _ _ => rfl
  exact (read_built (fun l => (l.allocator m).install hook) (fun _ => rfl) fun installed =>
    (hinstall installed.1).answer installed.2 :)

theorem countRegistration_built (s : ServiceId) : BuiltOnly veil (Handling t) (·.countRegistration s) := by
  have hcount : BuiltOnly veil (Handling t)
      (·.modifyService s fun svc => { svc with registrations := svc.registrations + 1 }) := .step (.count s)
  have hwarn : ∀ earlier : Nat, BuiltOnly veil (Handling t) fun l =>
      if earlier = 0 then l else l.notice (.registeredAgain (earlier + 1)) := by
    intro earlier
    by_cases he : earlier = 0
    · simp only [he, if_true]
      exact .done ()
    · simp only [he, if_false]
      exact told_built t (e := .notice (.registeredAgain (earlier + 1))) trivial
  exact (read_built (fun l => (l.service s).registrations) (fun l => by rw [service_veil]; rfl) fun earlier =>
    hcount.seq (hwarn earlier) :)

theorem tellInstalled_built (threshold : UInt64) (installed : Except RegisterError Nat) :
    BuiltOnly veil (Handling t) (·.tellInstalled threshold installed) := by
  cases installed with
  | ok n => exact told_built t (e := .notice (.hooksRegistered n threshold)) trivial
  | error e =>
    cases e with
    | hookTableFull => exact told_built t (e := .notice (.registrationFailed .hookTableFull)) trivial
    | placeMissing | placeFilled => exact .done ()

theorem register_built (m : AllocatorId) (s : ServiceId) : Built veil (Handling t) fun l => l.register m s :=
  (read_built (fun l => (l.service s).threshold) (threshold_veil · s) fun threshold =>
    (countRegistration_built t s).seq ((install_built t m (.adapter s)).bind fun installed =>
      (tellInstalled_built t threshold installed).answer installed) :)

theorem heap_built (f : Directory Address Block → Directory Address Block) :
    BuiltOnly veil (Handling t) fun l => { l with heap := f l.heap } :=
  blocks_built t fun _ _ _ _ _ => rfl

theorem allocate_built (m : AllocatorId) (layout : Layout) (granted : Option Address) :
    BuiltOnly veil (Handling t) fun l => l.allocate t m layout granted := by
  cases granted with
  | none => exact countCall_built t m
  | some a =>
    exact (countCall_built t m).seq
      ((heap_built t (·.put a ⟨m, layout⟩)).seq (runHooks_built t m .alloc a layout))

theorem deallocate_built (a : Address) : BuiltOnly veil (Handling t) fun l => l.deallocate t a := by
  refine .split (·.heap.find? a) (fun _ => rfl) fun block => ?_
  cases block with
  | none => exact ⟨_, .done (), fun l h => by simp only [deallocate, h]⟩
  | some block =>
    have hfree := (runHooks_built t block.allocator .free a block.layout).seq
      ((countCall_built t block.allocator).seq (heap_built t (·.erase a)))
    exact ⟨_, hfree, fun l h => by simp only [deallocate, h]⟩

theorem reallocate_built (a : Address) (size : UInt64) (granted : Option Address) :
    BuiltOnly veil (Handling t) fun l => l.reallocate t a size granted := by
  refine .split (·.heap.find? a) (fun _ => rfl) fun block => ?_
  cases block with
  | none => exact ⟨_, .done (), fun l h => by simp only [reallocate, h]⟩
  | some block =>
    have hfree : ∀ {f : Ledger → Ledger}, BuiltOnly veil (Handling t) f → BuiltOnly veil (Handling t) fun l =>
        f ((l.runHooks t block.allocator .free a block.layout).countCall t block.allocator) := fun hf =>
      (runHooks_built t block.allocator .free a block.layout).seq
        ((countCall_built t block.allocator).seq hf)
    cases granted with
    | none =>
      exact ⟨_, hfree (runHooks_built t block.allocator .alloc a block.layout), fun l h => by
        simp only [reallocate, h]⟩
    | some a' =>
      let layout : Layout := { block.layout with size }
      have hmove := (heap_built t fun heap => (heap.erase a).put a' ⟨block.allocator, layout⟩).seq
        (runHooks_built t block.allocator .alloc a' layout)
      exact ⟨_, hfree hmove, fun l h => by simp only [reallocate, h]; rfl⟩

/-- What is pending is looked at before, between and after. -/
theorem systemBlocks_built (s : ServiceId) (sizes : List UInt64) (align : UInt64) :
    Built veil (Handling t) fun l => l.systemBlocks t s sizes align := by
  have hall : ∀ (m : AllocatorId) (blocks : List (Layout × Address)), BuiltOnly veil (Handling t) fun l =>
      blocks.foldl (fun l b => l.allocate t m b.1 (some b.2)) l := fun m =>
    BuiltOnly.foldl fun b => allocate_built t m b.1 (some b.2)
  have hnone : ∀ blocks : List (Layout × Address), BuiltOnly veil (Handling t) fun l =>
      blocks.foldl (fun l b => l.deallocate t b.2) l :=
    BuiltOnly.foldl fun b => deallocate_built t b.2
  have hfree : ∀ (blocks : List (Layout × Address)) (report : Option Delta → SystemReport), Built veil (Handling t) fun l =>
      let l := blocks.foldl (fun l b => l.deallocate t b.2) l
      (l, report (l.homePending t s)) := fun blocks report =>
    (hnone blocks).seq
      (read_built (·.homePending t s) (homePending_veil t · s) fun after => .done (report after) :)
  have hallocate : ∀ (m : AllocatorId) (blocks : List (Layout × Address))
      (report : Option Delta → Option Delta → SystemReport), Built veil (Handling t) fun l =>
        let l := blocks.foldl (fun l b => l.allocate t m b.1 (some b.2)) l
        let held := l.homePending t s
        let l := blocks.foldl (fun l b => l.deallocate t b.2) l
        (l, report held (l.homePending t s)) := fun m blocks report =>
    (hall m blocks).seq
      (read_built (·.homePending t s) (homePending_veil t · s) fun held => hfree blocks (report held) :)
  have hround : ∀ m : AllocatorId, Built veil (Handling t) fun l =>
      let before := l.homePending t s
      let blocks := (sizes.map fun size => Layout.mk size align).zipIdx l.freshAddress
      let usable := blocks.map fun b => (l.allocator m).usable b.2 b.1
      let l := blocks.foldl (fun l b => l.allocate t m b.1 (some b.2)) l
      let held := l.homePending t s
      let sum : Int := usable.foldl (fun sum n => sum + n.toNat) 0
      let l := blocks.foldl (fun l b => l.deallocate t b.2) l
      (l, ({ covered := (sizes.zip usable).all fun p => p.1 ≤ p.2
             before
             heldIsSum := held.map fun p => p.toInt - (before.getD 0).toInt == sum
             after := l.homePending t s } : SystemReport)) := fun m =>
    let report (before : Option Delta) (usable : List UInt64) (held after : Option Delta) : SystemReport :=
      let sum : Int := usable.foldl (fun sum n => sum + n.toNat) 0
      { covered := (sizes.zip usable).all fun p => p.1 ≤ p.2
        before
        heldIsSum := held.map fun p => p.toInt - (before.getD 0).toInt == sum
        after }
    (read_built (fun l => (l.homePending t s, l.freshAddress, l.allocator m))
      (fun l => by rw [homePending_veil]; rfl) fun r =>
      hallocate m ((sizes.map fun size => Layout.mk size align).zipIdx r.2.1)
        (report r.1 (((sizes.map fun size => Layout.mk size align).zipIdx r.2.1).map fun b => r.2.2.usable b.2 b.1)) :)
  exact (read_built (·.allocators.size) (fun _ => rfl) fun m =>
    (newAllocator_built t .exact).quiet.seq ((register_built t m s).quiet.seq (hround m)) :)

/-! ## Rosters -/

theorem publish_parts (r : RosterId) (k : TaskKey) (c : ContextId) :
    BuiltOnly cover (Part t) fun l => l.publish r k c := by
  have hroster : BuiltOnly cover (Part t) (·.modifyRoster r fun ro => { ro with contexts := ro.contexts.put k c }) :=
    apart_part t (fun _ _ _ _ _ _ _ => rfl) fun _ => ⟨rfl, rfl⟩
  exact hroster.seq (context_part t c (f := fun ctx => { ctx with published := k :: ctx.published }) fun _ _ => rfl)

theorem unpublish_parts (r : RosterId) (k : TaskKey) : Built cover (Part t) fun l => l.unpublish r k :=
  apart_part t (fun _ _ _ _ _ _ _ => rfl) fun _ => ⟨rfl, rfl⟩

theorem activate_parts (r : RosterId) (k : Option TaskKey) : BuiltOnly cover (Part t) fun l => l.activate t r k :=
  apart_part t (fun _ _ _ _ _ _ _ => rfl) fun _ => ⟨rfl, rfl⟩

theorem published_cover (l : Ledger) (c : ContextId) : (l.cover.context c).published = (l.context c).published := by
  rw [context_cover]; rfl

theorem inUse_cover (l : Ledger) (c : ContextId) : l.cover.inUse c = l.inUse c := by
  simp only [inUse, published_cover]; rfl

theorem dropContext_parts (c : ContextId) : BuiltOnly cover (Part t) fun l => l.dropContext t c := by
  have hwithdraw : ∀ keys : List TaskKey, BuiltOnly cover (Part t) fun l =>
      { l with rosters := l.rosters.map (·.withdraw keys), deadKeys := keys ++ l.deadKeys } :=
    fun _ => apart_part t (fun _ _ _ _ _ _ _ => rfl) fun _ => ⟨rfl, rfl⟩
  exact (read_parts (fun l => (l.context c).published) (published_cover · c) fun keys =>
    (hwithdraw keys).seq (closeContext_parts t c) :)

theorem replaceContext_parts (old new : ContextId) :
    BuiltOnly cover (Part t) fun l => l.replaceContext t old new := by
  have hsucceed : BuiltOnly cover (Part t) fun l => l.modifyContext new fun ctx =>
      { ctx with published := (l.context old).published ++ ctx.published } :=
    (read_parts (fun l => (l.context old).published) (published_cover · old) fun keys =>
      context_part t new (f := fun ctx => { ctx with published := keys ++ ctx.published }) fun _ _ => rfl :)
  refine .split (fun l => (l.context old).closed) (fun l => by rw [context_cover]; rfl) fun closed => ?_
  cases closed with
  | true => exact ⟨_, hsucceed, fun l h => by simp only [replaceContext, h, if_true]⟩
  | false =>
    exact ⟨_, hsucceed.seq (closeContext_parts t old), fun l h => by
      simp only [replaceContext, h, Bool.false_eq_true, if_false]⟩

/-! ## Trackers and services -/

theorem addService_built (source : TaskSource) (slots : Nat) (i : TrackerId) (threshold : UInt64) :
    Built veil (Outer t) fun l => l.addService source slots i threshold :=
  .step (.basic (.addService source slots i threshold))

theorem newService_built (settings : ServiceSettings) : Built veil (Outer t) fun l => l.newService settings := by
  have htracker : Built veil (Outer t) fun l => l.trackerFor settings := by
    unfold trackerFor
    cases settings.tracker with
    | some i => exact .done i
    | none => exact newTracker_built t _ none
  have hrest : ∀ i : TrackerId, Built veil (Outer t) fun l =>
      (l.notice (.serviceCreated l.services.size settings.threshold settings.slots settings.source)).addService
        settings.source settings.slots i settings.threshold := fun i =>
    (read_built (·.services.size) (fun l => Table.size_map ..) fun n =>
      (post_built t (e := .notice (.serviceCreated n settings.threshold settings.slots settings.source)) trivial).seq
        (addService_built t settings.source settings.slots i settings.threshold) :)
  exact (htracker.bind hrest :)

/-! ## The hook, and the end of a thread -/

theorem atExit_parts (r : Request) : BuiltOnly cover (Part t) fun l => l.atExit t r :=
  thread_part t (fun _ _ _ _ _ _ _ => rfl) fun _ => rfl

theorem closeHome_parts : BuiltOnly cover (LastPart t) fun l => l.closeHome t := by
  have hclosed : BuiltOnly cover (LastPart t) (·.modifyThread t fun th => { th with home := .closed }) := .step .endHome
  refine .split (fun l => (l.thread t).home) (home_cover · t) fun home => ?_
  cases home with
  | settled owner c =>
    exact ⟨_, hclosed.seq (closeContext_parts t c).last, fun l h => by simp only [closeHome, h]⟩
  | absent => exact ⟨_, .done (), fun l h => by simp only [closeHome, h]⟩
  | closed => exact ⟨_, .done (), fun l h => by simp only [closeHome, h]⟩

theorem runExitCharges_parts : BuiltOnly cover (LastPart t) fun l => l.runExitCharges t := by
  refine .split (fun l => ((l.thread t).home, (l.thread t).exitCharges))
    (fun l => by rw [thread_cover]; rfl) fun ⟨home, requests⟩ => ?_
  have hcharges : BuiltOnly cover (LastPart t) fun l => l.chargeAll t .atExit requests :=
    (chargeAll_parts t .atExit requests).last
  cases home with
  | absent =>
    exact ⟨_, hcharges.seq (closeHome_parts t), fun l h => by
      obtain ⟨hhome, hrequests⟩ := Prod.mk.inj h
      simp only [runExitCharges, hhome, hrequests]⟩
  | settled | closed =>
    exact ⟨_, hcharges, fun l h => by
      obtain ⟨hhome, hrequests⟩ := Prod.mk.inj h
      simp only [runExitCharges, hhome, hrequests]⟩

theorem destroy_parts (destructor : Destructor) : BuiltOnly cover (LastPart t) fun l => destroy t l destructor := by
  cases destructor with
  | home => exact closeHome_parts t
  | exitCharges => exact runExitCharges_parts t

theorem destroys_parts : BuiltOnly cover (LastPart t) fun l => (l.thread t).destructors.foldl (destroy t) l :=
  (Built.read (u := cover) (P := LastPart t) (fun l => (l.thread t).destructors) (fun l => by rw [thread_cover]; rfl)
    fun destructors => BuiltOnly.foldl (destroy_parts t) destructors :)

theorem destroys_built : BuiltOnly veil (Ending t) fun l => (l.thread t).destructors.foldl (destroy t) l := by
  refine (destroys_parts t).mono cover_veil fun h => ?_
  cases h with
  | part h => exact h.outer.ending
  | endHome => exact .step .endHome

theorem destroys_core : BuiltOnly veil (Core t fun _ => True) fun l => (l.thread t).destructors.foldl (destroy t) l :=
  (destroys_built t).mono veil_veil Ending.built

/-! ## Actions -/

theorem toldOr_built {P : StepKind} {ε α : Type} {f : Ledger → Ledger × Except ε α} (hf : Built veil P f)
    (refusal : ε → Refusal) (outcome : α → Outcome) :
    Built veil P fun l => toldOr refusal outcome (f l) := by
  have htell : ∀ r, Built veil P fun l => toldOr refusal outcome (l, r) := by
    intro r
    cases r <;> exact .done _
  exact hf.bind htell

theorem activeKey_cover (l : Ledger) : l.cover.activeKey t = l.activeKey t := by
  rw [activeKey, thread_cover]; rfl

theorem depth_cover (l : Ledger) : l.cover.depth t = l.depth t := by
  rw [depth, scopes_cover]; rfl

theorem toldActive_parts {f : Ledger → Ledger} (hf : BuiltOnly cover (Part t) f) :
    Built cover (Part t) fun l => (f l).toldActive t :=
  hf.seq (read_parts (·.activeKey t) (activeKey_cover t) fun k => .done (Outcome.active k) :)

theorem insideScope_parts {f : Ledger → Ledger × Outcome} (hf : Built cover (Part t) f) :
    Built cover (Part t) fun l => l.insideScope t f :=
  (read_parts (·.depth t) (depth_cover t) fun depth =>
    .ite (depth = 0) (.done (.refused .notInScope)) hf :)

theorem activateOr_parts (r : RosterId) (key : Option TaskKey) :
    Built cover (Part t) fun l => l.activateOr t r key := by
  cases key with
  | none => exact (activate_parts t r none).answer (Outcome.active none)
  | some k =>
    exact (read_parts (·.deadKeys.contains k) (fun _ => rfl) fun dead =>
      .ite dead (.done (Outcome.refused .deadKey)) ((activate_parts t r (some k)).answer (Outcome.active (some k))) :)

theorem unwindScopes_parts (levels : Nat) : Built cover (Part t) fun l =>
    let l := l.unwind t (max 1 (min levels (l.depth t)))
    (l, Outcome.unwound (l.activeKey t) (l.depth t)) := by
  have htell : Built cover (Part t) fun l => (l, Outcome.unwound (l.activeKey t) (l.depth t)) :=
    (read_parts (fun l => (l.activeKey t, l.depth t)) (fun l => by rw [activeKey_cover, depth_cover]) fun r =>
      .done (Outcome.unwound r.1 r.2) :)
  exact (read_parts (·.depth t) (depth_cover t) fun depth =>
    (unwind_parts t (max 1 (min levels depth))).seq htell :)

theorem perform_parts {a : Action} (ha : a.special = false) (hb : a.handles = false) (hr : a.reveals = false) :
    Built cover (Part t) fun l => l.perform t a := by
  cases a with
  | exit | guard | unguard | bindWorker | unbindWorker | forgetBinding | chargeBare | describe => cases ha
  | newAllocator | register | install | allocate | reallocate | deallocate | usable | notify | systemBlocks => cases hb
  | newEcho | bindEcho | consume | newService | flushThread | threadPending | newBare | flushBare | newContext
  | consumeContext | flushContext => cases hr
  | atExit r => exact (atExit_parts t r).answer _
  | enter a => exact toldActive_parts t (enter_parts t a)
  | leave => exact insideScope_parts t (toldActive_parts t (leaveScope_parts t))
  | unwind levels => exact insideScope_parts t (unwindScopes_parts t levels)
  | active => exact toldActive_parts t (f := fun l => l) (.done ())
  | inHook =>
    exact (read_parts (·.inHook t) (fun l => by rw [inHook, thread_cover]; rfl) fun inHook =>
      .done (Outcome.inHook inHook) :)
  | scopedLookup k =>
    exact (read_parts (fun l => (l.scopedContext t k).isSome)
      (fun l => by rw [scopedContext, thread_cover]; rfl) fun found => .done (Outcome.found found) :)
  | newThreadKey => exact apart_part t (fun _ _ _ _ _ _ _ => rfl) fun _ => ⟨rfl, rfl⟩
  | newCounter label parent => exact Built.map (.step (.newCounter label parent)) fun i => Outcome.tracker i label
  | charge s d => exact (charge_part t s d).map _
  | attach s => exact Built.map (.step (.settle s)) _
  | openAccount s i => exact (openAccount_parts t s i).map _
  | closeAccount a =>
    exact (read_parts (·.inScope a) (inScope_cover · a) fun inScope =>
      .ite inScope (.done (Outcome.refused .inUse)) ((closeAccount_parts t a).answer .done) :)
  | releaseAccount a => exact (release_parts t a).answer _
  | newFuture name polls onDrop s i =>
    exact (read_parts (·.futures.size) (fun _ => rfl) fun n =>
      (newFuture_parts t s i name polls onDrop).map fun a => Outcome.future n a.key :)
  | poll f =>
    have htell : ∀ ending : PollEnd, Built cover (Part t) fun l => (l, Outcome.polled ending (l.activeKey t)) :=
      fun ending => (read_parts (·.activeKey t) (activeKey_cover t) fun k => .done (Outcome.polled ending k) :)
    exact (poll_parts t f).bind htell
  | dropFuture f => exact toldActive_parts t (dropFuture_parts t f)
  | newRoster => exact apart_part t (fun _ _ _ _ _ _ _ => rfl) fun _ => ⟨rfl, rfl⟩
  | newKey => exact (newKey_parts t).map _
  | markInitialized c =>
    exact (context_part t c (f := fun ctx => { ctx with initialized := true }) fun _ _ => rfl).answer _
  | publish k c r => exact (publish_parts t r k c).answer _
  | unpublish k r => exact (unpublish_parts t r k).map _
  | activate r k => exact activateOr_parts t r k
  | dropContext c =>
    exact (read_parts (·.inUse c) (inUse_cover · c) fun inUse =>
      .ite inUse (.done (Outcome.refused .inUse)) ((dropContext_parts t c).answer .done) :)
  | replaceContext old new => exact (replaceContext_parts t old new).answer _
  | allocatorInfo m =>
    exact (read_parts (·.allocator m) (fun _ => rfl) fun al =>
      .done (Outcome.allocatorInfo al.installed al.nested) :)

theorem perform_outer {a : Action} (ha : a.special = false) (hb : a.handles = false) :
    Built veil (Outer t) fun l => l.perform t a := by
  cases hr : a.reveals with
  | false => exact (perform_parts t ha hb hr).outer
  | true =>
    cases a with
    | newEcho name parent => exact (newTracker_built t _ parent).map _
    | bindEcho i charges answers => exact ((replies_charge t).modifyTracker i _).answer _
    | consume i b => exact (consume_built t i b).answer _
    | newService settings => exact toldOr_built (newService_built t settings) _ _
    | flushThread s => exact (flushThread_built t s).map _
    | threadPending s =>
      exact (read_built (·.homePending t s) (homePending_veil t · s) fun p => .done (Outcome.pending p) :)
    | newBare source slots i threshold => exact toldOr_built (addService_built t source slots i threshold) _ _
    | flushBare s => exact (flushHome_built t s).map _
    | newContext k s i =>
      exact (read_built (fun l => (l.service s).threshold) (threshold_veil · s) fun threshold =>
        (newContext_built t s k i false).map fun c => Outcome.context c k threshold :)
    | consumeContext c d => exact ((replies_charge t).accept c d).answer _
    | flushContext c => exact ((replies_charge t).flush c).map _
    | _ => cases hr

theorem perform_built {a : Action} (ha : a.special = false) : Built veil (Handling t) fun l => l.perform t a := by
  cases a with
  | newAllocator usable => exact (newAllocator_built t usable).map _
  | register m s => exact toldOr_built (register_built t m s) _ _
  | install m name => exact toldOr_built (install_built t m (.recorder name)) _ _
  | allocate m layout granted => exact (allocate_built t m layout granted).answer _
  | reallocate a size granted => exact (reallocate_built t a size granted).answer _
  | deallocate a => exact (deallocate_built t a).answer _
  | usable m a layout => exact (usableSize_built t m a layout).map _
  | notify m s kind a layout => exact (notify_built t m s kind a layout).answer _
  | systemBlocks s sizes align => exact (systemBlocks_built t s sizes align).map _
  | _ => exact (perform_outer t ha rfl).handling

end Ledger

end HeapLedger
