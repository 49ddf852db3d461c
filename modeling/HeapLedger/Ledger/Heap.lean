import HeapLedger.Ledger.Charge

/-!
# Blocks and hooks

Allocators call their hooks after a block is handed out and before it is taken back. What the memory
behind an allocator does is given: it answers a request with an address, or with none.
-/

namespace HeapLedger

structure SystemReport where
  /-- Whether every block is as large as it was asked for. -/
  covered : Bool
  before : Option Delta
  /-- Whether what is pending has grown by the usable sizes. -/
  heldIsSum : Option Bool
  after : Option Delta

namespace Ledger

def newAllocator (l : Ledger) (usable : UsableSize) : Ledger × AllocatorId :=
  ({ l with allocators := l.allocators.add { usable } }, l.allocators.size)

/-- Counts a call to the memory behind an allocator if it is made from inside a hook. -/
def countCall (l : Ledger) (t : ThreadId) (m : AllocatorId) : Ledger :=
  if l.inHook t then l.modifyAllocator m fun al => { al with nested := al.nested + 1 } else l

def usableSize (l : Ledger) (t : ThreadId) (m : AllocatorId) (a : Address) (layout : Layout) :
    Ledger × UInt64 :=
  (l.countCall t m, (l.allocator m).usable a layout)

/-! ## Hooks -/

def chargeBlock (l : Ledger) (t : ThreadId) (m : AllocatorId) (s : ServiceId) (kind : BlockEvent)
    (a : Address) (layout : Layout) : Ledger :=
  let r := l.usableSize t m a layout
  (r.1.charge t s (kind.delta r.2)).1

def runHook (t : ThreadId) (m : AllocatorId) (kind : BlockEvent) (a : Address) (layout : Layout)
    (l : Ledger) : Hook → Ledger
  | .adapter s => l.chargeBlock t m s kind a layout
  | .recorder name => l.event (.block name kind a layout)

def tellHook (t : ThreadId) (m : AllocatorId) (kind : BlockEvent) (a : Address) (layout : Layout)
    (l : Ledger) (hook : Hook × Nat) : Ledger :=
  runHook t m kind a layout
    (l.post (.reported { allocator := m, hook := hook.2, kind, address := a, layout, found := l.heap.find? a }))
    hook.1

/-- Charges a service for a block, and for none if there is no block. -/
def notify (l : Ledger) (t : ThreadId) (m : AllocatorId) (s : ServiceId) (kind : BlockEvent)
    (a : Option Address) (layout : Layout) : Ledger :=
  match a with
  | none => l
  | some a => l.chargeBlock t m s kind a layout

def runHooks (l : Ledger) (t : ThreadId) (m : AllocatorId) (kind : BlockEvent) (a : Address)
    (layout : Layout) : Ledger :=
  (l.allocator m).hooks.zipIdx.foldl (tellHook t m kind a layout) l

def install (l : Ledger) (m : AllocatorId) (h : Hook) : Ledger × Except RegisterError Nat :=
  let r := (l.allocator m).install h
  (l.modifyAllocator m fun _ => r.1, r.2)

/-- Counts an attempt to register, also one that is going to fail. All but the first are warned about. -/
def countRegistration (l : Ledger) (s : ServiceId) : Ledger :=
  let earlier := (l.service s).registrations
  let l := l.modifyService s fun svc => { svc with registrations := svc.registrations + 1 }
  if earlier = 0 then l else l.notice (.registeredAgain (earlier + 1))

def tellInstalled (l : Ledger) (threshold : UInt64) : Except RegisterError Nat → Ledger
  | .ok n => l.notice (.hooksRegistered n threshold)
  | .error .hookTableFull => l.notice (.registrationFailed .hookTableFull)
  | .error _ => l

def register (l : Ledger) (m : AllocatorId) (s : ServiceId) : Ledger × Except RegisterError Nat :=
  let r := (l.countRegistration s).install m (.adapter s)
  (r.1.tellInstalled (l.service s).threshold r.2, r.2)

/-! ## Blocks -/

def allocate (l : Ledger) (t : ThreadId) (m : AllocatorId) (layout : Layout) (granted : Option Address) :
    Ledger :=
  let l := l.countCall t m
  match granted with
  | none => l
  | some a => { l with heap := l.heap.put a ⟨m, layout⟩ }.runHooks t m .alloc a layout

def deallocate (l : Ledger) (t : ThreadId) (a : Address) : Ledger :=
  match l.heap.find? a with
  | none => l
  | some block =>
    let l := (l.runHooks t block.allocator .free a block.layout).countCall t block.allocator
    { l with heap := l.heap.erase a }

/-- Asks for another size of the block at an address. If the memory refuses, the block stays as it is,
and the hooks are told so. -/
def reallocate (l : Ledger) (t : ThreadId) (a : Address) (size : UInt64) (granted : Option Address) :
    Ledger :=
  match l.heap.find? a with
  | none => l
  | some block =>
    let m := block.allocator
    let l := (l.runHooks t m .free a block.layout).countCall t m
    match granted with
    | none => l.runHooks t m .alloc a block.layout
    | some a' =>
      let layout : Layout := { block.layout with size }
      { l with heap := (l.heap.erase a).put a' ⟨m, layout⟩ }.runHooks t m .alloc a' layout

/-! ## System blocks -/

def freshAddress (l : Ledger) : Address := l.heap.entries.foldl (fun a e => max a (e.1 + 1)) 1

/-- Registers a service with a new allocator that reserves what it is asked for, hands out a block of
each size, and takes all of them back. -/
def systemBlocks (l : Ledger) (t : ThreadId) (s : ServiceId) (sizes : List UInt64) (align : UInt64) :
    Ledger × SystemReport :=
  let m := l.allocators.size
  let l := ((l.newAllocator .exact).1.register m s).1
  let before := l.homePending t s
  let blocks := (sizes.map fun size => Layout.mk size align).zipIdx l.freshAddress
  let usable := blocks.map fun b => (l.allocator m).usable b.2 b.1
  let l := blocks.foldl (fun l b => l.allocate t m b.1 (some b.2)) l
  let held := l.homePending t s
  let sum : Int := usable.foldl (fun sum n => sum + n.toNat) 0
  let l := blocks.foldl (fun l b => l.deallocate t b.2) l
  (l, { covered := (sizes.zip usable).all fun p => p.1 ≤ p.2
        before
        heldIsSum := held.map fun p => p.toInt - (before.getD 0).toInt == sum
        after := l.homePending t s })

end Ledger

end HeapLedger
