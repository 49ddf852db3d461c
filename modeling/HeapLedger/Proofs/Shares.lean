import HeapLedger.Proofs.ChargeMoves
import HeapLedger.Proofs.Slots
import HeapLedger.Proofs.Unbatched

/-!
# Shares

Threads share counters, and what services count. Everything else that a charge, a flush or a scope comes to is
one thread's own: what the thread keeps to itself, the context of its own, its slot, and the contexts of the
accounts that no other thread goes by.

`SameTo` says that two ledgers are the same to a thread, `KeepsTo` that nothing but what is the thread's own has
changed, and `InStep` that what is shared was raised by the same in two ledgers.
-/

namespace HeapLedger

open Ledger

def Service.plain (svc : Service) : Service :=
  { svc with slots := svc.slots.map fun _ => {}, lookups := 0, skipped := 0 }

/-- Two contexts that are in the same state, be they of different threads. -/
def Context.Like (ctx ctx' : Context) : Prop := ctx' = { ctx with identity := ctx'.identity }

section
variable {ctx ctx' ctx'' : Context}

theorem Context.Like.symm (h : ctx.Like ctx') : ctx'.Like ctx := by
  have hctx : { ctx' with identity := ctx.identity } = ctx :=
    congrArg (fun x : Context => { x with identity := ctx.identity }) h
  exact hctx.symm

theorem Context.Like.trans (h : ctx.Like ctx') (h' : ctx'.Like ctx'') : ctx.Like ctx'' := by
  have hctx : { ctx' with identity := ctx''.identity } = { ctx with identity := ctx''.identity } :=
    congrArg (fun x : Context => { x with identity := ctx''.identity }) h
  exact Eq.trans h' hctx

end

namespace Ledger

/-! ## What is shared, and what is not -/

def totals (l : Ledger) (i : TrackerId) : Totals := (l.tracker i).totals?.getD {}

@[ext]
structure Books where
  consumption : TrackerId → Delta
  commits : TrackerId → Nat
  lookups : ServiceId → Nat
  skipped : ServiceId → Nat
  contexts : Nat

def books (l : Ledger) : Books where
  consumption i := (l.totals i).consumption
  commits i := (l.totals i).commits
  lookups s := (l.service s).lookups
  skipped s := (l.service s).skipped
  contexts := l.contexts.size

/-- From `l` to `m`, what is shared was raised by as much as from `l'` to `m'`. -/
structure InStep (l l' m m' : Ledger) : Prop where
  consumption : ∀ i, m'.books.consumption i + l.books.consumption i = m.books.consumption i + l'.books.consumption i
  commits : ∀ i, m'.books.commits i + l.books.commits i = m.books.commits i + l'.books.commits i
  lookups : ∀ s, m'.books.lookups s + l.books.lookups s = m.books.lookups s + l'.books.lookups s
  skipped : ∀ s, m'.books.skipped s + l.books.skipped s = m.books.skipped s + l'.books.skipped s
  contexts : m'.books.contexts + l.books.contexts = m.books.contexts + l'.books.contexts

structure Frozen (l l' : Ledger) : Prop where
  trackers_size : l'.trackers.size = l.trackers.size
  services_size : l'.services.size = l.services.size
  threads_size : l'.threads.size = l.threads.size
  tracker : ∀ i, (l'.tracker i).unbatch = (l.tracker i).unbatch
  service : ∀ s, (l'.service s).plain = (l.service s).plain
  recalls : l'.recalls = l.recalls
  futures : l'.futures = l.futures

inductive SameHome (l l' : Ledger) : Home → Home → Prop
  | absent : SameHome l l' .absent .absent
  | closed : SameHome l l' .closed .closed
  | settled {s c c'} (h : (l.context c).Like (l'.context c')) : SameHome l l' (.settled s c) (.settled s c')

/-- Two ledgers are the same to a thread that goes by the accounts of `P`. -/
structure SameTo (t : ThreadId) (P : Account → Prop) (l l' : Ledger) : Prop extends Frozen l l' where
  thread : l'.thread t = { l.thread t with home := (l'.thread t).home }
  home : SameHome l l' (l.thread t).home (l'.thread t).home
  context : ∀ a, P a → l'.context a.context = l.context a.context
  slot : ∀ s i, (l.thread t).worker = some ⟨s, i⟩ → l'.slot s i = l.slot s i
  orphans : ∀ a, P a → l'.orphans.count a = l.orphans.count a
  elsewhere : ∀ a, P a → ∀ j, j ≠ t →
    (l'.thread j).scopes.any (·.account = a) = (l.thread j).scopes.any (·.account = a)

def Belongs (t : ThreadId) (P : Account → Prop) (l : Ledger) (c : ContextId) : Prop :=
  (∃ a, P a ∧ a.context = c) ∨ ∃ s, (l.thread t).home = .settled s c

/-- A thread that goes by the accounts of `P` has left alone whatever is not its own. -/
structure KeepsTo (t : ThreadId) (P : Account → Prop) (l l' : Ledger) : Prop extends Frozen l l' where
  thread : ∀ j, j ≠ t → l'.thread j = l.thread j
  worker : (l'.thread t).worker = (l.thread t).worker
  scopes : (∀ sc ∈ (l.thread t).scopes, P sc.account) → ∀ sc ∈ (l'.thread t).scopes, P sc.account
  stays : ∀ s c, (l.thread t).home = .settled s c → (l'.thread t).home = .settled s c
  home : ∀ s c, (l'.thread t).home = .settled s c →
    (l.thread t).home = .settled s c ∨ l.contexts.size ≤ c ∧ c < l'.contexts.size
  contexts_size : l.contexts.size ≤ l'.contexts.size
  context : ∀ c < l.contexts.size, ¬ Belongs t P l c → l'.context c = l.context c
  identity : ∀ c < l.contexts.size, (l'.context c).identity = (l.context c).identity
  fresh : ∀ c, l.contexts.size ≤ c → c < l'.contexts.size → ∃ s, (l'.thread t).home = .settled s c
  slot : ∀ s i, (l.thread t).worker ≠ some ⟨s, i⟩ → l'.slot s i = l.slot s i
  orphans : ∀ a, ¬ P a → l'.orphans.count a = l.orphans.count a

structure Placed (t : ThreadId) (P : Account → Prop) (l : Ledger) : Prop where
  counts : l.Counts
  scopes : ∀ sc ∈ (l.thread t).scopes, P sc.account
  account : ∀ a, P a → a.context < l.contexts.size
  home : ∀ s c, (l.thread t).home = .settled s c → c < l.contexts.size ∧ ∀ a, P a → a.context ≠ c

/-- Contexts of a thread in two ledgers that stand in for each other. -/
inductive Counterpart (t : ThreadId) (P : Account → Prop) (l l' : Ledger) : ContextId → ContextId → Prop
  | account {a} (ha : P a) : Counterpart t P l l' a.context a.context
  | home {s c c'} (h : (l.thread t).home = .settled s c) (h' : (l'.thread t).home = .settled s c') :
      Counterpart t P l l' c c'

variable {l l' l'' m m' n n' : Ledger} {t : ThreadId} {P : Account → Prop} {c c' : ContextId}

/-! ## One after another -/

theorem Frozen.refl (l : Ledger) : Frozen l l where
  trackers_size := rfl
  services_size := rfl
  threads_size := rfl
  tracker _ := rfl
  service _ := rfl
  recalls := rfl
  futures := rfl

theorem Frozen.symm (h : Frozen l l') : Frozen l' l where
  trackers_size := h.trackers_size.symm
  services_size := h.services_size.symm
  threads_size := h.threads_size.symm
  tracker i := (h.tracker i).symm
  service s := (h.service s).symm
  recalls := h.recalls.symm
  futures := h.futures.symm

theorem Frozen.trans (h : Frozen l l') (h' : Frozen l' l'') : Frozen l l'' where
  trackers_size := h'.trackers_size.trans h.trackers_size
  services_size := h'.services_size.trans h.services_size
  threads_size := h'.threads_size.trans h.threads_size
  tracker i := (h'.tracker i).trans (h.tracker i)
  service s := (h'.service s).trans (h.service s)
  recalls := h'.recalls.trans h.recalls
  futures := h'.futures.trans h.futures

theorem Frozen.both (h : Frozen l l') (hm : Frozen l m) (hm' : Frozen l' m') : Frozen m m' :=
  (hm.symm.trans h).trans hm'

section
variable (h : Frozen l l')

include h

theorem Frozen.source (s : ServiceId) : (l'.service s).source = (l.service s).source :=
  (congrArg Service.source (h.service s) :)

theorem Frozen.threadTracker (s : ServiceId) : (l'.service s).threadTracker = (l.service s).threadTracker :=
  (congrArg Service.threadTracker (h.service s) :)

theorem Frozen.threshold (s : ServiceId) : (l'.service s).threshold = (l.service s).threshold :=
  (congrArg Service.threshold (h.service s) :)

theorem Frozen.slots_size (s : ServiceId) : (l'.service s).slots.size = (l.service s).slots.size := by
  have hsize : ∀ svc : Service, svc.plain.slots.size = svc.slots.size := fun svc => Table.size_map ..
  rw [← hsize, h.service, hsize]

theorem Frozen.route (i : TrackerId) : l'.route i = l.route i :=
  congrArg (i :: ·) (congrArg Tracker.above (h.tracker i) :)

theorem Frozen.counts (hc : l.Counts) : l'.Counts := by
  refine counts_unbatch.mp fun i => ?_
  obtain ⟨label, totals, hk⟩ := counts_unbatch.mpr hc i
  refine ⟨label, totals, ?_⟩
  rw [tracker_unbatch, h.tracker, ← tracker_unbatch]
  exact hk

end

theorem SameHome.symm {x y : Home} (h : SameHome l l' x y) : SameHome l' l y x := by
  cases h with
  | absent => exact .absent
  | closed => exact .closed
  | settled h => exact .settled h.symm

theorem SameHome.trans {x y z : Home} (h : SameHome l l' x y) (h' : SameHome l' l'' y z) : SameHome l l'' x z := by
  cases h with
  | absent => cases h'; exact .absent
  | closed => cases h'; exact .closed
  | settled h =>
    cases h' with
    | settled h' => exact .settled (h.trans h')

theorem SameHome.mono {x y : Home} (h : SameHome l l' x y) (hm : ∀ s c c', x = .settled s c → y = .settled s c' →
    (l.context c).Like (l'.context c') → (m.context c).Like (m'.context c')) : SameHome m m' x y := by
  cases h with
  | absent => exact .absent
  | closed => exact .closed
  | settled h => exact .settled (hm _ _ _ rfl rfl h)

theorem sameHome_refl (l : Ledger) (x : Home) : SameHome l l x x := by
  cases x with
  | absent => exact .absent
  | closed => exact .closed
  | settled s c => exact .settled rfl

theorem SameTo.refl (t : ThreadId) (P : Account → Prop) (l : Ledger) : SameTo t P l l :=
  { Frozen.refl l with
    thread := rfl
    home := sameHome_refl ..
    context := fun _ _ => rfl
    slot := fun _ _ _ => rfl
    orphans := fun _ _ => rfl
    elsewhere := fun _ _ _ _ => rfl }

/-- What a thread keeps to itself is the same but for the number of its context. -/
theorem SameTo.read {α : Type} (h : SameTo t P l l') (v : Thread → α)
    (hv : ∀ th x, v { th with home := x } = v th) :
    v (l'.thread t) = v (l.thread t) := by
  rw [h.thread, hv]

theorem SameTo.symm (h : SameTo t P l l') : SameTo t P l' l :=
  { h.toFrozen.symm with
    thread := (congrArg (fun th : Thread => { th with home := (l.thread t).home }) h.thread).symm
    home := h.home.symm
    context := fun a ha => (h.context a ha).symm
    slot := fun s i hw => (h.slot s i ((h.read Thread.worker fun _ _ => rfl).symm.trans hw)).symm
    orphans := fun a ha => (h.orphans a ha).symm
    elsewhere := fun a ha j hj => (h.elsewhere a ha j hj).symm }

theorem SameTo.trans (h : SameTo t P l l') (h' : SameTo t P l' l'') : SameTo t P l l'' :=
  { h.toFrozen.trans h'.toFrozen with
    thread := h'.thread.trans (congrArg (fun th : Thread => { th with home := (l''.thread t).home }) h.thread)
    home := h.home.trans h'.home
    context := fun a ha => (h'.context a ha).trans (h.context a ha)
    slot := fun s i hw => (h'.slot s i ((h.read Thread.worker fun _ _ => rfl).trans hw)).trans (h.slot s i hw)
    orphans := fun a ha => (h'.orphans a ha).trans (h.orphans a ha)
    elsewhere := fun a ha j hj => (h'.elsewhere a ha j hj).trans (h.elsewhere a ha j hj) }

theorem KeepsTo.refl (t : ThreadId) (P : Account → Prop) (l : Ledger) : KeepsTo t P l l :=
  { Frozen.refl l with
    thread := fun _ _ => rfl
    worker := rfl
    scopes := fun h => h
    stays := fun _ _ h => h
    home := fun _ _ h => .inl h
    contexts_size := Nat.le_refl _
    context := fun _ _ _ => rfl
    identity := fun _ _ => rfl
    fresh := fun _ hge hlt => absurd hlt (Nat.not_lt.mpr hge)
    slot := fun _ _ _ => rfl
    orphans := fun _ _ => rfl }

theorem KeepsTo.trans (h : KeepsTo t P l l') (h' : KeepsTo t P l' l'') : KeepsTo t P l l'' :=
  { h.toFrozen.trans h'.toFrozen with
    thread := fun j hj => (h'.thread j hj).trans (h.thread j hj)
    worker := h'.worker.trans h.worker
    scopes := fun hs => h'.scopes (h.scopes hs)
    stays := fun s c hh => h'.stays s c (h.stays s c hh)
    home := fun s c hh => by
      rcases h'.home s c hh with hh | ⟨hge, hlt⟩
      · rcases h.home s c hh with hh | ⟨hge, hlt⟩
        · exact .inl hh
        · exact .inr ⟨hge, Nat.lt_of_lt_of_le hlt h'.contexts_size⟩
      · exact .inr ⟨Nat.le_trans h.contexts_size hge, hlt⟩
    contexts_size := Nat.le_trans h.contexts_size h'.contexts_size
    context := fun c hc hn => by
      have hn' : ¬ Belongs t P l' c := by
        rintro (ha | ⟨s, hh⟩)
        · exact hn (.inl ha)
        · rcases h.home s c hh with hh | ⟨hge, -⟩
          · exact hn (.inr ⟨s, hh⟩)
          · exact absurd hc (Nat.not_lt.mpr hge)
      rw [h'.context c (Nat.lt_of_lt_of_le hc h.contexts_size) hn', h.context c hc hn]
    identity := fun c hc => (h'.identity c (Nat.lt_of_lt_of_le hc h.contexts_size)).trans (h.identity c hc)
    fresh := fun c hge hlt => by
      rcases Nat.lt_or_ge c l'.contexts.size with hc | hc
      · obtain ⟨s, hs⟩ := h.fresh c hge hc
        exact ⟨s, h'.stays s c hs⟩
      · exact h'.fresh c hc hlt
    slot := fun s i hw => (h'.slot s i (h.worker.symm ▸ hw)).trans (h.slot s i hw)
    orphans := fun a ha => (h'.orphans a ha).trans (h.orphans a ha) }

theorem InStep.still (h : m.books = l.books) (h' : m'.books = l'.books) : InStep l l' m m' := by
  constructor
  all_goals
    rw [h, h']
    first
    | exact fun _ => Int64.add_comm ..
    | exact fun _ => Nat.add_comm ..
    | exact Nat.add_comm ..

theorem InStep.trans (h : InStep l l' m m') (h' : InStep m m' n n') : InStep l l' n n' where
  consumption i := by
    have h1 := h.consumption i
    have h2 := h'.consumption i
    grind
  commits i := by
    have h1 := h.commits i
    have h2 := h'.commits i
    omega
  lookups s := by
    have h1 := h.lookups s
    have h2 := h'.lookups s
    omega
  skipped s := by
    have h1 := h.skipped s
    have h2 := h'.skipped s
    omega
  contexts := by
    have h1 := h.contexts
    have h2 := h'.contexts
    omega

theorem InStep.swap (h : InStep l l' m m') : InStep l m l' m' where
  consumption i := (h.consumption i).trans (Int64.add_comm ..)
  commits i := (h.commits i).trans (Nat.add_comm ..)
  lookups s := (h.lookups s).trans (Nat.add_comm ..)
  skipped s := (h.skipped s).trans (Nat.add_comm ..)
  contexts := h.contexts.trans (Nat.add_comm ..)

/-- What was raised by as much as something else has come to the same. -/
theorem InStep.unique (h : InStep l l' m m') (h' : InStep l l' m n) : n.books = m'.books := by
  ext j
  · have hsum := (h'.consumption j).trans (h.consumption j).symm
    grind
  · exact Nat.add_right_cancel ((h'.commits j).trans (h.commits j).symm)
  · exact Nat.add_right_cancel ((h'.lookups j).trans (h.lookups j).symm)
  · exact Nat.add_right_cancel ((h'.skipped j).trans (h.skipped j).symm)
  · exact Nat.add_right_cancel (h'.contexts.trans h.contexts.symm)

theorem InStep.eq (h : InStep l l' m m') (hb : l'.books = l.books) : m'.books = m.books := by
  have hsame : InStep l l' m m := by constructor <;> rw [hb] <;> exact fun _ => rfl
  exact hsame.unique h

theorem Placed.keeps (hp : Placed t P l) (h : KeepsTo t P l l') : Placed t P l' where
  counts := h.toFrozen.counts hp.counts
  scopes := h.scopes hp.scopes
  account a ha := Nat.lt_of_lt_of_le (hp.account a ha) h.contexts_size
  home s c hh := by
    rcases h.home s c hh with hh | ⟨hge, hlt⟩
    · exact ⟨Nat.lt_of_lt_of_le (hp.home s c hh).1 h.contexts_size, (hp.home s c hh).2⟩
    · exact ⟨hlt, fun a ha => Nat.ne_of_lt (Nat.lt_of_lt_of_le (hp.account a ha) hge)⟩

theorem Counterpart.keeps (hc : Counterpart t P l l' c c') (h : KeepsTo t P l m) (h' : KeepsTo t P l' m') :
    Counterpart t P m m' c c' := by
  cases hc with
  | account ha => exact .account ha
  | home hh hh' => exact .home (h.stays _ _ hh) (h'.stays _ _ hh')

theorem Counterpart.left (hc : Counterpart t P l l' c c') : Belongs t P l c := by
  cases hc with
  | account ha => exact .inl ⟨_, ha, rfl⟩
  | home hh hh' => exact .inr ⟨_, hh⟩

theorem Counterpart.right (hc : Counterpart t P l l' c c') : Belongs t P l' c' := by
  cases hc with
  | account ha => exact .inl ⟨_, ha, rfl⟩
  | home hh hh' => exact .inr ⟨_, hh'⟩

theorem SameTo.like (h : SameTo t P l l') (hc : Counterpart t P l l' c c') : (l.context c).Like (l'.context c') := by
  cases hc with
  | account ha =>
    rw [Context.Like, h.context _ ha]
  | home hh hh' =>
    have hhome := h.home
    rw [hh, hh'] at hhome
    cases hhome with
    | settled hlike => exact hlike

theorem SameTo.absent (h : SameTo t P l l') (hh : (l.thread t).home = .absent) : (l'.thread t).home = .absent := by
  have hhome := h.home
  rw [hh] at hhome
  generalize (l'.thread t).home = x at hhome
  cases hhome
  rfl

/-- A counter that receives an amount changes, and nothing else does. -/
theorem deliver_of_counts (hc : l.Counts) (respond : Responder) (b : Delta) (i : TrackerId) : ∃ label totals,
    (l.tracker i).kind = .counter label totals ∧ deliver respond t b l i =
      l.modifyTracker i fun tr => { tr with kind := .counter label (totals.add b) } := by
  obtain ⟨label, totals, hk⟩ := hc i
  exact ⟨label, totals, hk, by rw [deliver, hk]⟩

theorem totals_deliver (hc : l.Counts) (respond : Responder) (b : Delta) (i j : TrackerId) :
    (deliver respond t b l i).totals j =
      if i = j ∧ i < l.trackers.size then (l.totals j).add b else l.totals j := by
  obtain ⟨label, totals, hk, he⟩ := deliver_of_counts (t := t) hc respond b i
  unfold Ledger.totals
  rw [he, tracker_modifyTracker]
  split
  · rename_i hij
    rw [← hij.1, Tracker.totals?, Tracker.totals?, hk]
    rfl
  · rfl

/-! ## Single changes of what is a thread's own -/

section
variable (l t P)

theorem keepsTo_post (e : Entry) : KeepsTo t P l (l.post e) := { KeepsTo.refl t P l with }

theorem keepsTo_modifyThread {f : Thread → Thread} (hw : ∀ th, (f th).worker = th.worker)
    (hh : ∀ th, (f th).home = th.home)
    (hs : ∀ th, (∀ sc ∈ th.scopes, P sc.account) → ∀ sc ∈ (f th).scopes, P sc.account) :
    KeepsTo t P l (l.modifyThread t f) := by
  have hhome : ((l.modifyThread t f).thread t).home = (l.thread t).home :=
    Table.get_modify_of_eq _ t t Thread.home hh
  exact { KeepsTo.refl t P l with
    threads_size := threads_size_modifyThread ..
    thread := fun j hj => Table.get_modify_ne _ _ hj.symm
    worker := Table.get_modify_of_eq _ t t Thread.worker hw
    scopes := fun hl sc hsc => by
      rw [thread_modifyThread] at hsc
      split at hsc
      · exact hs _ hl sc hsc
      · exact hl sc hsc
    stays := fun s c hc => hhome.trans hc
    home := fun s c hc => .inl (hhome.symm.trans hc)
    fresh := fun _ hge hlt => absurd hlt (Nat.not_lt.mpr hge) }

theorem keepsTo_modifyContext {c : ContextId} (hc : Belongs t P l c) {f : Context → Context}
    (hf : ∀ ctx, (f ctx).identity = ctx.identity) : KeepsTo t P l (l.modifyContext c f) := by
  have hsize := contexts_size_modifyContext l c f
  exact { KeepsTo.refl t P l with
    home := fun s c hh => .inl hh
    contexts_size := Nat.le_of_eq hsize.symm
    context := fun j _ hj => Table.get_modify_ne _ _ fun he => hj (he ▸ hc)
    identity := fun j _ => Table.get_modify_of_eq _ c j Context.identity hf
    fresh := fun _ hge hlt => absurd (lt_of_lt_of_eq hlt hsize) (Nat.not_lt.mpr hge) }

theorem keepsTo_modifyService (s : ServiceId) {f : Service → Service} (hf : ∀ svc, (f svc).plain = svc.plain)
    (hs : ∀ svc, (f svc).slots = svc.slots) : KeepsTo t P l (l.modifyService s f) :=
  { KeepsTo.refl t P l with
    services_size := services_size_modifyService ..
    service := fun j => Table.get_modify_of_eq _ s j Service.plain hf
    slot := fun j i _ => by
      have hslots : ((l.modifyService s f).service j).slots = (l.service j).slots :=
        Table.get_modify_of_eq _ s j Service.slots hs
      rw [Ledger.slot, hslots]
      rfl }

theorem keepsTo_modifySlot {s : ServiceId} {i : Nat} (hw : (l.thread t).worker = some ⟨s, i⟩) (f : Slot → Slot) :
    KeepsTo t P l (l.modifySlot s i f) :=
  { KeepsTo.refl t P l with
    services_size := services_size_modifyService ..
    service := fun j => Table.get_modify_of_eq _ s j Service.plain fun svc => by
      have hslots : (svc.slots.modify i f).map (fun _ => ({} : Slot)) = svc.slots.map fun _ => {} :=
        Table.map_modify_of_eq _ i fun _ => rfl
      exact congrArg (fun slots => { svc.plain with slots }) hslots
    slot := fun j n hn => by
      unfold Ledger.slot modifySlot
      rw [service_modifyService]
      split
      · rename_i hj
        obtain ⟨rfl, -⟩ := hj
        refine Table.get_modify_ne _ f fun hi => ?_
        exact hn (hi ▸ hw)
      · rfl }

theorem keepsTo_eraseOrphan {a : Account} (ha : P a) : KeepsTo t P l { l with orphans := l.orphans.erase a } :=
  { KeepsTo.refl t P l with
    orphans := fun b hb => List.count_erase_of_ne fun he : b = a => hb (he ▸ ha) }

theorem keepsTo_deliver (hc : l.Counts) (respond : Responder) (b : Delta) (i : TrackerId) :
    KeepsTo t P l (deliver respond t b l i) := by
  obtain ⟨label, totals, -, he⟩ := deliver_of_counts (t := t) hc respond b i
  have htracker : ∀ j, ((deliver respond t b l i).tracker j).unbatch = (l.tracker j).unbatch := by
    intro j
    rw [← tracker_unbatch, unbatch_deliver hc, tracker_unbatch]
  rw [he] at htracker ⊢
  exact { KeepsTo.refl t P l with
    trackers_size := trackers_size_modifyTracker ..
    tracker := htracker }

theorem keepsTo_newHome {s : ServiceId} (ht : t < l.threads.size) (hh : (l.thread t).home = .absent) :
    KeepsTo t P l (l.newHome t s) := by
  have hsize : (l.newHome t s).contexts.size = l.contexts.size + 1 := Table.size_add ..
  have hhome : ((l.newHome t s).thread t).home = .settled s l.contexts.size := home_newHome ht
  exact { KeepsTo.refl t P l with
    threads_size := Table.size_modify ..
    thread := fun j hj => Table.get_modify_ne _ _ hj.symm
    worker := Table.get_modify_of_eq _ t t Thread.worker fun _ => by rfl
    scopes := fun hl sc hsc => by
      have hscopes : ((l.newHome t s).thread t).scopes = (l.thread t).scopes :=
        Table.get_modify_of_eq _ t t Thread.scopes fun _ => by rfl
      exact hl sc (hscopes ▸ hsc)
    stays := fun s' c hc => absurd (hh.symm.trans hc) nofun
    home := fun s' c hc => by
      obtain ⟨-, rfl⟩ := Home.settled.inj (hhome.symm.trans hc)
      exact .inr ⟨Nat.le_refl _, lt_of_lt_of_eq (Nat.lt_succ_self _) hsize.symm⟩
    contexts_size := hsize ▸ Nat.le_succ _
    context := fun c hc _ => (Table.get_add ..).trans (if_neg (Nat.ne_of_lt hc))
    identity := fun c hc => congrArg Context.identity ((Table.get_add ..).trans (if_neg (Nat.ne_of_lt hc)))
    fresh := fun c hge hlt => by
      obtain rfl : c = l.contexts.size := Nat.le_antisymm (Nat.le_of_lt_succ (lt_of_lt_of_eq hlt hsize)) hge
      exact ⟨s, hhome⟩ }

end

/-! ## The same change in two ledgers -/

section
variable (h : SameTo t P l l')

include h

theorem SameTo.post (e e' : Entry) : SameTo t P (l.post e) (l'.post e') :=
  { h with home := h.home.mono fun _ _ _ _ _ hc => hc }

theorem SameTo.modifyThread {f : Thread → Thread} (hw : ∀ th, (f th).worker = th.worker)
    (hf : ∀ th x, f { th with home := x } = { f th with home := x }) :
    SameTo t P (l.modifyThread t f) (l'.modifyThread t f) := by
  have hkeeps : ∀ th, (f th).home = th.home := fun th => (congrArg Thread.home (hf th th.home) :)
  have hhome : ∀ l : Ledger, ((l.modifyThread t f).thread t).home = (l.thread t).home :=
    fun l => Table.get_modify_of_eq _ t t Thread.home hkeeps
  have hworker : ((l.modifyThread t f).thread t).worker = (l.thread t).worker :=
    Table.get_modify_of_eq _ t t Thread.worker hw
  have hframe : Frozen (l.modifyThread t f) (l'.modifyThread t f) :=
    { h.toFrozen with
      threads_size := by rw [threads_size_modifyThread, threads_size_modifyThread, h.threads_size] }
  exact { h with
    threads_size := hframe.threads_size
    thread := by
      rw [hhome, thread_modifyThread, thread_modifyThread, h.threads_size]
      split
      · rw [← hf, ← h.thread]
      · exact h.thread
    home := by
      rw [hhome, hhome]
      exact h.home.mono fun _ _ _ _ _ hc => hc
    slot := fun s i hi => h.slot s i (hworker.symm.trans hi)
    elsewhere := fun a ha j hj => by
      rw [thread_modifyThread, thread_modifyThread, if_neg fun he => hj he.1.symm, if_neg fun he => hj he.1.symm]
      exact h.elsewhere a ha j hj }

theorem SameTo.modifyContext (hp : Placed t P l) (hp' : Placed t P l') (hc : Counterpart t P l l' c c')
    {f : Context → Context} (hf : ∀ ctx x, f { ctx with identity := x } = { f ctx with identity := x }) :
    SameTo t P (l.modifyContext c f) (l'.modifyContext c' f) := by
  have hlike : ∀ {ctx ctx' : Context}, ctx.Like ctx' → (f ctx).Like (f ctx') := by
    intro ctx ctx' hl
    have hkeeps : (f ctx').identity = ctx'.identity := (congrArg Context.identity (hf ctx' ctx'.identity) :)
    rw [Context.Like, hkeeps, ← hf]
    exact congrArg f hl
  exact { h with
    home := h.home.mono fun s j j' hj hj' hl => by
      rw [context_modifyContext, context_modifyContext]
      cases hc with
      | account ha =>
        rw [if_neg fun he => (hp.home s j hj).2 _ ha he.1, if_neg fun he => (hp'.home s j' hj').2 _ ha he.1]
        exact hl
      | home hh hh' =>
        obtain ⟨-, rfl⟩ := Home.settled.inj (hh.symm.trans hj)
        obtain ⟨-, rfl⟩ := Home.settled.inj (hh'.symm.trans hj')
        rw [if_pos ⟨rfl, (hp.home _ _ hh).1⟩, if_pos ⟨rfl, (hp'.home _ _ hh').1⟩]
        exact hlike hl
    context := fun b hb => by
      rw [context_modifyContext, context_modifyContext]
      cases hc with
      | @account a ha =>
        by_cases he : a.context = b.context
        · rw [if_pos ⟨he, hp'.account a ha⟩, if_pos ⟨he, hp.account a ha⟩, h.context b hb]
        · rw [if_neg fun h => he h.1, if_neg fun h => he h.1]
          exact h.context b hb
      | home hh hh' =>
        rw [if_neg fun he => (hp'.home _ _ hh').2 b hb he.1.symm, if_neg fun he => (hp.home _ _ hh).2 b hb he.1.symm]
        exact h.context b hb }

theorem SameTo.modifyService (s : ServiceId) {f : Service → Service} (hf : ∀ svc, (f svc).plain = svc.plain)
    (hs : ∀ svc, (f svc).slots = svc.slots) : SameTo t P (l.modifyService s f) (l'.modifyService s f) := by
  have hslot : ∀ (l : Ledger) j i, (l.modifyService s f).slot j i = l.slot j i := fun l j i =>
    congrArg (Table.get · i) (Table.get_modify_of_eq l.services s j Service.slots hs)
  exact { h with
    toFrozen := h.toFrozen.both (keepsTo_modifyService l t P s hf hs).toFrozen
      (keepsTo_modifyService l' t P s hf hs).toFrozen
    home := h.home.mono fun _ _ _ _ _ hc => hc
    slot := fun j i hw => by
      rw [hslot, hslot]
      exact h.slot j i hw }

theorem SameTo.modifySlot {s : ServiceId} {i : Nat} (hw : (l.thread t).worker = some ⟨s, i⟩) (f : Slot → Slot) :
    SameTo t P (l.modifySlot s i f) (l'.modifySlot s i f) := by
  have hw' : (l'.thread t).worker = some ⟨s, i⟩ := (h.read Thread.worker fun _ _ => rfl).trans hw
  have hslot : ∀ l : Ledger, (l.modifySlot s i f).slot s i =
      if s < l.services.size ∧ i < (l.service s).slots.size then f (l.slot s i) else l.slot s i := by
    intro l
    unfold Ledger.modifySlot Ledger.slot
    rw [service_modifyService]
    by_cases hs : s < l.services.size
    · simp [hs, Table.get_modify]
    · simp [hs]
  exact { h with
    toFrozen := h.toFrozen.both (keepsTo_modifySlot l t P hw f).toFrozen (keepsTo_modifySlot l' t P hw' f).toFrozen
    home := h.home.mono fun _ _ _ _ _ hc => hc
    slot := fun j n hn => by
      obtain ⟨rfl, rfl⟩ := Worker.mk.inj (Option.some.inj (hw.symm.trans hn))
      rw [hslot, hslot, h.services_size, h.slots_size, h.slot s i hw] }

theorem SameTo.eraseOrphan {a : Account} :
    SameTo t P { l with orphans := l.orphans.erase a } { l' with orphans := l'.orphans.erase a } :=
  { h with
    home := h.home.mono fun _ _ _ _ _ hc => hc
    orphans := fun b hb => by
      rw [List.count_erase, List.count_erase, h.orphans b hb] }

theorem SameTo.deliver (hc : l.Counts) (respond : Responder) (b : Delta) (i : TrackerId) :
    SameTo t P (deliver respond t b l i) (deliver respond t b l' i) := by
  have hk := keepsTo_deliver l t P hc respond b i
  have hk' := keepsTo_deliver l' t P (h.toFrozen.counts hc) respond b i
  obtain ⟨label, totals, -, he⟩ := deliver_of_counts (t := t) hc respond b i
  obtain ⟨label', totals', -, he'⟩ := deliver_of_counts (t := t) (h.toFrozen.counts hc) respond b i
  rw [he] at hk ⊢
  rw [he'] at hk' ⊢
  exact { h with
    toFrozen := h.toFrozen.both hk.toFrozen hk'.toFrozen
    home := h.home.mono fun _ _ _ _ _ hc => hc }

theorem SameTo.newHome (hp : Placed t P l) (hp' : Placed t P l') (ht : t < l.threads.size)
    (hh : (l.thread t).home = .absent) (s : ServiceId) : SameTo t P (l.newHome t s) (l'.newHome t s) := by
  have hh' := h.absent hh
  have ht' : t < l'.threads.size := lt_of_lt_of_eq ht h.threads_size.symm
  have hthread : ∀ l : Ledger, t < l.threads.size → (l.newHome t s).thread t =
      { l.thread t with
        home := .settled s l.contexts.size
        carry := none
        destructors := .home :: (l.thread t).destructors } := fun l ht => Table.get_modify_self _ ht
  have hnew : ∀ l : Ledger, (l.newHome t s).context l.contexts.size =
      { identity := .thread ⟨l.nextThread⟩, tracker := (l.service s).threadTracker
        cache := { threshold := (l.service s).threshold }, initialized := true } :=
    fun l => (Table.get_add ..).trans (if_pos rfl)
  have hold : ∀ (l : Ledger) (c : ContextId), c < l.contexts.size → (l.newHome t s).context c = l.context c :=
    fun l c hc => (Table.get_add ..).trans (if_neg (Nat.ne_of_lt hc))
  exact { h with
    toFrozen := h.toFrozen.both (keepsTo_newHome l t P ht hh).toFrozen (keepsTo_newHome l' t P ht' hh').toFrozen
    thread := by
      rw [hthread l ht, hthread l' ht', h.read Thread.destructors fun _ _ => rfl]
      exact congrArg (fun th : Thread => { th with
        home := .settled s l'.contexts.size, carry := none
        destructors := .home :: (l.thread t).destructors }) h.thread
    home := by
      rw [hthread l ht, hthread l' ht']
      refine .settled ?_
      rw [Context.Like, hnew, hnew, h.threadTracker, h.threshold]
    context := fun a ha => by
      rw [hold l _ (hp.account a ha), hold l' _ (hp'.account a ha)]
      exact h.context a ha
    slot := fun j i hw => h.slot j i (by rwa [hthread l ht] at hw)
    elsewhere := fun a ha j hj => by
      have hother : ∀ l : Ledger, (l.newHome t s).thread j = l.thread j := fun l => Table.get_modify_ne _ _ hj.symm
      rw [hother, hother]
      exact h.elsewhere a ha j hj }

/-! ## What is raised in two ledgers -/

theorem SameTo.inStep_modifyService (s : ServiceId) {f : Service → Service} {looked skipped : Nat}
    (hl : ∀ svc, (f svc).lookups = svc.lookups + looked) (hs : ∀ svc, (f svc).skipped = svc.skipped + skipped) :
    InStep l l' (l.modifyService s f) (l'.modifyService s f) :=
  { InStep.still rfl rfl with
    lookups := fun j => by
      show ((l'.modifyService s f).service j).lookups + (l.service j).lookups =
        ((l.modifyService s f).service j).lookups + (l'.service j).lookups
      rw [service_modifyService, service_modifyService, h.services_size]
      split
      · rw [hl, hl]
        omega
      · exact Nat.add_comm ..
    skipped := fun j => by
      show ((l'.modifyService s f).service j).skipped + (l.service j).skipped =
        ((l.modifyService s f).service j).skipped + (l'.service j).skipped
      rw [service_modifyService, service_modifyService, h.services_size]
      split
      · rw [hs, hs]
        omega
      · exact Nat.add_comm .. }

theorem SameTo.inStep_deliver (hc : l.Counts) (respond : Responder) (b : Delta) (i : TrackerId) :
    InStep l l' (Ledger.deliver respond t b l i) (Ledger.deliver respond t b l' i) := by
  have hc' := h.toFrozen.counts hc
  have hrest : ∀ l : Ledger, l.Counts → (Ledger.deliver respond t b l i).services = l.services ∧
      (Ledger.deliver respond t b l i).contexts = l.contexts := by
    intro l hc
    obtain ⟨label, totals, -, he⟩ := deliver_of_counts (t := t) hc respond b i
    rw [he]
    exact ⟨rfl, rfl⟩
  obtain ⟨hservices, hcontexts⟩ := hrest l hc
  obtain ⟨hservices', hcontexts'⟩ := hrest l' hc'
  constructor
  · intro j
    simp only [books, totals_deliver hc, totals_deliver hc', h.trackers_size]
    split
    · simp only [Totals.add]
      grind
    · exact Int64.add_comm ..
  · intro j
    simp only [books, totals_deliver hc, totals_deliver hc', h.trackers_size]
    split
    · simp only [Totals.add]
      omega
    · exact Nat.add_comm ..
  · intro s
    simp only [books, service, hservices, hservices']
    exact Nat.add_comm ..
  · intro s
    simp only [books, service, hservices, hservices']
    exact Nat.add_comm ..
  · simp only [books, hcontexts, hcontexts']
    exact Nat.add_comm ..

end

theorem inStep_newHome (l l' : Ledger) (t : ThreadId) (s : ServiceId) :
    InStep l l' (l.newHome t s) (l'.newHome t s) := by
  have hsize : ∀ l : Ledger, (l.newHome t s).books.contexts = l.books.contexts + 1 := fun l => Table.size_add ..
  exact { InStep.still rfl rfl with
    contexts := by
      rw [hsize, hsize]
      omega }

end Ledger

end HeapLedger
