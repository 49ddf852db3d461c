import HeapLedger.Proofs.Reach
import HeapLedger.Proofs.Spread

/-!
# What a charge comes to

Where a charge goes is decided by the hook, the active task, the thread's own context and what the thread
holds, in this order. The one context that the decision names takes the amount in, and nothing else is
charged; a charge that is skipped is counted once. Before that the context of the active task is looked for, which is
the only thing that comes to what is remembered of resolved tasks.
-/

namespace HeapLedger

open Ledger

namespace Ledger

/-! ## The decision -/

def resolved (l : Ledger) (t : ThreadId) (s : ServiceId) (k : TaskKey) : Option ContextId :=
  (l.reused t s k).or (l.taskContext t s k)

def destination (l : Ledger) (t : ThreadId) (s : ServiceId) : Charge :=
  match l.activeTask t s with
  | some k =>
    match l.resolved t s k with
    | none => .skipped .taskContextAbsent
    | some c => if (l.context c).initialized then .task k else .skipped .contextUninitialized
  | none =>
    match (l.thread t).home with
    | .closed => .skipped .threadExiting
    | .settled owner _ => if owner = s then .thread else .skipped .foreignThreadContext
    | .absent =>
      match (l.thread t).carry with
      | some c => if c.owner = s then .parked else .skipped .foreignThreadContext
      | none => .parked

def decision (l : Ledger) (t : ThreadId) (s : ServiceId) : Charge :=
  if l.inHook t then .skipped .reentrant else l.destination t s

def recipient (l : Ledger) (t : ThreadId) (s : ServiceId) : Option ContextId :=
  match l.activeTask t s with
  | some k => l.resolved t s k
  | none =>
    match (l.thread t).home with
    | .settled _ c => some c
    | _ => none

/-! ## Effects -/

/-- Nothing is different but the numbers of skipped charges. -/
structure Idle (skips : ServiceId → Nat) (l l' : Ledger) : Prop where
  service : ∀ s, l'.service s = (l.service s).skips (skips s)
  services_size : l'.services.size = l.services.size
  rest : { l' with services := l.services, journal := l.journal } = l

/-- A service has looked for the context of a key. Unless that is remembered, the source was asked, and what it
answered is remembered now: by the slot of the service that the thread is bound to, or else by the thread, provided
that there is a context. -/
structure Resolves (l : Ledger) (t : ThreadId) (s : ServiceId) (k : TaskKey) (l' : Ledger) : Prop where
  service : ∀ j, l'.service j = { l.service j with lookups := (l'.service j).lookups, slots := (l'.service j).slots }
  lookups : ∀ j, (l'.service j).lookups = (l.service j).lookups + if s = j ∧ l.reused t s k = none then 1 else 0
  slot : ∀ j i, l'.slot j i =
    if l.reused t s k = none ∧ s = j ∧ l.boundSlot t s = some i ∧ i < (l.service j).slots.size then
      { l.slot j i with key := (l.taskContext t s k).map fun _ => k, context := l.taskContext t s k }
    else l.slot j i
  slots_size : ∀ j, (l'.service j).slots.size = (l.service j).slots.size
  services_size : l'.services.size = l.services.size
  thread : ∀ j, l'.thread j =
    if l.reused t s k = none ∧ t = j ∧ l.boundSlot t s = none ∧ (l.taskContext t s k).isSome then
      { l.thread j with recent := (l.taskContext t s k).map (⟨s, k, ·⟩) }
    else l.thread j
  threads_size : l'.threads.size = l.threads.size
  rest : { l' with services := l.services, threads := l.threads, journal := l.journal } = l

def LooksUp (l : Ledger) (t : ThreadId) (s : ServiceId) (l' : Ledger) : Prop :=
  match l.activeTask t s with
  | some k => Resolves l t s k l'
  | none => l' = l

/-- What is pending in a context together with an amount, cut off at the ends of the range. -/
def sum (l : Ledger) (c : ContextId) (d : Delta) : Delta := (l.context c).pending.addClamped d

def reached (l : Ledger) (c : ContextId) (d : Delta) : List TrackerId :=
  if (l.sum c d).magnitude ≤ (l.context c).cache.threshold.toNat then [] else l.route (l.context c).tracker

/-- One context takes in an amount: the sum stays pending if it is within the threshold, and otherwise
every tracker above receives it once. The charges that these answer with are refused. -/
structure Receives (l : Ledger) (c : ContextId) (d : Delta) (l' : Ledger) : Prop where
  contexts : l'.contexts = l.contexts.modify c fun ctx =>
    { ctx with cache := { ctx.cache with
      pending := if (l.sum c d).magnitude ≤ ctx.cache.threshold.toNat then l.sum c d else 0 } }
  taken : ∀ i ∈ l.reached c d, l'.tracker i = (l.tracker i).takes (l.sum c d)
  tracker : ∀ i, i ∉ l.reached c d → l'.tracker i = l.tracker i
  trackers_size : l'.trackers.size = l.trackers.size
  receipts : receipts l'.journal =
    (l.echoes (l.reached c d)).reverse.map (·, l.sum c d) ++ receipts l.journal
  idle : Idle (l.refusals (l.reached c d)) l { l' with contexts := l.contexts, trackers := l.trackers }

variable {l l' l'' : Ledger} {t : ThreadId} {s : ServiceId} {c : ContextId} {d : Delta}

theorem Idle.refl (l : Ledger) : Idle (fun _ => 0) l l := ⟨fun _ => rfl, rfl, rfl⟩

theorem Idle.trans {n n' : ServiceId → Nat} (h : Idle n l l') (h' : Idle n' l' l'') :
    Idle (fun s => n s + n' s) l l'' where
  service s := by rw [h'.service, h.service, Service.skips_skips]
  services_size := h'.services_size.trans h.services_size
  rest := (congrArg (fun l₁ : Ledger => { l₁ with services := l.services, journal := l.journal }) h'.rest).trans h.rest

theorem idle_post (l : Ledger) (e : Entry) : Idle (fun _ => 0) l (l.post e) := ⟨fun _ => rfl, rfl, rfl⟩

theorem Idle.threads {n : ServiceId → Nat} (h : Idle n l l') : l'.threads = l.threads := by
  have hthreads := congrArg Ledger.threads h.rest
  exact hthreads

theorem Idle.of_rest (h : { l' with journal := l.journal } = l) : Idle (fun _ => 0) l l' where
  service j := congrArg (fun l₁ => l₁.service j) h
  services_size := congrArg (fun l₁ => l₁.services.size) h
  rest := congrArg (fun l₁ : Ledger => { l₁ with services := l.services }) h

/-! ## Resolution -/

theorem seek_snd (k : TaskKey) : (l.seek t s k).2 = l.resolved t s k := by
  unfold seek resolved
  cases l.reused t s k <;> rfl

theorem Resolves.refl {k : TaskKey} {c : ContextId} (hr : l.reused t s k = some c) : Resolves l t s k l where
  service _ := rfl
  lookups _ := by simp [hr]
  slot _ _ := by simp [hr]
  slots_size _ := rfl
  services_size := rfl
  thread _ := by simp [hr]
  threads_size := rfl
  rest := rfl

theorem Resolves.post {k : TaskKey} (h : Resolves l t s k l') (e : Entry) : Resolves l t s k (l'.post e) where
  service := h.service
  lookups := h.lookups
  slot := h.slot
  slots_size := h.slots_size
  services_size := h.services_size
  thread := h.thread
  threads_size := h.threads_size
  rest := h.rest

theorem service_lookup (hs : s < l.services.size) (k : TaskKey) (j : ServiceId) : (l.lookup t s k).1.service j =
    { l.service j with lookups := (l.service j).lookups + if s = j then 1 else 0 } := by
  show (l.modifyService s _).service j = _
  rw [service_modifyService]
  by_cases hj : s = j
  · rw [if_pos ⟨hj, hs⟩, if_pos hj]
  · rw [if_neg fun he => hj he.1, if_neg hj]
    rfl

section
variable {k : TaskKey} (hs : s < l.services.size) (hr : l.reused t s k = none)

include hs hr

theorem resolves_bound {i : Nat} (hb : l.boundSlot t s = some i) :
    Resolves l t s k ((l.lookup t s k).1.modifySlot s i fun slot =>
      { slot with key := (l.taskContext t s k).map fun _ => k, context := l.taskContext t s k }) := by
  let f (slot : Slot) : Slot :=
    { slot with key := (l.taskContext t s k).map fun _ => k, context := l.taskContext t s k }
  have hasked := service_lookup (t := t) hs k
  have hservice : ∀ j, ((l.lookup t s k).1.modifySlot s i f).service j =
      { (l.lookup t s k).1.service j with
        slots := if s = j then (l.service j).slots.modify i f else (l.service j).slots } := fun j => by
    have hslots : ((l.lookup t s k).1.service j).slots = (l.service j).slots := by rw [hasked]
    rw [modifySlot, service_modifyService]
    by_cases hj : s = j
    · rw [if_pos ⟨hj, lt_of_lt_of_eq hs (services_size_modifyService ..).symm⟩, if_pos hj, hslots]
    · rw [if_neg fun he => hj he.1, if_neg hj, ← hslots]
  exact {
    service := fun j => by rw [hservice, hasked]
    lookups := fun j => by
      rw [hservice, hasked]
      simp [hr]
    slot := fun j n => by
      show ((Ledger.service _ j).slots.get n) = _
      rw [hservice]
      by_cases hj : s = j
      · subst hj
        dsimp only
        rw [if_pos rfl, Table.get_modify]
        by_cases hn : i = n
        · subst hn
          simp [hr, hb, f, slot]
        · simp [hn, hb, slot]
      · dsimp only
        rw [if_neg hj, if_neg fun he => hj he.2.1]
        rfl
    slots_size := fun j => by
      rw [hservice]
      dsimp only
      split
      · exact Table.size_modify ..
      · rfl
    services_size := (services_size_modifyService ..).trans (services_size_modifyService ..)
    thread := fun j => by
      rw [if_neg fun he => Option.some_ne_none i (hb.symm.trans he.2.2.1)]
      rfl
    threads_size := rfl
    rest := rfl }

theorem resolves_unbound (ht : t < l.threads.size) (hb : l.boundSlot t s = none) :
    Resolves l t s k
      (match l.taskContext t s k with
      | some c => (l.lookup t s k).1.modifyThread t fun th => { th with recent := some ⟨s, k, c⟩ }
      | none => (l.lookup t s k).1) := by
  have hasked := service_lookup (t := t) hs k
  have hresolves : ∀ l', l'.services = (l.lookup t s k).1.services → l'.threads.size = l.threads.size →
      (∀ j, l'.thread j = if t = j ∧ (l.taskContext t s k).isSome then
        { l.thread j with recent := (l.taskContext t s k).map (⟨s, k, ·⟩) } else l.thread j) →
      { l' with services := l.services, threads := l.threads, journal := l.journal } = l → Resolves l t s k l' := by
    intro l' hservices hthreads hthread hrest
    have hservice : ∀ j, l'.service j = (l.lookup t s k).1.service j := fun j => congrArg (·.get j) hservices
    have hslots : ∀ j, (l'.service j).slots = (l.service j).slots := fun j => by rw [hservice, hasked]
    exact {
      service := fun j => by rw [hservice, hasked]
      lookups := fun j => by
        rw [hservice, hasked]
        simp [hr]
      slot := fun j n => by
        rw [if_neg fun he => Option.some_ne_none n (he.2.2.1.symm.trans hb)]
        exact congrArg (·.get n) (hslots j)
      slots_size := fun j => congrArg Table.size (hslots j)
      services_size := (congrArg Table.size hservices).trans (services_size_modifyService ..)
      thread := fun j => by
        rw [hthread]
        simp [hr, hb]
      threads_size := hthreads
      rest := hrest }
  cases hc : l.taskContext t s k with
  | none =>
    refine hresolves _ rfl rfl (fun j => ?_) rfl
    rw [hc, if_neg fun he => Bool.false_ne_true he.2]
    rfl
  | some c =>
    refine hresolves _ rfl (threads_size_modifyThread ..) (fun j => ?_) rfl
    dsimp only
    rw [thread_modifyThread, hc]
    by_cases hj : t = j
    · rw [if_pos ⟨hj, ht⟩, if_pos ⟨hj, rfl⟩]
      rfl
    · rw [if_neg fun he => hj he.1, if_neg fun he => hj he.1]
      rfl

theorem resolves_asked (ht : t < l.threads.size) :
    Resolves l t s k ((l.lookup t s k).1.memorize t s k (l.taskContext t s k)) := by
  have hbound : (l.lookup t s k).1.boundSlot t s = l.boundSlot t s := rfl
  rw [memorize_eq, hbound]
  cases hb : l.boundSlot t s with
  | some i => exact resolves_bound hs hr hb
  | none => exact resolves_unbound hs hr ht hb

end

theorem context_resolve (k : TaskKey) (c : ContextId) : (l.resolve t s k).1.context c = l.context c := by
  obtain ⟨f, g, -, -, heq⟩ := l.seek_eq t s k
  show (l.seek t s k).1.context c = l.context c
  rw [heq]
  rfl

theorem resolves_resolve (hs : s < l.services.size) (ht : t < l.threads.size) (k : TaskKey) :
    Resolves l t s k (l.resolve t s k).1 := by
  have hseek : Resolves l t s k (l.seek t s k).1 := by
    cases hr : l.reused t s k with
    | some c =>
      rw [seek_of_reused hr]
      exact .refl hr
    | none =>
      rw [seek_of_not_reused hr]
      exact resolves_asked hs hr ht
  exact hseek.post _

theorem receipts_resolve (k : TaskKey) : receipts (l.resolve t s k).1.journal = receipts l.journal := by
  have hseek : (l.seek t s k).1.journal = l.journal := by
    obtain ⟨f, g, -, -, heq⟩ := l.seek_eq t s k
    rw [heq]
    rfl
  show receipts (.resolved _ :: (l.seek t s k).1.journal) = _
  rw [hseek]
  rfl

/-! ## Intakes inside the hook -/

theorem contexts_takeIn_sum (l : Ledger) (e : Entry) (c : ContextId) (d : Delta) :
    (l.takeIn e c d).1.contexts = l.contexts.modify c fun ctx =>
      { ctx with cache := { ctx.cache with
        pending := if (l.sum c d).magnitude ≤ ctx.cache.threshold.toNat then l.sum c d else 0 } } := by
  rw [contexts_takeIn]
  refine Table.modify_congr ?_
  exact congrArg (fun cache => ({ l.context c with cache } : Context)) (Cache.consume_fst _ d)

theorem takeIn_snd_sum (l : Ledger) (e : Entry) (c : ContextId) (d : Delta) :
    (l.takeIn e c d).2 =
      if (l.sum c d).magnitude ≤ (l.context c).cache.threshold.toNat then none else some (l.sum c d) := by
  exact (takeIn_snd l e c d).trans (Cache.consume_snd _ d)

theorem receives_of_spread {e : Entry} (he : e.receipt? = none)
    (h : Spread (l.takeIn e c d).1 (l.reached c d) (l.sum c d) l') : Receives l c d l' := by
  have hrest := rest_takeIn l e c d
  have hread : ∀ i, (l.takeIn e c d).1.tracker i = l.tracker i :=
    fun i => congrArg (fun l₁ => l₁.tracker i) hrest
  have hreceipts : receipts (l.takeIn e c d).1.journal = receipts l.journal :=
    takeIn_keeps (I := fun l' => receipts l'.journal = _) (receipts_cons he _) fun _ _ h =>
      (receipts_cons rfl _).trans h
  exact {
    contexts := by
      have hspread := congrArg Ledger.contexts h.rest
      exact hspread.trans (contexts_takeIn_sum l e c d)
    taken := fun i hi => by rw [h.taken i hi, hread]
    tracker := fun i hi => by rw [h.tracker i hi, hread]
    trackers_size := h.trackers_size.trans (congrArg (fun l₁ => l₁.trackers.size) hrest)
    receipts := by
      rw [h.receipts, hreceipts]
      simp only [echoes, hread]
    idle := {
      service := fun s => by
        have hservice : (l.takeIn e c d).1.service s = l.service s := congrArg (fun l₁ => l₁.service s) hrest
        have hrefusals : (l.takeIn e c d).1.refusals (l.reached c d) s = l.refusals (l.reached c d) s := by
          simp only [refusals, hread]
        have hspread := h.service s
        rw [hservice, hrefusals] at hspread
        exact hspread
      services_size := h.services_size.trans (congrArg (fun l₁ => l₁.services.size) hrest)
      rest := by
        have hspread := congrArg (fun l₁ : Ledger => { l₁ with
          contexts := l.contexts, trackers := l.trackers, services := l.services, journal := l.journal }) h.rest
        have htake := congrArg (fun l₁ : Ledger => { l₁ with
          trackers := l.trackers, services := l.services }) hrest
        exact hspread.trans htake } }

theorem receives_absorb (h : Sound l) (hc : c < l.contexts.size) {e : Entry} (he : e.receipt? = none) :
    Receives l c d ((l.post e).absorb refuse t c d) := by
  refine receives_of_spread he ?_
  rw [absorb_post, takeIn_snd_sum]
  by_cases hle : (l.sum c d).magnitude ≤ (l.context c).cache.threshold.toNat
  · rw [reached, if_pos hle, if_pos hle]
    exact spread_nil ..
  · rw [reached, if_neg hle, if_neg hle]
    have hrest := rest_takeIn l e c d
    have htracker := h.context_tracker c hc
    have htrackers : (l.takeIn e c d).1.trackers = l.trackers := congrArg (fun l₁ => l₁.trackers) hrest
    have hservices : (l.takeIn e c d).1.services = l.services := congrArg (fun l₁ => l₁.services) hrest
    have hroute : ∀ i, (l.takeIn e c d).1.route i = l.route i := fun i =>
      congrArg (fun l₁ => l₁.route i) hrest
    rw [← hroute]
    refine spread_delivers (hroute _ ▸ route_nodup h htracker) fun j hj => ?_
    rw [hroute] at hj
    have hlt := route_lt h htracker j hj
    refine ⟨lt_of_lt_of_eq hlt (congrArg Table.size htrackers).symm, fun r hr => ?_⟩
    rw [Ledger.tracker, htrackers] at hr
    exact lt_of_lt_of_eq (serves_answers h j r hr) (congrArg Table.size hservices).symm

/-- What was idle before does not count. -/
theorem Receives.of_idle {l₁ : Ledger} (hi : Idle (fun _ => 0) l l₁)
    (hr : HeapLedger.receipts l₁.journal = HeapLedger.receipts l.journal) (h : Receives l₁ c d l') :
    Receives l c d l' := by
  have hsum : l₁.sum c d = l.sum c d := congrArg (fun l₁ => l₁.sum c d) hi.rest
  have hreached : l₁.reached c d = l.reached c d := congrArg (fun l₁ => l₁.reached c d) hi.rest
  have hcontexts : l₁.contexts = l.contexts := congrArg (fun l₁ => l₁.contexts) hi.rest
  have htrackers : l₁.trackers = l.trackers := congrArg (fun l₁ => l₁.trackers) hi.rest
  have hread : ∀ i, l₁.tracker i = l.tracker i := fun i => congrArg (fun t => t.get i) htrackers
  exact {
    contexts := by
      rw [h.contexts, hcontexts, hsum]
    taken := fun i hi => by rw [h.taken i (hreached ▸ hi), hsum, hread]
    tracker := fun i hi => by rw [h.tracker i (hreached ▸ hi), hread]
    trackers_size := h.trackers_size.trans (congrArg Table.size htrackers)
    receipts := by
      rw [h.receipts, hr, hreached, hsum]
      simp only [echoes, hread]
    idle := by
      have hidle := hi.trans h.idle
      have hrefusals : ∀ j, l₁.refusals (l₁.reached c d) j = l.refusals (l.reached c d) j := by
        intro j
        rw [hreached]
        simp only [refusals, hread]
      simp only [Nat.zero_add, hrefusals, hcontexts, htrackers] at hidle
      exact hidle }

/-! ## A charge inside the hook -/

structure Parks (l : Ledger) (t : ThreadId) (s : ServiceId) (d : Delta) (l' : Ledger) : Prop where
  rest : { l' with journal := l.journal } =
    l.modifyThread t fun th => { th with carry := some ⟨s, (th.carriedFor s).addClamped d⟩ }
  receipts : receipts l'.journal = receipts l.journal

theorem parks_park (hc : ∀ c, (l.thread t).carry = some c → c.owner = s) : Parks l t s d (l.park t s d).1 := by
  have hparks : ∀ x : Carry, x = ⟨s, ((l.thread t).carriedFor s).addClamped d⟩ →
      Parks l t s d ((l.modifyThread t fun th => { th with carry := some x }).conclude t s d none .parked).1 := by
    rintro x rfl
    refine ⟨congrArg (fun threads : Table Thread => { l with threads }) ?_, receipts_cons rfl _⟩
    exact Table.modify_congr rfl
  unfold park
  cases hcarry : (l.thread t).carry with
  | none => exact hparks _ (by simp [Thread.carriedFor, hcarry, Delta.addClamped, Delta.clamp_toInt])
  | some c =>
    have howner := hc c hcarry
    dsimp only
    rw [if_pos howner]
    exact hparks _ (by simp [Thread.carriedFor, hcarry, howner])

theorem receives_chargeContext (h : Sound l) (hc : c < l.contexts.size)
    (hi : (l.context c).initialized = true) (charge : Charge) :
    Receives l c d (l.chargeContext t s c d charge).1 := by
  unfold chargeContext
  rw [if_pos hi]
  exact receives_absorb h hc rfl

/-- What a charge inside the hook comes to, after the context of the active task was looked for. -/
def Comes (l : Ledger) (t : ThreadId) (s : ServiceId) (d : Delta) (l₁ l' : Ledger) : Charge → Prop
  | .skipped _ => Idle (fun _ => 0) l₁ l' ∧ receipts l'.journal = receipts l.journal
  | .parked => (l.thread t).home = .absent ∧ l₁ = l ∧ Parks l t s d l'
  | .task _ | .thread => ∃ c, l.recipient t s = some c ∧ Receives l₁ c d l' ∧ receipts l₁.journal = receipts l.journal

theorem chargeTask_snd {k : TaskKey} (hk : l.activeTask t s = some k) :
    (l.chargeTask t s k d).2 = l.destination t s := by
  have hseek : (l.resolve t s k).2 = l.resolved t s k := seek_snd k
  unfold chargeTask destination
  simp only [hk, hseek]
  cases l.resolved t s k with
  | none => rfl
  | some c =>
    simp only [chargeContext, context_resolve]
    cases (l.context c).initialized <;> rfl

theorem chargeTask_comes (h : Sound l) (hs : s < l.services.size) (ht : t < l.threads.size) {k : TaskKey}
    (hk : l.activeTask t s = some k) :
    Comes l t s d (l.resolve t s k).1 (l.chargeTask t s k d).1 (l.destination t s) := by
  have hresolves := resolves_resolve hs ht k
  have hreceipts := receipts_resolve (l := l) (t := t) (s := s) k
  have hseek : (l.resolve t s k).2 = l.resolved t s k := seek_snd k
  unfold chargeTask destination
  simp only [hk, hseek]
  cases hc : l.resolved t s k with
  | none => exact ⟨idle_post _ _, hreceipts⟩
  | some c =>
    simp only [chargeContext, context_resolve]
    cases hi : (l.context c).initialized with
    | true =>
      have hsize : (l.resolve t s k).1.contexts.size = l.contexts.size :=
        congrArg (fun l₁ => l₁.contexts.size) hresolves.rest
      have hlt : c < (l.resolve t s k).1.contexts.size := lt_of_lt_of_eq (lt_of_initialized hi) hsize.symm
      have hresolve : Sound (l.resolve t s k).1 := (h.seek hs).post (by simp)
      refine ⟨c, ?_, receives_absorb hresolve hlt rfl, hreceipts⟩
      simp only [recipient, hk, hc]
    | false => exact ⟨idle_post _ _, hreceipts⟩

theorem chargeThread_snd (h : Sound l) (hk : l.activeTask t s = none) :
    (l.chargeThread t s d).2 = l.destination t s := by
  unfold chargeThread destination
  rw [hk]
  cases hh : (l.thread t).home with
  | closed => rfl
  | settled owner c =>
    obtain ⟨hown, -⟩ := (h.thread t).home owner c hh
    simp only [chargeContext, if_pos hown.2.1]
    split <;> rfl
  | absent =>
    dsimp only [park]
    cases (l.thread t).carry with
    | none => rfl
    | some c =>
      dsimp only
      split <;> rfl

theorem chargeThread_comes (h : Sound l) (hk : l.activeTask t s = none) :
    Comes l t s d l (l.chargeThread t s d).1 (l.destination t s) := by
  have hskip : ∀ reason, Idle (fun _ => 0) l (l.conclude t s d none (.skipped reason)).1 :=
    fun _ => idle_post _ _
  unfold chargeThread destination
  rw [hk]
  cases hh : (l.thread t).home with
  | closed => exact ⟨hskip _, receipts_cons rfl _⟩
  | settled owner c =>
    dsimp only
    by_cases ho : owner = s
    · subst ho
      obtain ⟨hown, -⟩ := (h.thread t).home owner c hh
      rw [if_pos rfl, if_pos rfl]
      refine ⟨c, ?_, receives_chargeContext h hown.1 hown.2.1 .thread, rfl⟩
      simp only [recipient, hk, hh]
    · rw [if_neg ho, if_neg ho]
      exact ⟨hskip _, receipts_cons rfl _⟩
  | absent =>
    dsimp only
    cases hc : (l.thread t).carry with
    | none =>
      refine ⟨hh, rfl, parks_park fun c hcarry => ?_⟩
      rw [hc] at hcarry
      cases hcarry
    | some c =>
      dsimp only
      by_cases ho : c.owner = s
      · rw [if_pos ho]
        refine ⟨hh, rfl, parks_park fun c' hcarry => ?_⟩
        rw [hc] at hcarry
        exact Option.some.inj hcarry ▸ ho
      · simp only [park, hc, if_neg ho]
        exact ⟨hskip _, receipts_cons rfl _⟩

theorem chargeInHook_snd (h : Sound l) (d : Delta) : (l.chargeInHook t s d).2 = l.destination t s := by
  unfold chargeInHook
  cases hk : l.activeTask t s with
  | some k => exact chargeTask_snd hk
  | none => exact chargeThread_snd h hk

theorem chargeInHook_comes (h : Sound l) (hs : s < l.services.size) (ht : t < l.threads.size) :
    ∃ l₁, LooksUp l t s l₁ ∧ Comes l t s d l₁ (l.chargeInHook t s d).1 (l.destination t s) := by
  unfold chargeInHook LooksUp
  cases hk : l.activeTask t s with
  | some k => exact ⟨_, resolves_resolve hs ht k, chargeTask_comes h hs ht hk⟩
  | none => exact ⟨l, rfl, chargeThread_comes h hk⟩

/-! ## Into the hook and out of it -/

theorem thread_setInHook (b : Bool) (j : ThreadId) : (l.setInHook t b).thread j =
    { l.thread j with inHook := if t = j ∧ t < l.threads.size then b else (l.thread j).inHook } := by
  rw [setInHook, thread_modifyThread]
  split <;> rfl

theorem resolved_setInHook (b : Bool) (k : TaskKey) : (l.setInHook t b).resolved t s k = l.resolved t s k := by
  have hsource : (l.setInHook t b).service s = l.service s := rfl
  have hroster : ∀ r, (l.setInHook t b).roster r = l.roster r := fun _ => rfl
  have hrecalls : (l.setInHook t b).recalls = l.recalls := rfl
  simp only [resolved, reused, remembered, slot, boundSlot, Thread.recall?, taskContext, scopedContext,
    thread_setInHook, hsource, hroster, hrecalls]

theorem activeTask_setInHook (b : Bool) : (l.setInHook t b).activeTask t s = l.activeTask t s := by
  have hsource : (l.setInHook t b).service s = l.service s := rfl
  have hroster : ∀ r, (l.setInHook t b).roster r = l.roster r := fun _ => rfl
  simp only [activeTask, thread_setInHook, hsource, hroster]

theorem destination_setInHook (b : Bool) : (l.setInHook t b).destination t s = l.destination t s := by
  have hcontext : ∀ c, (l.setInHook t b).context c = l.context c := fun _ => rfl
  simp only [destination, activeTask_setInHook, resolved_setInHook, thread_setInHook, hcontext]

theorem recipient_setInHook (b : Bool) : (l.setInHook t b).recipient t s = l.recipient t s := by
  simp only [recipient, activeTask_setInHook, resolved_setInHook, thread_setInHook]

theorem guarded_snd (h : Sound l) (d : Delta) : (l.guarded t (·.chargeInHook t s d)).2 = l.destination t s := by
  have hinside : Sound (l.setInHook t true) := h.discreet t fun _ => ⟨rfl, rfl, rfl, rfl, rfl, rfl, rfl⟩
  exact (chargeInHook_snd hinside d).trans (destination_setInHook true)

theorem charge_snd (h : Sound l) (d : Delta) : (l.charge t s d).2 = l.decision t s := by
  unfold charge decision
  rw [← guarded_snd h d]
  split
  · rfl
  · dsimp only
    split
    · rename_i hparked
      exact hparked.symm
    · rename_i hskipped
      exact hskipped.symm
    · rfl

theorem chargeBare_snd (h : Sound l) (d : Delta) : (l.chargeBare t s d).2 = l.destination t s := by
  unfold chargeBare
  split
  · exact chargeInHook_snd h d
  · exact guarded_snd h d

theorem setInHook_setInHook (hn : l.inHook t = false) : (l.setInHook t true).setInHook t false = l := by
  refine congrArg (fun threads : Table Thread => { l with threads }) ?_
  show (l.threads.modify t _).modify t _ = l.threads
  rw [Table.modify_modify]
  refine (Table.modify_congr ?_).trans (l.threads.modify_id t)
  exact congrArg (fun b : Bool => { l.thread t with inHook := b }) hn.symm

theorem Idle.setInHook {n : ServiceId → Nat} (h : Idle n l l') (b : Bool) :
    Idle n (l.setInHook t b) (l'.setInHook t b) where
  service := h.service
  services_size := h.services_size
  rest := congrArg (fun l₁ : Ledger => l₁.setInHook t b) h.rest

theorem Receives.setInHook (h : Receives l c d l') (b : Bool) :
    Receives (l.setInHook t b) c d (l'.setInHook t b) where
  contexts := h.contexts
  taken := h.taken
  tracker := h.tracker
  trackers_size := h.trackers_size
  receipts := h.receipts
  idle := h.idle.setInHook b

theorem Receives.unhook (hn : l.inHook t = false) (h : Receives (l.setInHook t true) c d l') :
    Receives l c d (l'.setInHook t false) :=
  setInHook_setInHook hn ▸ h.setInHook false

/-- What is looked for inside the hook is what would be looked for outside of it. -/
theorem Resolves.unhook {k : TaskKey} (hn : l.inHook t = false) (h : Resolves (l.setInHook t true) t s k l') :
    Resolves l t s k (l'.setInHook t false) := by
  have hreused : (l.setInHook t true).reused t s k = l.reused t s k := by
    simp only [reused, remembered, boundSlot, Thread.recall?, thread_setInHook]
    rfl
  have hbound : (l.setInHook t true).boundSlot t s = l.boundSlot t s := by
    simp only [boundSlot, thread_setInHook]
  have hknown : (l.setInHook t true).taskContext t s k = l.taskContext t s k := by
    simp only [taskContext, scopedContext, thread_setInHook]
    rfl
  have hslot : ∀ j i, (l.setInHook t true).slot j i = l.slot j i := fun _ _ => rfl
  have hback : ∀ j, { (l.setInHook t true).thread j with
      inHook := if t = j ∧ t < l.threads.size then false else ((l.setInHook t true).thread j).inHook } = l.thread j :=
    fun j => by
      have hsame := congrArg (fun l₁ : Ledger => l₁.thread j) (setInHook_setInHook hn)
      have hsize : (l.setInHook t true).threads.size = l.threads.size := threads_size_modifyThread ..
      rw [thread_setInHook, hsize] at hsame
      exact hsame
  exact {
    service := h.service
    lookups := fun j => hreused ▸ h.lookups j
    slot := fun j i => by
      have hread := h.slot j i
      rw [hreused, hbound, hknown] at hread
      exact hread
    slots_size := h.slots_size
    services_size := h.services_size
    thread := fun j => by
      have hsize : l'.threads.size = l.threads.size := h.threads_size.trans (threads_size_modifyThread ..)
      have hthread := h.thread j
      rw [hreused, hbound, hknown] at hthread
      rw [thread_setInHook, hthread, hsize]
      split
      · exact congrArg (fun th : Thread => { th with recent := (l.taskContext t s k).map (⟨s, k, ·⟩) }) (hback j)
      · exact hback j
    threads_size := (threads_size_modifyThread ..).trans (h.threads_size.trans (threads_size_modifyThread ..))
    rest := congrArg (fun l₁ : Ledger => { l₁ with threads := l.threads }) h.rest }

theorem LooksUp.unhook (hn : l.inHook t = false) (h : LooksUp (l.setInHook t true) t s l') :
    LooksUp l t s (l'.setInHook t false) := by
  unfold LooksUp at h ⊢
  rw [activeTask_setInHook] at h
  cases hk : l.activeTask t s with
  | some k =>
    rw [hk] at h
    exact h.unhook hn
  | none =>
    rw [hk] at h
    exact h ▸ setInHook_setInHook hn

theorem Parks.unhook (hn : l.inHook t = false) (h : Parks (l.setInHook t true) t s d l') :
    Parks l t s d (l'.setInHook t false) where
  rest := by
    have hrest := congrArg (fun l₁ : Ledger => l₁.setInHook t false) h.rest
    refine Eq.trans hrest (congrArg (fun threads : Table Thread => { l with threads }) ?_)
    show ((l.threads.modify t _).modify t _).modify t _ = l.threads.modify t _
    rw [Table.modify_modify, Table.modify_modify]
    refine Table.modify_congr ?_
    exact congrArg (fun b : Bool => { l.thread t with
      inHook := b, carry := some ⟨s, ((l.thread t).carriedFor s).addClamped d⟩ }) hn.symm
  receipts := h.receipts

/-! ## The context of a thread that has parked -/

section
variable (hp : Parks l t s d l')

include hp

/-- The new context is the same whether or not an amount is parked before. -/
theorem Parks.newHome : { l'.newHome t s with journal := l.journal } = l.newHome t s := by
  have hhome := congrArg (fun l₁ : Ledger => l₁.newHome t s) hp.rest
  refine Eq.trans hhome (congrArg (fun threads : Table Thread => { l.newHome t s with threads }) ?_)
  show (l.threads.modify t _).modify t _ = l.threads.modify t _
  rw [Table.modify_modify]
  exact Table.modify_congr rfl

theorem Parks.thread (ht : t < l.threads.size) :
    l'.thread t = { l.thread t with carry := some ⟨s, ((l.thread t).carriedFor s).addClamped d⟩ } := by
  have hthread := congrArg (fun l₁ : Ledger => l₁.thread t) hp.rest
  exact Eq.trans hthread (Table.get_modify_self _ ht)

end

/-- Nothing happens to a context that takes in nothing while nothing is pending. -/
theorem receives_zero (hz : (l.context c).pending = 0) (hi : Idle (fun _ => 0) l l')
    (hr : receipts l'.journal = receipts l.journal) : Receives l c 0 l' := by
  have hsum : l.sum c 0 = 0 := by
    rw [sum, hz]
    rfl
  have hreached : l.reached c 0 = [] := by
    rw [reached, hsum]
    exact if_pos (Nat.zero_le _)
  have hcontexts : l'.contexts = l.contexts := congrArg (fun l₁ => l₁.contexts) hi.rest
  have htrackers : l'.trackers = l.trackers := congrArg (fun l₁ => l₁.trackers) hi.rest
  exact {
    contexts := by
      rw [hcontexts, hsum]
      simp only [ite_self]
      refine Eq.trans (Table.modify_id ..).symm (Table.modify_congr ?_)
      show l.context c = { l.context c with cache := { (l.context c).cache with pending := 0 } }
      rw [← hz]
      rfl
    taken := fun i hi => by
      rw [hreached] at hi
      cases hi
    tracker := fun i _ => congrArg (fun t => t.get i) htrackers
    trackers_size := congrArg Table.size htrackers
    receipts := by
      rw [hreached, hr]
      rfl
    idle := by
      rw [hreached, ← hcontexts, ← htrackers]
      exact hi }

/-- A new context takes in what is held for its owner. -/
theorem settle_takes (h : Ready t l) (hs : s < l.services.size) (hh : (l.thread t).home = .absent)
    (hn : l.inHook t = false) :
    Receives (l.newHome t s) l.contexts.size ((l.thread t).carriedFor s) (l.settle t s).1 := by
  have hzero : ((l.newHome t s).context l.contexts.size).pending = 0 := by
    show ((l.contexts.add _).get l.contexts.size).pending = 0
    rw [Table.get_add, if_pos rfl]
    rfl
  have hout : (l.newHome t s).inHook t = false := by
    have hkeeps : (l.newHome t s).inHook t = l.inHook t := Table.get_modify_of_eq _ t t Thread.inHook fun _ => by rfl
    exact hkeeps.trans hn
  have hnew : Charging t (l, []) (l.newHome t s, []) := .settle hs hh
  have hready := Charging.ready (Charging.ready h hnew) (.hook true)
  have hlt : l.contexts.size < (l.newHome t s).contexts.size :=
    lt_of_lt_of_eq (Nat.lt_succ_self _) (Table.size_add ..).symm
  unfold settle
  simp only [hh]
  split
  · rename_i hdone
    rw [hdone.resolve_right fun hin => absurd (hin.symm.trans hout) nofun]
    exact receives_zero hzero (Idle.refl _) rfl
  · exact Receives.unhook hout (receives_absorb hready.sound hlt rfl)

theorem settle_receives (h : Ready t l') (hs : s < l'.services.size) (hh : (l.thread t).home = .absent)
    (ht : t < l.threads.size) (hn : l.inHook t = false) (hp : Parks l t s d l') :
    Receives (l.newHome t s) l.contexts.size (((l.thread t).carriedFor s).addClamped d) (l'.settle t s).1 := by
  have hthread := hp.thread ht
  have hhome : (l'.thread t).home = .absent := by
    rw [hthread]
    exact hh
  have hout : l'.inHook t = false := by
    rw [Ledger.inHook, hthread]
    exact hn
  have hheld : (l'.thread t).carriedFor s = ((l.thread t).carriedFor s).addClamped d := by
    rw [hthread]
    exact if_pos rfl
  have hsize : l'.contexts.size = l.contexts.size := congrArg (fun l₁ => l₁.contexts.size) hp.rest
  have htakes := settle_takes h hs hhome hout
  rw [hheld, hsize] at htakes
  exact htakes.of_idle (Idle.of_rest hp.newHome) hp.receipts

theorem home_of_receives (ht : t < l.threads.size) (h : Receives (l.newHome t s) c d l') :
    (l'.thread t).home = .settled s l.contexts.size := by
  rw [show l'.thread t = (l.newHome t s).thread t from congrArg (·.get t) h.idle.threads]
  exact home_newHome ht

theorem initialized_of_receives (h : Receives (l.newHome t s) c d l') :
    (l'.context l.contexts.size).initialized = true := by
  rw [context, h.contexts, Table.get_modify_of_eq _ _ _ Context.initialized fun _ => by rfl]
  show ((l.contexts.add _).get l.contexts.size).initialized = true
  rw [Table.get_add, if_pos rfl]

theorem idle_countSkip (hs : s < l.services.size) : Idle (fun j => if s = j then 1 else 0) l (l.countSkip s) where
  service := service_countSkip hs
  services_size := services_size_modifyService ..
  rest := rfl

/-- The context of the active task was looked for, unless the thread was inside the hook. -/
def Sought (l : Ledger) (t : ThreadId) (s : ServiceId) (l₁ : Ledger) : Prop :=
  if l.inHook t then l₁ = l else LooksUp l t s l₁

/-- What a charge has come to when it is over, after the context of the active task was looked for. -/
def Results (l : Ledger) (t : ThreadId) (s : ServiceId) (d : Delta) (l₁ l' : Ledger) : Charge → Prop
  | .skipped _ => Idle (fun j => if s = j then 1 else 0) l₁ l' ∧ receipts l'.journal = receipts l.journal
  | .parked =>
    l₁ = l ∧ Receives (l.newHome t s) l.contexts.size (((l.thread t).carriedFor s).addClamped d) l' ∧
      (l'.thread t).home = .settled s l.contexts.size ∧ (l'.context l.contexts.size).initialized = true
  | .task _ | .thread =>
    ∃ c, l.recipient t s = some c ∧ Receives l₁ c d l' ∧ receipts l₁.journal = receipts l.journal

theorem charge_results (h : Ready t l) (hs : s < l.services.size) (d : Delta) :
    (l.charge t s d).2 = l.decision t s ∧
      ∃ l₁, Sought l t s l₁ ∧ Results l t s d l₁ (l.charge t s d).1 (l.decision t s) := by
  have ht := h.thread
  unfold Sought
  cases hn : l.inHook t with
  | true =>
    simp only [charge, decision, hn, if_true]
    exact ⟨rfl, l, rfl, idle_countSkip hs, rfl⟩
  | false =>
    have hhook : Charging t (l, []) (l.setInHook t true, []) := .hook true
    have hin := hhook.ready h
    obtain ⟨l₁, hlooks, hcomes⟩ := chargeInHook_comes (t := t) (d := d) hin.sound hs hin.thread
    rw [destination_setInHook] at hcomes
    have hguarded := guarded_chargings (q := []) hs d h
    have hgready := hguarded.ready h
    have hgs := Nat.lt_of_lt_of_le hs hguarded.still.services_size
    have hgsnd := guarded_snd (t := t) (s := s) h.sound d
    have hfound := hlooks.unhook hn
    simp only [charge, decision, hn, hgsnd, Bool.false_eq_true, if_false]
    cases hd : l.destination t s with
    | skipped reason =>
      rw [hd] at hcomes
      obtain ⟨hidle, hreceipts⟩ := hcomes
      have hskip := (hidle.setInHook (t := t) false).trans (idle_countSkip hgs)
      simp only [Nat.zero_add] at hskip
      exact ⟨rfl, _, hfound, hskip, hreceipts⟩
    | parked =>
      rw [hd] at hcomes
      obtain ⟨habsent, rfl, hparks⟩ := hcomes
      have habsent : (l.thread t).home = .absent := (home_setInHook true t).symm.trans habsent
      have hreceives := settle_receives hgready hgs habsent ht hn (hparks.unhook hn)
      exact ⟨rfl, _, hfound, setInHook_setInHook hn, hreceives, home_of_receives ht hreceives,
        initialized_of_receives hreceives⟩
    | task k =>
      rw [hd] at hcomes
      obtain ⟨c, hc, hreceives, hreceipts⟩ := hcomes
      have hc : l.recipient t s = some c := (recipient_setInHook true).symm.trans hc
      exact ⟨hgsnd.trans hd, _, hfound, c, hc, hreceives.setInHook false, hreceipts⟩
    | thread =>
      rw [hd] at hcomes
      obtain ⟨c, hc, hreceives, hreceipts⟩ := hcomes
      have hc : l.recipient t s = some c := (recipient_setInHook true).symm.trans hc
      exact ⟨hgsnd.trans hd, _, hfound, c, hc, hreceives.setInHook false, hreceipts⟩

end Ledger

end HeapLedger
