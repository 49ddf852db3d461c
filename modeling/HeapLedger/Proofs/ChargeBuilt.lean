import HeapLedger.Proofs.Built

/-!
# How charges are built

A charge inside the hook is built from four kinds of steps, and sees neither trackers nor what is pending. Where an amount is handed to
a tracker, everything further is built from what answers the charges of echoes.
-/

namespace HeapLedger

open Ledger

namespace Ledger

/-! ## What is seen -/

section
variable (l : Ledger) (t : ThreadId) (s : ServiceId)

theorem thread_cover : l.cover.thread t = (l.thread t).veil := thread_veil l t

theorem context_cover (c : ContextId) : l.cover.context c = (l.context c).unbatch := context_unbatch l c

theorem service_cover : l.cover.service s = (l.service s).unbatch.veil :=
  (service_veil l.unbatch s).trans (congrArg Service.veil (service_unbatch l s))

theorem home_cover : (l.cover.thread t).home = (l.thread t).home := by
  rw [thread_cover]; rfl

theorem scopes_cover : (l.cover.thread t).scopes = (l.thread t).scopes := by
  rw [thread_cover]; rfl

theorem active_cover : (l.cover.thread t).active = (l.thread t).active := by
  rw [thread_cover]; rfl

theorem carry_cover : (l.cover.thread t).carry = (l.thread t).carry := by
  rw [thread_cover]; rfl

theorem contexts_size_cover : l.cover.contexts.size = l.contexts.size := Table.size_map ..

theorem source_cover : (l.cover.service s).source = (l.service s).source := by
  rw [service_cover]; rfl

theorem activeTask_cover : l.cover.activeTask t s = l.activeTask t s := by
  simp only [activeTask, active_cover, source_cover]
  rfl

theorem verdict_cover (d : Delta) (context : Option ContextId) (charge : Charge) :
    l.cover.verdict t s d context charge = l.verdict t s d context charge := by
  simp only [verdict, Thread.innermost, source_cover, scopes_cover]

/-- What is seen no matter when contexts commit is seen without trackers. -/
theorem shroud_of_cover {α : Type} {v : Ledger → α} (hv : ∀ l : Ledger, v l.cover = v l) : v l.shroud = v l := by
  rw [← hv, cover_shroud, hv]

theorem home_shroud : (l.shroud.thread t).home = (l.thread t).home :=
  shroud_of_cover l (v := fun l => (l.thread t).home) (home_cover · t)

theorem verdict_shroud (d : Delta) (context : Option ContextId) (charge : Charge) :
    l.shroud.verdict t s d context charge = l.verdict t s d context charge :=
  shroud_of_cover l (v := fun l => l.verdict t s d context charge) (verdict_cover · t s d context charge)

/-- What is seen without trackers is seen with them. -/
theorem seen_of_shroud {α : Type} {v : Ledger → α} (hv : ∀ l : Ledger, v l.shroud = v l) : v l.veil = v l := by
  rw [← hv, shroud_veil, hv]

theorem home_veil : (l.veil.thread t).home = (l.thread t).home :=
  seen_of_shroud l (v := fun l => (l.thread t).home) (home_shroud · t)

theorem inHook_veil : l.veil.inHook t = l.inHook t := by
  rw [inHook, thread_veil]; rfl

end

/-! ## What is not seen -/

section
variable (l : Ledger)

theorem veil_modifyService (s : ServiceId) {f : Service → Service} (hf : ∀ svc, (f svc).veil = svc.veil) :
    (l.modifyService s f).veil = l.veil := by
  have hservices : (l.services.modify s f).map Service.veil = l.services.map Service.veil :=
    Table.map_modify_of_eq _ s hf
  unfold veil
  rw [← hservices]
  rfl

theorem veil_modifyThread (t : ThreadId) {f : Thread → Thread} (hf : ∀ th, (f th).veil = th.veil) :
    (l.modifyThread t f).veil = l.veil := by
  have hthreads : (l.threads.modify t f).map Thread.veil = l.threads.map Thread.veil :=
    Table.map_modify_of_eq _ t hf
  unfold veil
  rw [← hthreads]
  rfl

theorem veil_countSkip (s : ServiceId) : (l.countSkip s).veil = l.veil := veil_modifyService l s fun _ => rfl

/-- All that is to be seen of a resolution is its answer. -/
theorem veil_resolve (t : ThreadId) (s : ServiceId) (k : TaskKey) : (l.resolve t s k).1.veil = l.veil := by
  obtain ⟨f, g, hf, hg, heq⟩ := l.seek_eq t s k
  show (l.seek t s k).1.veil = l.veil
  rw [heq, veil_modifyThread _ t fun th => (congrArg Thread.veil (hg th) :)]
  exact veil_modifyService l s fun svc => (congrArg Service.veil (hf svc) :)

theorem journal_seek (t : ThreadId) (s : ServiceId) (k : TaskKey) : (l.seek t s k).1.journal = l.journal := by
  obtain ⟨f, g, -, -, heq⟩ := l.seek_eq t s k
  rw [heq]
  rfl

theorem skipped_seek (t : ThreadId) (s : ServiceId) (k : TaskKey) (j : ServiceId) :
    ((l.seek t s k).1.service j).skipped = (l.service j).skipped := by
  obtain ⟨f, g, hf, -, heq⟩ := l.seek_eq t s k
  rw [heq]
  exact Table.get_modify_of_eq _ s j Service.skipped fun svc => (congrArg Service.skipped (hf svc) :)

end

/-! ## Charges inside the hook -/

section
variable (t : ThreadId) (s : ServiceId) (d : Delta)

theorem conclude_built (context : Option ContextId) (charge : Charge) :
    Built cover (Inner t s) fun l => l.conclude t s d context charge :=
  (Built.read (u := cover) (P := Inner t s) (fun l => l.verdict t s d context charge)
    (verdict_cover · t s d context charge) fun v => BuiltOnly.answer (.step (.charged v)) charge :)

theorem chargeContext_built (c : ContextId) (charge : Charge) :
    Built cover (Inner t s) fun l => l.chargeContext t s c d charge := by
  refine .split (fun l => (l.context c).initialized) (fun l => by rw [context_cover]; rfl) fun initialized => ?_
  cases initialized with
  | true =>
    have hcharge := (conclude_built t s d (some c) charge).bind fun a => BuiltOnly.answer (.step (.absorb c d)) a
    exact ⟨_, hcharge, fun l h => by simp only [chargeContext, h, if_true]⟩
  | false => exact ⟨_, conclude_built t s d (some c) _, fun l h => by simp [chargeContext, h]; rfl⟩

theorem park_built : Built cover (Inner t s) fun l => l.park t s d := by
  have hpark : ∀ carry : Carry, Built cover (Inner t s) fun l =>
      (l.modifyThread t fun th => { th with carry := some carry }).conclude t s d none .parked := fun carry =>
    BuiltOnly.seq (.step (.carry (some carry))) (conclude_built t s d none .parked)
  refine .split (fun l => (l.thread t).carry) (carry_cover · t) fun carry => ?_
  cases carry with
  | none => exact ⟨_, hpark ⟨s, d⟩, fun l h => by simp only [park, h]⟩
  | some carry =>
    by_cases ho : carry.owner = s
    · exact ⟨_, hpark ⟨s, carry.delta.addClamped d⟩, fun l h => by simp only [park, h, ho, if_true]⟩
    · exact ⟨_, conclude_built t s d none (.skipped .foreignThreadContext), fun l h => by
        simp only [park, h, ho, if_false]⟩

theorem chargeThread_built : Built cover (Inner t s) fun l => l.chargeThread t s d := by
  refine .split (fun l => (l.thread t).home) (home_cover · t) fun home => ?_
  cases home with
  | absent => exact ⟨_, park_built t s d, fun l h => by simp only [chargeThread, h]⟩
  | closed =>
    exact ⟨_, conclude_built t s d none (.skipped .threadExiting), fun l h => by simp only [chargeThread, h]⟩
  | settled owner c =>
    by_cases ho : owner = s
    · exact ⟨_, chargeContext_built t s d c .thread, fun l h => by simp only [chargeThread, h, ho, if_true]⟩
    · exact ⟨_, conclude_built t s d none (.skipped .foreignThreadContext), fun l h => by
        simp only [chargeThread, h, ho, if_false]⟩

theorem chargeTask_built (k : TaskKey) : Built cover (Inner t s) fun l => l.chargeTask t s k d := by
  refine Built.branch (f := fun l => l.resolve t s k) (.step (.resolve k)) fun context => ?_
  cases context with
  | none =>
    exact ⟨_, conclude_built t s d none (.skipped .taskContextAbsent), fun l h => by simp only [chargeTask, h]⟩
  | some c => exact ⟨_, chargeContext_built t s d c (.task k), fun l h => by simp only [chargeTask, h]⟩

theorem chargeInHook_built : Built cover (Inner t s) fun l => l.chargeInHook t s d := by
  refine .split (·.activeTask t s) (activeTask_cover · t s) fun active => ?_
  cases active with
  | some k => exact ⟨_, chargeTask_built t s d k, fun l h => by simp only [chargeInHook, h]⟩
  | none => exact ⟨_, chargeThread_built t s d, fun l h => by simp only [chargeInHook, h]⟩

/-! ## Around the hook -/

def afterCharge (l : Ledger) (t : ThreadId) (s : ServiceId) (d : Delta) : Option Charge → Ledger × Charge
  | none => refuse l t s d
  | some .parked => ((l.settle t s).1, .parked)
  | some (.skipped reason) => (l.countSkip s, .skipped reason)
  | some charge => (l, charge)

def enterCharge (l : Ledger) (t : ThreadId) (s : ServiceId) (d : Delta) : Ledger × Option Charge :=
  if l.inHook t then (l, none)
  else l.guarded t fun l => ((l.chargeInHook t s d).1, some (l.chargeInHook t s d).2)

theorem charge_eq_afterCharge (l : Ledger) : l.charge t s d =
    (l.enterCharge t s d).1.afterCharge t s d (l.enterCharge t s d).2 := by
  unfold charge enterCharge
  cases l.inHook t with
  | true => rfl
  | false =>
    simp only [Bool.false_eq_true, if_false, guarded]
    cases ((l.setInHook t true).chargeInHook t s d).2 <;> rfl

theorem settle_parts : Built cover (Settling t s) fun l => l.settle t s := by
  have hcarried : ∀ (d : Delta) (c : ContextId), Built cover (Settling t s) fun l =>
      if d = 0 ∨ l.inHook t then (l, true)
      else l.guarded t fun l => ((l.post (.carried t s c d)).absorb refuse t c d, true) := by
    intro d c
    by_cases hd : d = 0
    · simpa only [hd, true_or, if_true] using Built.done true
    · simp only [hd, false_or]
      have hpost : BuiltOnly cover (Settling t s) (·.post (.carried t s c d)) := .step (.carried c d)
      have habsorb : BuiltOnly cover (Settling t s) (·.absorb refuse t c d) := .step (.absorb c d)
      exact .guarded t ((hpost.seq habsorb).map fun _ => true) (.done true)
  refine .split (fun l => (l.thread t).home) (home_cover · t) fun home => ?_
  cases home with
  | absent =>
    have hnew := Built.read (u := cover) (fun l => ((l.thread t).carriedFor s, l.contexts.size))
      (fun l => by rw [thread_cover, contexts_size_cover]; rfl) fun r =>
        BuiltOnly.seq (.step .newHome) (hcarried r.1 r.2)
    exact ⟨_, hnew, fun l h => by simp only [settle, h]⟩
  | settled => exact ⟨_, .done false, fun l h => by simp only [settle, h]⟩
  | closed => exact ⟨_, .done false, fun l h => by simp only [settle, h]⟩

theorem afterCharge_parts (charge : Option Charge) :
    Built cover (Settling t s) fun l => l.afterCharge t s d charge := by
  have hskip : BuiltOnly cover (Settling t s) (·.countSkip s) := .step .skip
  match charge with
  | none => exact hskip.answer _
  | some .parked => exact (settle_parts t s).map fun _ => Charge.parked
  | some (.skipped reason) => exact hskip.answer _
  | some (.task _) | some .thread => exact .done _

theorem charge_parts : Built cover (Whole t s) fun l => l.charge t s d := by
  have hinner : Built cover (Whole t s) fun l => l.chargeInHook t s d :=
    (chargeInHook_built t s d).mono cover_cover fun h => .step (.inner h)
  have henter : Built cover (Whole t s) fun l => l.enterCharge t s d := .guarded t (hinner.map some) (.done none)
  have hafter : ∀ charge, Built cover (Whole t s) fun l => l.afterCharge t s d charge := fun charge =>
    (afterCharge_parts t s d charge).mono cover_cover fun h => .step (.settling h)
  exact (henter.bind hafter).congr (charge_eq_afterCharge t s d)

end

/-! ## Up the trackers -/

structure Replies (P : StepKind) (t : ThreadId) (respond : Responder) : Prop where
  basic : ∀ {α : Type} {f : Ledger → Ledger × α}, Basic t α f → P α f
  reply : ∀ s d, Built veil P fun l => respond l t s d

namespace Replies

variable {P : StepKind} {t : ThreadId} {respond : Responder} (hr : Replies P t respond)

include hr

theorem post {e : Entry} (he : e.Plain) : BuiltOnly veil P (·.post e) := .step (hr.basic (.post he))

theorem modifyTracker (i : TrackerId) (f : Tracker → Tracker) : BuiltOnly veil P (·.modifyTracker i f) :=
  .step (hr.basic (.aside (fun _ _ _ _ _ => rfl) fun _ => ⟨rfl, rfl⟩))

theorem modifyContext (c : ContextId) (f : Context → Context) : BuiltOnly veil P (·.modifyContext c f) :=
  .step (hr.basic (.aside (fun _ _ _ _ _ => rfl) fun _ => ⟨rfl, rfl⟩))

theorem answer (name : String) (r : Request) : BuiltOnly veil P fun l => answer respond t name l r :=
  (hr.reply r.service r.delta).bind fun charge => hr.post (e := .event (.answered name charge)) trivial

theorem received (name : String) (b : Delta) : BuiltOnly veil P fun l => l.event (.received name b (l.inHook t)) :=
  (Built.read (u := veil) (P := P) (·.inHook t) (inHook_veil · t) fun inHook =>
    hr.post (e := .event (.received name b inHook)) trivial :)

theorem deliver (b : Delta) (i : TrackerId) : BuiltOnly veil P fun l => deliver respond t b l i := by
  refine .split (fun l => (l.tracker i).kind) (fun _ => rfl) fun kind => ?_
  cases kind with
  | counter label totals => exact ⟨_, hr.modifyTracker i _, fun l h => by simp only [Ledger.deliver, h]; rfl⟩
  | echo e =>
    cases hs : e.spend? with
    | none => exact ⟨_, hr.received e.name b, fun l h => by simp only [Ledger.deliver, h, hs]⟩
    | some e' =>
      have hanswers := BuiltOnly.foldl (hr.answer e.name) e.charges
      exact ⟨_, (hr.received e.name b).seq ((hr.modifyTracker i _).seq hanswers),
        fun l h => by simp only [Ledger.deliver, h, hs]; rfl⟩

theorem propagate (i : TrackerId) (b : Delta) : BuiltOnly veil P fun l => propagate respond l t i b :=
  (Built.read (u := veil) (P := P) (·.route i) (fun _ => rfl) fun is => BuiltOnly.foldl (hr.deliver b) is :)

/-! ## Contexts -/

theorem commit (c : ContextId) (b : Delta) : BuiltOnly veil P fun l => commit respond l t c b :=
  (Built.read (u := veil) (P := P) (fun l => (l.context c).tracker) (fun _ => rfl) fun i =>
    (hr.post (e := .committed c b) trivial).seq (hr.propagate i b) :)

theorem commitSum (c : ContextId) (sum : Option Delta) : BuiltOnly veil P fun l =>
    match sum with
    | none => l
    | some b => Ledger.commit respond l t c b := by
  cases sum with
  | none => exact .done ()
  | some b => exact hr.commit c b

theorem absorb (c : ContextId) (d : Delta) : BuiltOnly veil P fun l => absorb respond l t c d :=
  (Built.read (u := veil) (P := P) (fun l => (l.context c).cache.consume d) (fun _ => rfl) fun r =>
    (hr.modifyContext c fun ctx => { ctx with cache := r.1 }).seq (hr.commitSum c r.2) :)

theorem accept (c : ContextId) (d : Delta) : BuiltOnly veil P fun l => accept respond l t c d :=
  (hr.post (e := .accepted c d) trivial).seq (hr.absorb c d)

theorem flush (c : ContextId) : Built veil P fun l => flush respond l t c :=
  (Built.read (u := veil) (P := P) (fun l => (l.context c).cache.take) (fun _ => rfl) fun r =>
    (hr.post (e := .flushed c) trivial).seq
      ((hr.modifyContext c fun ctx => { ctx with cache := r.1 }).seq ((hr.commit c r.2).answer r.2)) :)

end Replies

/-! ## Charges through a service -/

section
variable {S : ServiceId → Prop} (t : ThreadId)

theorem replies_refuse : Replies (Core t S) t refuse where
  basic := .basic
  reply s _ := BuiltOnly.answer (.step (.skip s)) _

variable {t}

/-- The steps of a charge inside the hook, taken apart. -/
theorem Inner.built {α : Type} {s : ServiceId} {f : Ledger → Ledger × α} (hs : S s) (h : Inner t s α f) :
    Built veil (Core t S) f := by
  cases h with
  | charged v => exact .step (.charged v)
  | carry carry => exact .step (.carry carry)
  | resolve k => exact .step (.resolve hs k)
  | absorb c d => exact (replies_refuse t).absorb c d

variable (t) {s : ServiceId} (hs : S s) (d : Delta)

theorem newHome_built (s : ServiceId) : BuiltOnly veil (Core t S) fun l => l.newHome t s := by
  let add (i : TrackerId) (threshold : UInt64) (l : Ledger) : Ledger :=
    { l with
      contexts := l.contexts.add
        { identity := .thread ⟨l.nextThread⟩, tracker := i, cache := { threshold }, initialized := true }
      nextThread := l.nextThread + 1 }
  let move (c : ContextId) (th : Thread) : Thread :=
    { th with home := .settled s c, destructors := .home :: th.destructors }
  have hadd : ∀ (i : TrackerId) (threshold : UInt64), BuiltOnly veil (Core t S) (add i threshold) :=
    fun _ _ => .step (.basic (.aside (fun _ _ _ _ _ => rfl) fun _ => ⟨rfl, rfl⟩))
  have hmove : ∀ c : ContextId, BuiltOnly veil (Core t S) (·.modifyThread t (move c)) :=
    fun _ => .step (.thread fun _ _ _ _ _ _ _ => rfl)
  have hcarry : BuiltOnly veil (Core t S) (·.modifyThread t fun th => { th with carry := none }) :=
    .step (.carry none)
  have hnew := Built.read (fun l => ((l.service s).threadTracker, (l.service s).threshold, l.contexts.size))
    (fun l => by rw [service_veil]; rfl) fun r => (hadd r.1 r.2.1).seq ((hmove r.2.2).seq hcarry)
  refine hnew.congr fun l => congrArg (·, ()) ?_
  let added := add (l.service s).threadTracker (l.service s).threshold l
  exact (modifyThread_modifyThread added t (move l.contexts.size) fun th => { th with carry := none }).symm

variable {t} in
theorem Settling.core {α : Type} {s : ServiceId} {f : Ledger → Ledger × α} (h : Settling t s α f) :
    Built veil (Core t S) f := by
  cases h with
  | skip => exact .step (.skip s)
  | newHome => exact newHome_built t s
  | carried c d => exact .step (.carried t s c d)
  | absorb c d => exact (replies_refuse t).absorb c d

theorem settle_built (s : ServiceId) : Built veil (Core t S) fun l => l.settle t s :=
  (settle_parts t s).mono cover_veil Settling.core

theorem afterCharge_built (charge : Option Charge) : Built veil (Core t S) fun l => l.afterCharge t s d charge :=
  (afterCharge_parts t s d charge).mono cover_veil Settling.core

include hs

theorem chargeInHook_core : Built veil (Core t S) fun l => l.chargeInHook t s d :=
  (chargeInHook_built t s d).mono cover_veil fun h => Inner.built hs h

theorem charge_built : Built veil (Core t S) fun l => l.charge t s d := by
  refine (charge_parts t s d).mono cover_veil fun h => ?_
  cases h with
  | inner h => exact Inner.built hs h
  | settling h => exact Settling.core h

theorem chargeBare_built : Built veil (Core t S) fun l => l.chargeBare t s d :=
  .guarded t (chargeInHook_core t hs d) (chargeInHook_core t hs d)

end

/-- A whole charge is built from the steps of one through any service. -/
theorem Outer.built {α : Type} {t : ThreadId} {f : Ledger → Ledger × α} (h : Outer t α f) :
    Built veil (Core t fun _ => True) f := by
  cases h with
  | basic h => exact .step (.basic h)
  | charge s d => exact charge_built t trivial d
  | settle s => exact settle_built t s

theorem Ending.built {α : Type} {t : ThreadId} {f : Ledger → Ledger × α} (h : Ending t α f) :
    Built veil (Core t fun _ => True) f := by
  cases h with
  | outer h => exact Outer.built h
  | endHome => exact .step (.thread fun _ _ _ _ _ _ _ => rfl)

theorem replies_charge (t : ThreadId) : Replies (Outer t) t charge where
  basic := .basic
  reply s d := .step (.charge s d)

end Ledger

end HeapLedger
