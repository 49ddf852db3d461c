import HeapLedger.Proofs.Agree

/-!
# No matter when contexts commit

Ledgers with counters that differ only in when their contexts have committed stay like that, whatever is done, and tell
the same, but for what is pending and for thresholds.
-/

namespace HeapLedger

open Ledger

abbrev Blind : StepKind := fun _ f => Agree Rebatched f f

/-! ## Single steps -/

section
variable {α : Type}

/-- Two steps that do the same to whatever is not taken out. -/
theorem Agree.unbatched {f f' : Ledger → Ledger × α} (g : Ledger → Ledger × α)
    (hf : ∀ l, l.Counts → ((f l).1.unbatch, (f l).2) = g l.unbatch)
    (hf' : ∀ l, l.Counts → ((f' l).1.unbatch, (f' l).2) = g l.unbatch)
    (hg : ∀ l, l.Counts → (g l).1.Counts) : Agree Rebatched f f' := by
  intro l l' h
  have hleft := hf l h.counts
  have hright := hf' l' (h.counts.of_unbatch h.same.symm)
  obtain ⟨hsame, hanswer⟩ := Prod.ext_iff.mp (hleft.trans (h.same ▸ hright.symm))
  refine ⟨⟨hsame, counts_unbatch.mp ?_⟩, hanswer⟩
  have hfst : (f l).1.unbatch = (g l.unbatch).1 := congrArg Prod.fst hleft
  rw [hfst]
  exact hg _ (counts_unbatch.mpr h.counts)

/-- A step that changes no tracker and has nothing to do with what is taken out. -/
theorem plain_blind {f : Ledger → Ledger × α} (hf : ∀ l : Ledger, ((f l).1.unbatch, (f l).2) = f l.unbatch)
    (ht : ∀ l, (f l).1.trackers = l.trackers) : Built unbatch Blind f := by
  refine .step (.unbatched f (fun l _ => hf l) (fun l _ => hf l) fun l hc i => ?_)
  rw [tracker, ht]
  exact hc i

/-- A step that does nothing but what is taken out. -/
theorem hidden_blind {f : Ledger → Ledger} (hf : ∀ l : Ledger, l.Counts → (f l).unbatch = l.unbatch) :
    BuiltOnly unbatch Blind f := by
  have hfst : ∀ l : Ledger, l.Counts → ((f l).unbatch, ()) = (l.unbatch, ()) := fun l hc => by rw [hf l hc]
  exact .step (.unbatched (fun l => (l, ())) hfst hfst fun _ hc => hc)

theorem Built.blind {f : Ledger → Ledger × α} (h : Built unbatch Blind f) : Agree Rebatched f f := by
  refine h.agree (fun _ _ hr => hr.same) (fun _ _ hr t => hr.read (·.inHook t) fun _ => rfl) (fun t b => ?_) id
  exact .unbatched (fun l => (l.setInHook t b, ())) (fun _ _ => rfl) (fun _ _ => rfl) fun _ hc => hc

end

namespace Ledger

variable (t : ThreadId) (s : ServiceId) (d : Delta)

theorem post_blind {e : Entry} (he : e.unbatch = some e) : BuiltOnly unbatch Blind (·.post e) :=
  plain_blind (fun l => by rw [unbatch_post l he]) fun _ => rfl

theorem modifyThread_blind (f : Thread → Thread) : BuiltOnly unbatch Blind (·.modifyThread t f) :=
  plain_blind (fun _ => rfl) fun _ => rfl

theorem modifyService_blind {f : Service → Service} (hf : ∀ svc, (f svc).unbatch = f svc.unbatch) :
    BuiltOnly unbatch Blind (·.modifyService s f) :=
  plain_blind (fun l => by rw [unbatch_modifyService l s hf]) fun _ => rfl

theorem absorb_blind (respond : Responder) (c : ContextId) : BuiltOnly unbatch Blind fun l => l.absorb respond t c d :=
  hidden_blind fun _ hc => unbatch_absorb hc d

theorem propagate_blind (respond : Responder) (i : TrackerId) :
    BuiltOnly unbatch Blind fun l => l.propagate respond t i d :=
  hidden_blind fun _ hc => unbatch_propagate hc i d

/-- That a context was told to commit is seen, but not what came of it. -/
theorem flush_blind (respond : Responder) (c : ContextId) : BuiltOnly unbatch Blind fun l => (l.flush respond t c).1 := by
  have hfst : ∀ l : Ledger, l.Counts → ((l.flush respond t c).1.unbatch, ()) = (l.unbatch.post (.flushed c), ()) :=
    fun l hc => by rw [unbatch_flush hc]
  exact .step (.unbatched (fun l => (l.post (.flushed c), ())) hfst hfst fun _ hc => hc)

/-- That an account was closed is seen, but not what was pending. -/
theorem closing_blind (a : Account) :
    BuiltOnly unbatch Blind fun l => l.notice (.accountClosed a.key (l.context a.context).pending) := by
  have hfst : ∀ l : Ledger, l.Counts → ((l.notice (.accountClosed a.key (l.context a.context).pending)).unbatch, ()) =
      (l.unbatch.notice (.accountClosed a.key 0), ()) := fun l _ => by rw [notice, unbatch_post l rfl]; rfl
  exact .step (.unbatched (fun l => (l.notice (.accountClosed a.key 0), ())) hfst hfst fun _ hc => hc)

theorem newContext_blind (k : TaskKey) (i : TrackerId) (initialized : Bool) :
    Built unbatch Blind fun l => l.newContext s k i initialized := by
  let add (l : Ledger) : Ledger × ContextId :=
    ({ l with contexts := l.contexts.add { identity := .task k, tracker := i, initialized, cache := default } },
      l.contexts.size)
  have hadd : ∀ l : Ledger, l.Counts →
      ((l.newContext s k i initialized).1.unbatch, (l.newContext s k i initialized).2) = add l.unbatch := by
    intro l _
    simp only [newContext, add, unbatch, Table.map_add, Table.size_map]
    rfl
  exact .step (.unbatched add hadd hadd fun _ hc => hc)

theorem newCounter_blind (label : String) (parent : Option TrackerId) :
    Built unbatch Blind fun l => l.newTracker (.counter label {}) parent := by
  have hadd : ∀ l : Ledger, l.Counts → ((l.newTracker (.counter label {}) parent).1.unbatch,
      (l.newTracker (.counter label {}) parent).2) = l.unbatch.newTracker (.counter label {}) parent := by
    intro l _
    have hroute : parent.map l.unbatch.route = parent.map l.route := by
      refine Option.map_congr fun i _ => ?_
      rw [route, route, tracker_unbatch]
      rfl
    simp only [newTracker, unbatch, Table.map_add, Table.size_map]
    rw [← hroute]
    rfl
  refine .step (.unbatched (·.newTracker (.counter label {}) parent) hadd hadd fun l hc j => ?_)
  rw [tracker, newTracker, Table.get_add]
  split
  · exact ⟨label, {}, rfl⟩
  · exact hc j

/-! ## Resolution -/

section
variable (l : Ledger) (k : TaskKey)

theorem unbatch_modifySlot (i : Nat) (f : Slot → Slot) : (l.modifySlot s i f).unbatch = l.unbatch.modifySlot s i f :=
  unbatch_modifyService l s fun _ => rfl

theorem unbatch_memorize (answer : Option ContextId) :
    (l.memorize t s k answer).unbatch = l.unbatch.memorize t s k answer := by
  have hslot : l.unbatch.boundSlot t s = l.boundSlot t s := rfl
  rw [memorize_eq, memorize_eq, hslot]
  cases l.boundSlot t s with
  | some i => exact unbatch_modifySlot s l i _
  | none => cases answer <;> rfl

theorem unbatch_seek : ((l.seek t s k).1.unbatch, (l.seek t s k).2) = l.unbatch.seek t s k := by
  have hreused : l.unbatch.reused t s k = l.reused t s k := by
    simp only [reused, remembered, slot, slots_unbatch]
    rfl
  unfold seek
  rw [hreused]
  cases l.reused t s k with
  | some c => rfl
  | none =>
    have hlookup : (l.lookup t s k).1.unbatch = (l.unbatch.lookup t s k).1 := unbatch_modifyService l s fun _ => rfl
    have hknown : l.unbatch.taskContext t s k = l.taskContext t s k := taskContext_unbatch l t s k
    have hmemorize := unbatch_memorize t s (l.lookup t s k).1 k (l.taskContext t s k)
    rw [hlookup] at hmemorize
    dsimp only [lookup] at hmemorize ⊢
    rw [hmemorize, hknown]

theorem trackers_seek : (l.seek t s k).1.trackers = l.trackers := by
  obtain ⟨f, g, -, -, heq⟩ := l.seek_eq t s k
  rw [heq]
  rfl

theorem resolve_blind : Built unbatch Blind fun l => l.resolve t s k := by
  refine plain_blind (fun l => ?_) fun l => trackers_seek t s l k
  have hseek := unbatch_seek t s l k
  have hlive : (l.taskContext t s k).any (fun c => !(l.unbatch.context c).closed) =
      (l.taskContext t s k).any fun c => !(l.context c).closed := by simp only [closed_unbatch]
  unfold resolve
  rw [← hseek]
  dsimp only
  rw [taskContext_unbatch, source_unbatch, hlive, unbatch_post _ rfl]
  rfl

end

/-! ## Charges -/

theorem skip_blind : BuiltOnly unbatch Blind (·.countSkip s) := modifyService_blind s fun _ => rfl

theorem newHome_blind : BuiltOnly unbatch Blind fun l => l.newHome t s := by
  let add (l : Ledger) : Ledger :=
    { l with
      contexts := l.contexts.add
        { identity := .thread ⟨l.nextThread⟩, tracker := (l.service s).threadTracker, cache := default, initialized := true }
      nextThread := l.nextThread + 1
      threads := l.threads.modify t fun th =>
        { th with home := .settled s l.contexts.size, carry := none, destructors := .home :: th.destructors } }
  have hadd : ∀ l : Ledger, l.Counts → ((l.newHome t s).unbatch, ()) = (add l.unbatch, ()) := by
    intro l _
    have htracker : (l.unbatch.service s).threadTracker = (l.service s).threadTracker := by
      rw [service_unbatch]
      rfl
    simp only [add, htracker]
    simp only [newHome, unbatch, Table.map_add, Table.size_map]
    rfl
  exact .step (.unbatched (fun l => (add l, ())) hadd hadd fun _ hc => hc)

end Ledger

theorem Inner.blind {α : Type} {t : ThreadId} {s : ServiceId} {f : Ledger → Ledger × α} (h : Inner t s α f) :
    Built unbatch Blind f := by
  cases h with
  | charged v => exact post_blind rfl
  | carry carry => exact modifyThread_blind t _
  | resolve k => exact resolve_blind t s k
  | absorb c d => exact absorb_blind t d refuse c

theorem Settling.blind {α : Type} {t : ThreadId} {s : ServiceId} {f : Ledger → Ledger × α} (h : Settling t s α f) :
    Built unbatch Blind f := by
  cases h with
  | skip => exact skip_blind s
  | newHome => exact newHome_blind t s
  | carried c d => exact post_blind rfl
  | absorb c d => exact absorb_blind t d refuse c

/-! ## Whatever is done in parts -/

theorem Apart.blind {α : Type} {f : Ledger → Ledger × α} (hf : Apart f) : Built unbatch Blind f := by
  refine plain_blind (fun l => ?_) hf.trackers
  have hwith := hf l (l.trackers.map Tracker.unbatch) (l.contexts.map Context.unbatch) (l.services.map Service.unbatch)
    l.threads l.recalls (l.journal.filterMap Entry.unbatch)
  exact Prod.ext ((congrArg unbatch (hf.fst_eq l)).trans (congrArg Prod.fst hwith).symm) (congrArg Prod.snd hwith).symm

theorem Part.blind {α : Type} {t : ThreadId} {f : Ledger → Ledger × α} (h : Part t α f) : Built unbatch Blind f := by
  cases h with
  | post he hb => exact post_blind hb
  | thread => exact modifyThread_blind t _
  | context c hf =>
    exact plain_blind (fun l => by rw [unbatch_modifyContext l c fun ctx => (hf ctx default).symm]) fun _ => rfl
  | apart hf => exact hf.blind
  | charge s d =>
    refine (charge_parts t s d).mono cover_unbatch fun h => ?_
    cases h with
    | inner h => exact h.blind
    | settling h => exact h.blind
  | settle s => exact (settle_parts t s).mono cover_unbatch Settling.blind
  | flush c => exact flush_blind t Ledger.charge c
  | newContext s k i initialized => exact newContext_blind s k i initialized
  | newCounter label parent => exact newCounter_blind label parent
  | closing a => exact closing_blind a

theorem LastPart.blind {α : Type} {t : ThreadId} {f : Ledger → Ledger × α} (h : LastPart t α f) :
    Built unbatch Blind f := by
  cases h with
  | part h => exact h.blind
  | endHome => exact modifyThread_blind t _

/-! ## Actions and outcomes -/

/-- An action that has to do neither with echoes nor with blocks, and is not told a text. -/
def Action.metered : Action → Bool
  | newEcho .. | bindEcho .. | describe _ => false
  | a => !a.handles

def Action.withThreshold (threshold : UInt64) : Action → Action
  | newService settings => .newService { settings with threshold }
  | newBare source slots i _ => .newBare source slots i threshold
  | a => a

/-- What is told, but for amounts that were pending and thresholds. -/
def Outcome.unbatch : Outcome → Outcome
  | service s _ slots => .service s defaultThreshold slots
  | context c k _ => .context c k defaultThreshold
  | flushed amount => .flushed (amount.map fun _ => 0)
  | pending amount => .pending (amount.map fun _ => 0)
  | o => o

namespace Ledger

variable (t : ThreadId) (s : ServiceId)

/-- Does an action, and tells what does not depend on when contexts commit. -/
def tell (l : Ledger) (t : ThreadId) (a : Action) : Ledger × Outcome :=
  ((l.perform t a).1, (l.perform t a).2.unbatch)

/-! ### Services -/

section
variable (source : TaskSource) (slots : Nat) (i : TrackerId) (threshold threshold' : UInt64)

theorem unbatch_addService (l : Ledger) : ((l.addService source slots i threshold).1.unbatch,
    (l.addService source slots i threshold).2) = l.unbatch.addService source slots i defaultThreshold := by
  unfold addService
  dsimp only
  split <;> simp only [unbatch, Table.map_add, Table.size_map] <;> rfl

theorem counts_addService {l : Ledger} (hc : l.Counts) : (l.addService source slots i threshold).1.Counts := by
  unfold addService
  dsimp only
  split <;> exact hc

theorem agree_addService : Agree Rebatched (·.addService source slots i threshold)
    (·.addService source slots i threshold') :=
  .unbatched (·.addService source slots i defaultThreshold) (fun l _ => unbatch_addService source slots i threshold l)
    (fun l _ => unbatch_addService source slots i threshold' l) fun _ hc => counts_addService source slots i _ hc

theorem agree_serviceCreated : AgreeOnly Rebatched
    (fun l => l.notice (.serviceCreated l.services.size threshold slots source))
    fun l => l.notice (.serviceCreated l.services.size threshold' slots source) := by
  have hnotice : ∀ (threshold : UInt64) (l : Ledger), l.Counts →
      ((l.notice (.serviceCreated l.services.size threshold slots source)).unbatch, ()) =
        (l.unbatch.notice (.serviceCreated l.unbatch.services.size defaultThreshold slots source), ()) := by
    intro threshold l _
    have hsize : l.unbatch.services.size = l.services.size := Table.size_map ..
    rw [notice, unbatch_post l rfl, hsize]
    rfl
  exact .unbatched (fun l => (l.notice (.serviceCreated l.services.size defaultThreshold slots source), ()))
    (hnotice threshold) (hnotice threshold') fun _ hc => hc

end

theorem agree_newService (settings : ServiceSettings) (threshold : UInt64) :
    Agree Rebatched (·.newService settings) (·.newService { settings with threshold }) := by
  have htracker : Agree Rebatched (·.trackerFor settings) (·.trackerFor { settings with threshold }) := by
    obtain ⟨_, slots, tracker, source⟩ := settings
    cases tracker with
    | some i => exact .done i
    | none => exact (newCounter_blind "threads" none).blind
  have hrest : ∀ i : TrackerId, Agree Rebatched
      (fun l => (l.notice (.serviceCreated l.services.size settings.threshold settings.slots settings.source)).addService
        settings.source settings.slots i settings.threshold)
      fun l => (l.notice (.serviceCreated l.services.size threshold settings.slots settings.source)).addService
        settings.source settings.slots i threshold := fun i =>
    (agree_serviceCreated settings.source settings.slots settings.threshold threshold).seq
      (agree_addService settings.source settings.slots i settings.threshold threshold)
  exact htracker.bind hrest

/-! ### Commits -/

theorem homeOf_unbatch (l : Ledger) : l.unbatch.homeOf t s = l.homeOf t s := rfl

/-- Whether the thread has a context to flush is seen. -/
theorem flushHome_blind : Built unbatch Blind fun l =>
    ((l.flushHome charge t s).1, (l.flushHome charge t s).2.map fun _ => (0 : Delta)) := by
  refine .split (·.homeOf t s) (homeOf_unbatch t s) fun home => ?_
  cases home with
  | none => exact ⟨_, .done none, fun l h => by simp only [flushHome, h]; rfl⟩
  | some c => exact ⟨_, (flush_blind t charge c).answer (some 0), fun l h => by simp only [flushHome, h]; rfl⟩

theorem flushThread_blind : Built unbatch Blind fun l =>
    ((l.flushThread t s).1, (l.flushThread t s).2.map fun _ => (0 : Delta)) := by
  refine (Built.guarded t (flushHome_blind t s) (.done none)).congr fun l => ?_
  unfold flushThread
  cases l.inHook t <;> rfl

theorem consume_blind (i : TrackerId) (b : Delta) : BuiltOnly unbatch Blind fun l => l.consume t i b :=
  (post_blind (e := .consumed i b) rfl).seq (propagate_blind t b charge i)

theorem accept_blind (c : ContextId) (d : Delta) : BuiltOnly unbatch Blind fun l => l.accept charge t c d :=
  (post_blind (e := .accepted c d) rfl).seq (absorb_blind t d charge c)

/-! ### The hook, bindings, and the end of a thread -/

theorem guardThread_blind : Built unbatch Blind fun l => l.guardThread t := by
  have hguard := (modifyThread_blind t fun th => { th with inHook := true, holdsGuard := true }).answer true
  exact (Built.read (u := unbatch) (P := Blind) (·.inHook t) (fun _ => rfl) fun inHook =>
    .ite inHook (.done false) hguard :)

theorem unguardThread_blind : Built unbatch Blind fun l => l.unguardThread t := by
  have hguard := (modifyThread_blind t fun th => { th with inHook := false, holdsGuard := false }).answer true
  exact (Built.read (u := unbatch) (P := Blind) (fun l => (l.thread t).holdsGuard) (fun _ => rfl) fun holds =>
    .ite holds hguard (.done false) :)

theorem modifySlot_blind (i : Nat) (f : Slot → Slot) : BuiltOnly unbatch Blind (·.modifySlot s i f) :=
  modifyService_blind s fun _ => rfl

theorem bindSlot_blind (i : Nat) : BuiltOnly unbatch Blind (·.bindSlot t s i) :=
  (modifySlot_blind s i fun _ => { bound := true }).seq
    ((modifyThread_blind t fun th => { th with worker := some ⟨s, i⟩, binding := some ⟨s, i⟩ }).seq
      ((post_blind (e := .bound t s i) rfl).seq (post_blind (e := .notice (.workerBound i)) rfl)))

theorem bindWorker_blind : Built unbatch Blind fun l => l.bindWorker t s := by
  refine .split (fun l => ((l.thread t).worker.isSome, (l.service s).slots))
    (fun l => by rw [slots_unbatch]; rfl) fun ⟨bound, slots⟩ => ?_
  cases bound with
  | true => exact ⟨_, .done (.error .threadAlreadyBound), fun l h => by simp only [bindWorker_eq, (Prod.mk.inj h).1, if_true]⟩
  | false =>
    cases hfree : (List.range slots.size).find? fun i => !(slots.get i).bound with
    | none =>
      refine ⟨_, .done (.error (.noFreeSlot slots.size)), fun l h => ?_⟩
      obtain ⟨hworker, rfl⟩ := Prod.mk.inj h
      simp [bindWorker_eq, hworker, Service.freeSlot?, hfree]
    | some i =>
      refine ⟨_, (bindSlot_blind t s i).answer (.ok i), fun l h => ?_⟩
      obtain ⟨hworker, rfl⟩ := Prod.mk.inj h
      simp [bindWorker_eq, hworker, Service.freeSlot?, hfree]

theorem unbindWorker_blind : Built unbatch Blind fun l => l.unbindWorker t := by
  refine .split (fun l => (l.thread t).binding) (fun _ => rfl) fun binding => ?_
  cases binding with
  | none => exact ⟨_, .done false, fun l h => by simp only [unbindWorker_eq, h]⟩
  | some w =>
    have hfree := (modifySlot_blind w.service w.slot fun _ => {}).seq
      ((modifyThread_blind t fun th => { th with worker := none, binding := none }).seq
        ((post_blind (e := .notice (.workerUnbound w.slot)) rfl).answer true))
    exact ⟨_, hfree, fun l h => by simp only [unbindWorker_eq, h]; rfl⟩

theorem exit_blind : BuiltOnly unbatch Blind fun l => l.exit t := by
  have hunwind : BuiltOnly unbatch Blind fun l => l.unwind t (l.depth t) :=
    (Built.read (u := unbatch) (P := Blind) (·.depth t) (fun _ => rfl) fun depth =>
      (unwind_parts t depth).mono cover_unbatch Part.blind :)
  exact hunwind.seq ((unbindWorker_blind t).quiet.seq
    ((unguardThread_blind t).quiet.seq ((destroys_parts t).mono cover_unbatch LastPart.blind)))

theorem chargeBare_blind (d : Delta) : Built unbatch Blind fun l => l.chargeBare t s d := by
  have hcharge : Built unbatch Blind fun l => l.chargeInHook t s d :=
    (chargeInHook_built t s d).mono cover_unbatch Inner.blind
  exact .guarded t hcharge hcharge

/-! ### Whatever is done -/

theorem tell_blind {a : Action} (ha : a.metered = true) (threshold : UInt64) :
    Agree Rebatched (·.tell t a) (·.tell t (a.withThreshold threshold)) := by
  by_cases hn : a.special = false ∧ a.reveals = false
  · have hh : a.handles = false := by
      cases a with
      | newAllocator | register | install | allocate | reallocate | deallocate | usable | notify | systemBlocks => cases ha
      | _ => rfl
    have hsame : a.withThreshold threshold = a := by
      cases a with
      | newService | newBare => cases hn.2
      | _ => rfl
    rw [hsame]
    exact (((perform_parts t hn.1 hh hn.2).mono cover_unbatch Part.blind).map Outcome.unbatch).blind
  · cases a with
    | exit => exact ((exit_blind t).answer Outcome.exited).blind
    | guard => exact ((guardThread_blind t).map Outcome.entered).blind
    | unguard => exact ((unguardThread_blind t).map Outcome.left).blind
    | bindWorker s => exact ((bindWorker_blind t s).blind.toldOr .bind .bound).map Outcome.unbatch
    | unbindWorker => exact ((unbindWorker_blind t).map Outcome.unbound).blind
    | forgetBinding =>
      have hforget := modifyThread_blind t fun th => { th with binding := none }
      exact (Built.read (u := unbatch) (P := Blind) (fun l => (l.thread t).binding.isSome) (fun _ => rfl) fun b =>
        hforget.answer (Outcome.forgotten b) :).blind
    | chargeBare s d => exact ((chargeBare_blind t s d).map Outcome.charged).blind
    | consume i b => exact ((consume_blind t i b).answer Outcome.done).blind
    | consumeContext c d => exact ((accept_blind t c d).answer Outcome.done).blind
    | newService settings =>
      intro l l' hr
      have hbuilt := ((agree_newService settings threshold).toldOr .build (.service · defaultThreshold settings.slots)).map
        Outcome.unbatch hr
      have hshown : ∀ (threshold : UInt64) (r : Ledger × Except BuildError ServiceId),
          (toldOr .build (.service · threshold settings.slots) r).2.unbatch =
            (toldOr .build (.service · defaultThreshold settings.slots) r).2.unbatch := by
        rintro threshold ⟨l, _ | _⟩ <;> rfl
      simp only [toldOr_fst] at hbuilt
      simp only [tell, perform, toldOr_fst, Action.withThreshold, hshown]
      exact hbuilt
    | newBare source slots i n =>
      exact ((agree_addService source slots i n threshold).toldOr .build .bare).map Outcome.unbatch
    | flushThread s => exact ((flushThread_blind t s).map Outcome.flushed).blind
    | flushBare s => exact ((flushHome_blind t s).map Outcome.flushed).blind
    | flushContext c => exact ((flush_blind t charge c).answer (Outcome.flushed (some 0))).blind
    | threadPending s =>
      have hpending := Built.read (u := unbatch) (P := Blind) (·.homeOf t s) (homeOf_unbatch t s) fun home =>
        .done (Outcome.pending (home.map fun _ => 0))
      refine Built.blind (hpending.congr fun l => ?_)
      simp only [tell, perform, homePending, Outcome.unbatch, Option.map_map]
      rfl
    | newContext k s i => exact ((newContext_blind s k i false).map fun c => Outcome.context c k defaultThreshold).blind
    | newEcho | bindEcho | describe | newAllocator | register | install | allocate | reallocate | deallocate | usable
    | notify | systemBlocks => cases ha
    | _ => exact absurd ⟨rfl, rfl⟩ hn

end Ledger

end HeapLedger
