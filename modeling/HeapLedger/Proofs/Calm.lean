import HeapLedger.Proofs.Course

/-!
# What charges do to threads' contexts

A charge inside the hook either parks an amount or leaves everything calm: no thread gets or loses a context, and what
is held for a context to come stays as it is. After a charge that parks, the thread gets its context from the service.
-/

namespace HeapLedger

open Ledger

def Entry.parking? (t : ThreadId) : Entry → Option Delta
  | charged v => if v.thread = t ∧ v.charge = .parked then some v.delta else none
  | _ => none

/-- The amount that the thread's new context took in because it had been parked. -/
def Entry.carrying? (t : ThreadId) : Entry → Option Delta
  | carried j _ _ d => if j = t then some d else none
  | _ => none

namespace Ledger

def parkings (l : Ledger) (t : ThreadId) : List Delta := l.journal.filterMap (Entry.parking? t)

def carryings (l : Ledger) (t : ThreadId) : List Delta := l.journal.filterMap (Entry.carrying? t)

/-- No thread gets or loses a context of its own, and nothing more or less is held for one. -/
structure Calm (l l' : Ledger) : Prop where
  contexts_size : l'.contexts.size = l.contexts.size
  threads_size : l'.threads.size = l.threads.size
  nextThread : l'.nextThread = l.nextThread
  context : ∀ c, (l.context c).Lasts (l'.context c)
  home : ∀ t, (l'.thread t).home = (l.thread t).home
  carry : ∀ t, (l'.thread t).carry = (l.thread t).carry
  parkings : ∀ t, l'.parkings t = l.parkings t
  carryings : ∀ t, l'.carryings t = l.carryings t

/-- A thread gets a context of its own from a service, under a new key, and nothing is held for it any more. -/
structure Gives (l : Ledger) (t : ThreadId) (s : ServiceId) (l' : Ledger) : Prop where
  home : (l'.thread t).home = .settled s l.contexts.size
  carry : (l'.thread t).carry = none
  contexts_size : l'.contexts.size = l.contexts.size + 1
  nextThread : l'.nextThread = l.nextThread + 1
  identity : (l'.context l.contexts.size).identity = .thread ⟨l.nextThread⟩
  tracker : (l'.context l.contexts.size).tracker = (l.service s).threadTracker
  threshold : (l'.context l.contexts.size).cache.threshold = (l.service s).threshold
  initialized : (l'.context l.contexts.size).initialized = true

/-! ## Calm changes -/

theorem Calm.refl (l : Ledger) : Calm l l where
  contexts_size := rfl
  threads_size := rfl
  nextThread := rfl
  context _ := .refl _
  home _ := rfl
  carry _ := rfl
  parkings _ := rfl
  carryings _ := rfl

theorem Calm.trans {l l' l'' : Ledger} (h : Calm l l') (h' : Calm l' l'') : Calm l l'' where
  contexts_size := h'.contexts_size.trans h.contexts_size
  threads_size := h'.threads_size.trans h.threads_size
  nextThread := h'.nextThread.trans h.nextThread
  context c := (h.context c).trans (h'.context c)
  home t := (h'.home t).trans (h.home t)
  carry t := (h'.carry t).trans (h.carry t)
  parkings t := (h'.parkings t).trans (h.parkings t)
  carryings t := (h'.carryings t).trans (h.carryings t)

theorem Gives.calm {l l' l'' : Ledger} {t : ThreadId} {s : ServiceId} (h : Gives l t s l') (hc : Calm l' l'') :
    Gives l t s l'' where
  home := (hc.home t).trans h.home
  carry := (hc.carry t).trans h.carry
  contexts_size := hc.contexts_size.trans h.contexts_size
  nextThread := hc.nextThread.trans h.nextThread
  identity := (hc.context _).identity.trans h.identity
  tracker := (hc.context _).tracker.trans h.tracker
  threshold := (hc.context _).threshold.trans h.threshold
  initialized := (hc.context _).initialized h.initialized

section
variable (l : Ledger) {t : ThreadId}

theorem calm_of_eq {l' : Ledger} (hc : l'.contexts = l.contexts) (ht : l'.threads = l.threads)
    (hj : l'.journal = l.journal) (hn : l'.nextThread = l.nextThread) : Calm l l' where
  contexts_size := congrArg Table.size hc
  threads_size := congrArg Table.size ht
  nextThread := hn
  context c := by
    rw [context, context, hc]
    exact .refl _
  home t := by rw [thread, ht]; rfl
  carry t := by rw [thread, ht]; rfl
  parkings t := by rw [Ledger.parkings, hj]; rfl
  carryings t := by rw [Ledger.carryings, hj]; rfl

theorem calm_post {e : Entry} (hp : ∀ t, e.parking? t = none) (hc : ∀ t, e.carrying? t = none) :
    Calm l (l.post e) :=
  { Calm.refl l with
    parkings := fun t => List.filterMap_cons_none (hp t)
    carryings := fun t => List.filterMap_cons_none (hc t) }

theorem calm_modifyThread {f : Thread → Thread} (hh : ∀ th, (f th).home = th.home)
    (hc : ∀ th, (f th).carry = th.carry) :
    Calm l (l.modifyThread t f) :=
  { Calm.refl l with
    threads_size := threads_size_modifyThread l t f
    home := fun j => Table.get_modify_of_eq _ t j Thread.home hh
    carry := fun j => Table.get_modify_of_eq _ t j Thread.carry hc }

theorem calm_setInHook (b : Bool) : Calm l (l.setInHook t b) := calm_modifyThread l (fun _ => rfl) fun _ => rfl

theorem calm_modifyContext (c : ContextId) {f : Context → Context} (hf : (l.context c).Lasts (f (l.context c))) :
    Calm l (l.modifyContext c f) :=
  { Calm.refl l with
    contexts_size := contexts_size_modifyContext l c f
    context := fun j => by
      rw [context_modifyContext]
      split
      · rename_i hj
        exact hj.1 ▸ hf
      · exact .refl _ }

/-! ## Commits inside the hook -/

variable {l}

theorem calm_answers (t : ThreadId) (name : String) :
    ∀ {rs : List Request} {l : Ledger}, Calm l (rs.foldl (answer refuse t name) l)
  | [], l => .refl l
  | r :: _, l =>
    have hskip : Calm l (l.countSkip r.service) := calm_of_eq l rfl rfl rfl rfl
    (hskip.trans (calm_post _ (fun _ => rfl) fun _ => rfl)).trans (calm_answers t name)

theorem calm_deliver (i : TrackerId) (b : Delta) : Calm l (deliver refuse t b l i) := by
  unfold deliver
  cases (l.tracker i).kind with
  | counter label totals => exact calm_of_eq l rfl rfl rfl rfl
  | echo e =>
    have hhear : Calm l (l.event (.received e.name b (l.inHook t))) := calm_post l (fun _ => rfl) fun _ => rfl
    dsimp only
    split
    · exact hhear
    · refine (hhear.trans ?_).trans (calm_answers t e.name)
      exact calm_of_eq _ rfl rfl rfl rfl

theorem calm_delivers (b : Delta) : ∀ {is : List TrackerId} {l : Ledger}, Calm l (is.foldl (deliver refuse t b) l)
  | [], l => .refl l
  | i :: _, _ => (calm_deliver i b).trans (calm_delivers b)

theorem calm_absorb (c : ContextId) (d : Delta) : Calm l (l.absorb refuse t c d) := by
  have htake : Calm l (l.modifyContext c fun ctx => { ctx with cache := ((l.context c).cache.consume d).1 }) :=
    calm_modifyContext l c ⟨rfl, rfl, Cache.threshold_consume .., id, id⟩
  unfold absorb
  dsimp only
  split
  · exact htake
  · exact (htake.trans (calm_post _ (fun _ => rfl) fun _ => rfl)).trans (calm_delivers _)

/-! ## Charges inside the hook -/

section
variable {s : ServiceId} {d : Delta}

theorem calm_resolve (k : TaskKey) : Calm l (l.resolve t s k).1 := by
  obtain ⟨f, g, -, hg, heq⟩ := l.seek_eq t s k
  have hlookup : Calm l (l.modifyService s f) := calm_of_eq l rfl rfl rfl rfl
  have hseek : Calm l (l.seek t s k).1 :=
    heq ▸ hlookup.trans (calm_modifyThread _ (fun th => (congrArg Thread.home (hg th) :)) fun th => (congrArg Thread.carry (hg th) :))
  exact hseek.trans (calm_post _ (fun _ => rfl) fun _ => rfl)

theorem calm_conclude {c : Option ContextId} {charge : Charge} (hc : charge ≠ .parked) :
    Calm l (l.conclude t s d c charge).1 :=
  calm_post l (fun _ => if_neg fun hp => hc hp.2) fun _ => rfl

theorem calm_chargeContext {c : ContextId} {charge : Charge} (hc : charge ≠ .parked) :
    (l.chargeContext t s c d charge).2 ≠ .parked ∧ Calm l (l.chargeContext t s c d charge).1 := by
  unfold chargeContext
  split
  · exact ⟨hc, (calm_conclude hc).trans (calm_absorb c d)⟩
  · exact ⟨nofun, calm_conclude nofun⟩

theorem calm_park (hp : (l.park t s d).2 ≠ .parked) : Calm l (l.park t s d).1 := by
  unfold park at hp ⊢
  cases hc : (l.thread t).carry with
  | none =>
    rw [hc] at hp
    exact absurd rfl hp
  | some c =>
    rw [hc] at hp
    dsimp only at hp ⊢
    split
    · rename_i ho
      rw [if_pos ho] at hp
      exact absurd rfl hp
    · exact calm_conclude nofun

/-- A charge inside the hook parks, if the thread has no context of its own, or leaves everything calm. -/
theorem chargeInHook_parks_or_calm :
    (l.chargeInHook t s d).2 = .parked ∧ (l.thread t).home = .absent ∧ l.chargeInHook t s d = l.park t s d ∨
      (l.chargeInHook t s d).2 ≠ .parked ∧ Calm l (l.chargeInHook t s d).1 := by
  unfold chargeInHook
  cases l.activeTask t s with
  | some k =>
    right
    unfold chargeTask
    dsimp only
    split
    · exact ⟨nofun, (calm_resolve k).trans (calm_conclude nofun)⟩
    · rename_i c _
      have htask : Charge.task k ≠ .parked := nofun
      obtain ⟨hne, hcalm⟩ := calm_chargeContext (l := (l.resolve t s k).1) (t := t) (s := s) (d := d) (c := c) htask
      exact ⟨hne, (calm_resolve k).trans hcalm⟩
  | none =>
    dsimp only [chargeThread]
    cases hh : (l.thread t).home with
    | closed => exact .inr ⟨nofun, calm_conclude nofun⟩
    | settled owner c =>
      right
      dsimp only
      split
      · exact calm_chargeContext nofun
      · exact ⟨nofun, calm_conclude nofun⟩
    | absent =>
      dsimp only
      by_cases hp : (l.park t s d).2 = .parked
      · exact .inl ⟨hp, rfl, rfl⟩
      · exact .inr ⟨hp, calm_park hp⟩

end

end

/-! ## A new context -/

section
variable {l : Ledger} {t : ThreadId} {s : ServiceId}

theorem gives_newHome (ht : t < l.threads.size) : Gives l t s (l.newHome t s) := by
  have hthread : (l.newHome t s).thread t = { l.thread t with
      home := .settled s l.contexts.size, carry := none, destructors := .home :: (l.thread t).destructors } :=
    Table.get_modify_self _ ht
  have hcontext : (l.newHome t s).context l.contexts.size =
      { identity := .thread ⟨l.nextThread⟩, tracker := (l.service s).threadTracker
        cache := { threshold := (l.service s).threshold }, initialized := true } :=
    (Table.get_add ..).trans (if_pos rfl)
  exact {
    home := congrArg Thread.home hthread
    carry := congrArg Thread.carry hthread
    contexts_size := Table.size_add ..
    nextThread := rfl
    identity := congrArg Context.identity hcontext
    tracker := congrArg Context.tracker hcontext
    threshold := congrArg (·.cache.threshold) hcontext
    initialized := congrArg Context.initialized hcontext }

theorem settle_of_present (h : (l.thread t).home ≠ .absent) : l.settle t s = (l, false) := by
  unfold settle
  split
  · exact absurd ‹_› h
  · rfl

/-- A new context takes in what was held for it, unless that is nothing or the thread is inside the hook. -/
theorem settle_of_absent (h : (l.thread t).home = .absent) :
    (l.settle t s).2 = true ∧
      ((l.thread t).carriedFor s = 0 ∨ (l.newHome t s).inHook t = true → (l.settle t s).1 = l.newHome t s) ∧
      ((l.thread t).carriedFor s ≠ 0 → (l.newHome t s).inHook t = false →
        Calm ((l.newHome t s).post (.carried t s l.contexts.size ((l.thread t).carriedFor s))) (l.settle t s).1) := by
  unfold settle
  rw [h]
  dsimp only
  split
  · rename_i hc
    refine ⟨rfl, fun _ => rfl, fun hz hn => ?_⟩
    rcases hc with hc | hc
    · exact absurd hc hz
    · exact absurd (hn.symm.trans hc) nofun
  · rename_i hc
    refine ⟨rfl, fun hd => absurd hd hc, fun _ _ => ?_⟩
    exact ((calm_setInHook _ true).trans (calm_absorb _ _)).trans (calm_setInHook _ false)

theorem gives_settle (ht : t < l.threads.size) (h : (l.thread t).home = .absent) : Gives l t s (l.settle t s).1 := by
  obtain ⟨-, hnothing, hcarried⟩ := settle_of_absent (s := s) h
  have hnew := gives_newHome (s := s) ht
  by_cases hc : (l.thread t).carriedFor s = 0 ∨ (l.newHome t s).inHook t = true
  · rw [hnothing hc]
    exact hnew
  · obtain ⟨hz, hn⟩ := not_or.mp hc
    have hposted : Gives l t s ((l.newHome t s).post (.carried t s l.contexts.size ((l.thread t).carriedFor s))) :=
      { hnew with }
    exact hposted.calm (hcarried hz (Bool.eq_false_iff.mpr hn))

end

/-! ## Whole charges -/

/-- A thread without a context holds one amount more for a service, and the journal tells of nothing else. -/
structure Stores (l : Ledger) (t : ThreadId) (s : ServiceId) (d : Delta) (l' : Ledger) : Prop
    extends Parks l t s d l' where
  home : (l.thread t).home = .absent
  journal : ∃ v, l'.journal = .charged v :: l.journal ∧ v.thread = t ∧ v.charge = .parked ∧ v.delta = d

section
variable {l l' : Ledger} {t : ThreadId} {s : ServiceId} {d : Delta}

theorem stores_park (hh : (l.thread t).home = .absent) (hp : (l.park t s d).2 = .parked) :
    Stores l t s d (l.park t s d).1 := by
  obtain ⟨-, hjournal⟩ := journal_park (l := l) (t := t) (s := s) d
  refine ⟨parks_park fun c hc => ?_, hh, l.verdict t s d none (l.park t s d).2, hjournal, rfl, hp, rfl⟩
  unfold park at hp
  rw [hc] at hp
  dsimp only at hp
  by_contra ho
  rw [if_neg ho] at hp
  cases hp

theorem Stores.unhook (hn : l.inHook t = false) (h : Stores (l.setInHook t true) t s d l') :
    Stores l t s d (l'.setInHook t false) where
  toParks := h.toParks.unhook hn
  home := by
    have hhome : ((l.setInHook t true).thread t).home = (l.thread t).home := by rw [thread_setInHook]
    exact hhome.symm.trans h.home
  journal := h.journal

theorem Stores.contexts (h : Stores l t s d l') : l'.contexts = l.contexts := (congrArg Ledger.contexts h.rest :)

theorem Stores.nextThread (h : Stores l t s d l') : l'.nextThread = l.nextThread :=
  (congrArg Ledger.nextThread h.rest :)

theorem Stores.threads_size (h : Stores l t s d l') : l'.threads.size = l.threads.size := by
  have hsize := congrArg (·.threads.size) h.rest
  exact hsize.trans (threads_size_modifyThread ..)

theorem Stores.home_eq (h : Stores l t s d l') (j : ThreadId) : (l'.thread j).home = (l.thread j).home := by
  have hthread := congrArg (fun l₁ : Ledger => (l₁.thread j).home) h.rest
  exact hthread.trans (Table.get_modify_of_eq _ t j Thread.home fun _ => rfl)

theorem Stores.parkings (h : Stores l t s d l') : l'.parkings t = d :: l.parkings t := by
  obtain ⟨v, hjournal, ht, hc, rfl⟩ := h.journal
  rw [Ledger.parkings, hjournal]
  exact List.filterMap_cons_some (if_pos ⟨ht, hc⟩)

theorem Stores.carryings (h : Stores l t s d l') (j : ThreadId) : l'.carryings j = l.carryings j := by
  obtain ⟨v, hjournal, -⟩ := h.journal
  rw [Ledger.carryings, hjournal]
  exact List.filterMap_cons_none rfl

/-- The thread gets the same context from what is stored as it gets without. -/
theorem Stores.gives {l'' : Ledger} (h : Stores l t s d l') (hg : Gives l' t s l'') : Gives l t s l'' := by
  have hservice : l'.service s = l.service s := (congrArg (fun l₁ : Ledger => l₁.service s) h.rest :)
  obtain ⟨hhome, hcarry, hsize, hnext, hidentity, htracker, hthreshold, hinit⟩ := hg
  rw [h.contexts] at hhome hsize hidentity htracker hthreshold hinit
  rw [h.nextThread] at hnext hidentity
  rw [hservice] at htracker hthreshold
  exact ⟨hhome, hcarry, hsize, hnext, hidentity, htracker, hthreshold, hinit⟩

theorem chargeInHook_stores_or_calm : (l.chargeInHook t s d).2 = .parked ∧ Stores l t s d (l.chargeInHook t s d).1 ∨
    (l.chargeInHook t s d).2 ≠ .parked ∧ Calm l (l.chargeInHook t s d).1 := by
  rcases chargeInHook_parks_or_calm (l := l) (t := t) (s := s) (d := d) with ⟨hp, hh, he⟩ | hcalm
  · rw [he] at hp ⊢
    exact .inl ⟨hp, stores_park hh hp⟩
  · exact .inr hcalm

theorem guarded_stores_or_calm (hn : l.inHook t = false) :
    (l.guarded t (·.chargeInHook t s d)).2 = .parked ∧ Stores l t s d (l.guarded t (·.chargeInHook t s d)).1 ∨
      (l.guarded t (·.chargeInHook t s d)).2 ≠ .parked ∧ Calm l (l.guarded t (·.chargeInHook t s d)).1 := by
  rcases chargeInHook_stores_or_calm (l := l.setInHook t true) (t := t) (s := s) (d := d) with ⟨hp, hs⟩ | ⟨hp, hc⟩
  · exact .inl ⟨hp, hs.unhook hn⟩
  · exact .inr ⟨hp, ((calm_setInHook l true).trans hc).trans (calm_setInHook _ false)⟩

theorem chargeBare_stores_or_calm : (l.chargeBare t s d).2 = .parked ∧ Stores l t s d (l.chargeBare t s d).1 ∨
    (l.chargeBare t s d).2 ≠ .parked ∧ Calm l (l.chargeBare t s d).1 := by
  unfold chargeBare
  split
  · exact chargeInHook_stores_or_calm
  · exact guarded_stores_or_calm (Bool.eq_false_iff.mpr ‹_›)

/-- A charge that parks is followed at once by a new context for the thread. Any other one leaves everything calm. -/
theorem charge_stores_or_calm (ht : t < l.threads.size) :
    (∃ l₀, Stores l t s d l₀ ∧ l₀.inHook t = false ∧ l.charge t s d = ((l₀.settle t s).1, .parked)) ∨
      (l.charge t s d).2 ≠ .parked ∧ Calm l (l.charge t s d).1 := by
  unfold charge
  split
  · exact .inr ⟨nofun, calm_of_eq l rfl rfl rfl rfl⟩
  · have hn : l.inHook t = false := Bool.eq_false_iff.mpr ‹_›
    dsimp only
    rcases guarded_stores_or_calm (s := s) (d := d) hn with ⟨hp, hstores⟩ | ⟨hp, hcalm⟩
    · left
      refine ⟨_, hstores, ?_, by rw [hp]⟩
      exact (congrArg Thread.inHook (hstores.toParks.thread ht)).trans hn
    · right
      split
      · exact absurd ‹_› hp
      · exact ⟨nofun, hcalm.trans (calm_of_eq _ rfl rfl rfl rfl)⟩
      · exact ⟨hp, hcalm⟩

theorem charge_gives_or_calm (ht : t < l.threads.size) :
    ((l.charge t s d).2 = .parked ∧ (l.thread t).home = .absent ∧ Gives l t s (l.charge t s d).1) ∨
      (l.charge t s d).2 ≠ .parked ∧ Calm l (l.charge t s d).1 := by
  rcases charge_stores_or_calm (s := s) (d := d) ht with ⟨l₀, hstores, -, he⟩ | hcalm
  · left
    rw [he]
    refine ⟨rfl, hstores.home, hstores.gives (gives_settle ?_ ?_)⟩
    · exact hstores.threads_size ▸ ht
    · exact (hstores.home_eq t).trans hstores.home
  · exact .inr hcalm

/-! ## Charges that the thread's own context keeps out -/

section
variable (hk : l.activeTask t s = none) (hh : (l.thread t).home ≠ .absent)
  (ho : ∀ c, (l.thread t).home ≠ .settled s c)

include hk hh ho

theorem contexts_chargeInHook : (l.chargeInHook t s d).1.contexts = l.contexts ∧
    ∃ reason, (l.chargeInHook t s d).2 = .skipped reason := by
  unfold chargeInHook
  rw [hk]
  dsimp only [chargeThread]
  cases hc : (l.thread t).home with
  | absent => exact absurd hc hh
  | closed => exact ⟨rfl, _, rfl⟩
  | settled owner c =>
    have hne : owner ≠ s := fun he => ho c (he ▸ hc)
    dsimp only
    rw [if_neg hne]
    exact ⟨rfl, _, rfl⟩

theorem contexts_guarded : (l.guarded t (·.chargeInHook t s d)).1.contexts = l.contexts ∧
    ∃ reason, (l.guarded t (·.chargeInHook t s d)).2 = .skipped reason := by
  have hactive : (l.setInHook t true).activeTask t s = none := (activeTask_setInHook true).trans hk
  have hhome : ((l.setInHook t true).thread t).home = (l.thread t).home := by rw [thread_setInHook]
  exact contexts_chargeInHook (l := l.setInHook t true) hactive (hhome ▸ hh) fun c => hhome ▸ ho c

theorem contexts_charge : (l.charge t s d).1.contexts = l.contexts := by
  unfold charge
  split
  · rfl
  · obtain ⟨hcontexts, reason, hskip⟩ := contexts_guarded (d := d) hk hh ho
    dsimp only
    rw [hskip]
    exact hcontexts

theorem contexts_chargeBare : (l.chargeBare t s d).1.contexts = l.contexts := by
  unfold chargeBare
  split
  · exact (contexts_chargeInHook hk hh ho).1
  · exact (contexts_guarded hk hh ho).1

end

end

end Ledger

end HeapLedger
