import HeapLedger.Proofs.Exclusive
import Mathlib.Logic.Relation

/-!
# Looking for a slot among others

Threads act as in a run, but bind and unbind step by step if they like. What a thread is told that looks for a slot is
true of each slot at the moment it was tried. It is true of all of them at the last of these moments, but for slots that
others have given back after the thread had passed them.
-/

namespace HeapLedger

open Ledger

def Action.services : Action → List ServiceId
  | atExit r => [r.service]
  | bindEcho _ charges _ => charges.map (·.service)
  | charge s _ | attach s | flushThread s | threadPending s | bindWorker s | chargeBare s _ | flushBare s
  | systemBlocks s _ _ | openAccount s _ | newContext _ s _ | register _ s | notify _ s _ _ _
  | describe (.service s) | describe (.stats s) | describe (.adapter s) => [s]
  | newFuture _ polls onDrop s _ => s :: (polls.flatMap (·.charges) ++ onDrop).map (·.service)
  | _ => []

namespace Crew

/-- What happens next. A thread that is neither taking a slot nor giving one back does an action at once, or begins to
do so step by step. A service is dropped while nobody holds a binding of it, takes a slot of it or gives one back. No
action names it after that, but charges that were asked for before may still be made through it. -/
inductive Step : Crew → Crew → Prop
  | start (c : Crew) : Step c { c with ledger := c.ledger.newThread.1 }
  | act {c t a} (ht : t < c.ledger.threads.size) (hi : c.stage t = none) (he : t ∉ c.holdings.ended)
      (ha : c.ledger.Admits c.holdings a) (hs : ∀ s ∈ a.services, s ∉ c.gone) :
      Step c { c with
        holdings := c.holdings.after t a (c.ledger.perform t a).2
        ledger := (c.ledger.perform t a).1 }
  | ask {c t s} (ht : t < c.ledger.threads.size) (hi : c.stage t = none) (he : t ∉ c.holdings.ended)
      (hs : s < c.ledger.services.size) (hg : s ∉ c.gone) :
      Step c (c.put t (c.ledger, some (c.ledger.firstStage t s)))
  | give {c t w} (hi : c.stage t = none) (hw : (c.ledger.thread t).binding = some w) :
      Step c (c.put t (c.ledger, some (.leaving w)))
  | stride {c t g} (hg : c.stage t = some g) : Step c (c.put t (c.ledger.stride t g))
  | drop {c s} (hb : ∀ t w, (c.ledger.thread t).binding = some w → w.service ≠ s)
      (hg : ∀ t g, c.stage t = some g → g.service? ≠ some s) :
      Step c { c with ledger := c.ledger.dropService s, gone := s :: c.gone }

abbrev Reaches : Crew → Crew → Prop := Relation.ReflTransGen Step

def Reached (c : Crew) : Prop := Reaches {} c

section
variable {c c' c'' : Crew} {t : ThreadId} {s : ServiceId}

theorem Exclusive.withHoldings (h : c.Exclusive) (holdings : Holdings) : Exclusive { c with holdings } where
  bound := h.bound
  alone := h.alone
  single := h.single
  held := h.held
  free := h.free
  blank := h.blank
  keyless := h.keyless
  paired := h.paired
  poised t g hg :=
    have hpoised := h.poised t g hg
    ⟨hpoised.lt, hpoised.served, hpoised.fits.congr rfl rfl⟩

theorem Step.exclusive (h : Step c c') (he : c.Exclusive) : c'.Exclusive := by
  cases h with
  | start => exact he.newThread
  | act ht hi _ _ hs =>
    exact (he.perform hi ht fun s ha => hs s (by rw [ha]; exact List.mem_singleton_self s)).withHoldings _
  | ask ht hi _ _ hg => exact he.ask hi ht hg
  | give hi hw => exact he.give hi hw
  | stride hg => exact he.stride hg
  | drop hb hg => exact he.drop hb hg

theorem Reached.exclusive (hr : c.Reached) : c.Exclusive := by
  induction hr with
  | refl => exact Crew.exclusive_empty
  | tail _ hstep ih => exact hstep.exclusive ih

/-! ## What a thread has seen -/

/-- At some moment in between a thread was at a stage, and something was so. -/
def Saw (c c' : Crew) (t : ThreadId) (g : Stage) (P : Crew → Prop) : Prop :=
  ∃ c₁ : Crew, c.Reaches c₁ ∧ c₁.Reaches c' ∧ c₁.stage t = some g ∧ P c₁

/-- The flag of a slot was reset in between. -/
def Reopened (c c' : Crew) (s : ServiceId) (i : Nat) : Prop :=
  ∃ c₁ c₂ : Crew, c.Reaches c₁ ∧ c₁.Step c₂ ∧ c₂.Reaches c' ∧
    (c₁.ledger.slot s i).bound = true ∧ (c₂.ledger.slot s i).bound = false

/-- A thread has tried the first slots of a service. Each of them was bound when it did, and is bound still unless it
was given back since. -/
def Tried (c c' : Crew) (t : ThreadId) (s : ServiceId) (n : Nat) : Prop :=
  ∀ i < n, c.Saw c' t (.trying s i) fun c₁ =>
    (c₁.ledger.slot s i).bound = true ∧ ((c'.ledger.slot s i).bound = true ∨ c₁.Reopened c' s i)

def Took (c c' : Crew) (t : ThreadId) (s : ServiceId) (i : Nat) : Prop :=
  c.Saw c' t (.trying s i) fun c₁ =>
    i < (c₁.ledger.service s).slots.size ∧ (c₁.ledger.slot s i).bound = false ∧ c.Tried c₁ t s i

def Missed (c c' : Crew) (t : ThreadId) (s : ServiceId) (n : Nat) : Prop :=
  ∃ i, c.Saw c' t (.trying s i) fun c₁ => (c₁.ledger.service s).slots.size = n ∧ c.Tried c₁ t s n

/-- What a thread has seen that is at a stage now. -/
def Since (c c' : Crew) (t : ThreadId) : Stage → Prop
  | .trying s i => c.Tried c' t s i
  | .claimed w | .keyless w | .blank w => c.Took c' t w.service w.slot
  | .told s (.ok i) => c.Took c' t s i
  | .told s (.error (.noFreeSlot n)) => c.Missed c' t s n
  | _ => True

theorem Saw.step {g : Stage} {P : Crew → Prop} (h : c.Saw c' t g P) (hs : Step c' c'') : c.Saw c'' t g P := by
  obtain ⟨c₁, hbefore, hafter, hg, hp⟩ := h
  exact ⟨c₁, hbefore, hafter.tail hs, hg, hp⟩

/-- A slot that was bound is bound after one more step, or the step or an earlier one has given it back. -/
theorem bound_or_reopened {i : Nat} (hr : c.Reaches c') (hs : Step c' c'')
    (h : (c'.ledger.slot s i).bound = true ∨ c.Reopened c' s i) :
    (c''.ledger.slot s i).bound = true ∨ c.Reopened c'' s i := by
  rcases h with hb | ⟨c₁, c₂, hbefore, hstep, hafter, hb, hf⟩
  · cases hb' : (c''.ledger.slot s i).bound with
    | true => exact .inl rfl
    | false => exact .inr ⟨c', c'', hr, hs, .refl, hb, hb'⟩
  · exact .inr ⟨c₁, c₂, hbefore, hstep, hafter.tail hs, hb, hf⟩

theorem Tried.step {n : Nat} (h : c.Tried c' t s n) (hs : Step c' c'') : c.Tried c'' t s n := by
  intro i hi
  obtain ⟨c₁, hbefore, hafter, hg, hb, hnow⟩ := h i hi
  exact ⟨c₁, hbefore, hafter.tail hs, hg, hb, bound_or_reopened hafter hs hnow⟩

theorem Since.step {g : Stage} (h : c.Since c' t g) (hs : Step c' c'') : c.Since c'' t g := by
  cases g with
  | trying => exact Tried.step h hs
  | claimed | keyless | blank => exact Saw.step h hs
  | told s r =>
    cases r with
    | ok i => exact Saw.step h hs
    | error e =>
      cases e with
      | noFreeSlot n => exact h.imp fun _ hsaw => hsaw.step hs
      | threadAlreadyBound => trivial
  | leaving | leavingKeyless | leavingBlank | unseated => trivial

/-- What a thread has seen when it has tried one more slot. -/
theorem Since.tried {i : Nat} {g : Stage} (h : c.Tried c' t s i) (hr : c.Reaches c')
    (hg : c'.stage t = some (.trying s i)) (hstep : Step c' (c'.put t (c'.ledger.stride t (.trying s i))))
    (hnext : (c'.ledger.stride t (.trying s i)).2 = some g) :
    c.Since (c'.put t (c'.ledger.stride t (.trying s i))) t g := by
  have hnow : ∀ {P : Crew → Prop}, P c' → c.Saw (c'.put t (c'.ledger.stride t (.trying s i))) t (.trying s i) P :=
    fun hp => ⟨c', hr, .single hstep, hg, hp⟩
  by_cases hi : i < (c'.ledger.service s).slots.size
  · cases hb : (c'.ledger.slot s i).bound with
    | true =>
      rw [stride_of_taken hi hb] at hnext
      obtain rfl := Option.some.inj hnext
      intro n hn
      rcases Nat.lt_or_eq_of_le (Nat.le_of_lt_succ hn) with hn | rfl
      · exact (h.step hstep) n hn
      · exact hnow ⟨hb, bound_or_reopened .refl hstep (.inl hb)⟩
    | false =>
      rw [stride_of_free hi hb] at hnext
      obtain rfl := Option.some.inj hnext
      exact hnow ⟨hi, hb, h⟩
  · rw [stride_of_end hi] at hnext
    obtain rfl := Option.some.inj hnext
    exact ⟨i, hnow ⟨rfl, fun n hn => h n (Nat.lt_of_lt_of_le hn (Nat.le_of_not_lt hi))⟩⟩

theorem Reaches.since (hr : c.Reaches c') (hi : c.stage t = none) : ∀ g, c'.stage t = some g → c.Since c' t g := by
  induction hr with
  | refl =>
    intro g hg
    cases hi.symm.trans hg
  | @tail c₁ c₂ hr hstep ih =>
    intro g hg
    have hsame : c₂.stage t = c₁.stage t → c.Since c₂ t g := fun he => (ih g (he.symm.trans hg)).step hstep
    have hput : ∀ {j x}, c₂ = c₁.put j x → (j = t → c.Since c₂ t g) → c.Since c₂ t g := by
      rintro j x rfl hself
      by_cases hj : j = t
      · exact hself hj
      · exact hsame (stage_put_ne fun he => hj he.symm)
    cases hstep with
    | start | act | drop => exact hsame rfl
    | @ask j s =>
      refine hput rfl ?_
      rintro rfl
      obtain rfl := Option.some.inj (stage_put.symm.trans hg)
      unfold firstStage
      split
      · trivial
      · intro n hn
        cases hn
    | @give j w =>
      refine hput rfl ?_
      rintro rfl
      obtain rfl := Option.some.inj (stage_put.symm.trans hg)
      trivial
    | @stride j g₁ hg₁ =>
      refine hput rfl ?_
      rintro rfl
      have hstep : Step c₁ (c₁.put j (c₁.ledger.stride j g₁)) := .stride hg₁
      have hbefore := ih g₁ hg₁
      have hnext : (c₁.ledger.stride j g₁).2 = some g := stage_put.symm.trans hg
      cases g₁ with
      | trying s i => exact Since.tried hbefore hr hg₁ hstep hnext
      | claimed w | keyless w | blank w =>
        obtain rfl := Option.some.inj hnext
        exact Saw.step hbefore hstep
      | leaving w | leavingKeyless w | leavingBlank w =>
        obtain rfl := Option.some.inj hnext
        trivial
      | told | unseated => cases hnext

/-- What a thread is told that was idle at some moment since, however others come in between. The slot that it gets was
the lowest free one when it was taken, and every slot was bound when there was none, but for those that were given back
after they were tried. -/
structure Tells (c c' : Crew) (t : ThreadId) : Prop where
  already : ∀ s, c'.stage t = some (.told s (.error .threadAlreadyBound)) → ∃ w, c'.Refers t w
  full : ∀ s n, c'.stage t = some (.told s (.error (.noFreeSlot n))) →
    (∀ w, ¬ c'.Refers t w) ∧ c.Missed c' t s n
  lowest : ∀ s i, c'.stage t = some (.told s (.ok i)) →
    c'.Refers t ⟨s, i⟩ ∧ c'.ledger.slot s i = { bound := true } ∧ c.Took c' t s i

theorem tells (hc : c.Reached) (hi : c.stage t = none) (hr : c.Reaches c') : c.Tells c' t where
  already s hg := by
    have hexclusive := Reached.exclusive (hc.trans hr)
    have hfits : (c'.ledger.thread t).worker.isSome := (hexclusive.poised t _ hg).fits
    obtain ⟨w, hw⟩ := Option.isSome_iff_exists.mp hfits
    exact ⟨w, .inl hw⟩
  full s n hg := by
    have hexclusive := Reached.exclusive (hc.trans hr)
    have hfits : (c'.ledger.thread t).worker = none := (hexclusive.poised t _ hg).fits
    refine ⟨fun w hw => ?_, hr.since hi _ hg⟩
    rcases hw with hw | ⟨g, hg', hw⟩
    · cases hfits.symm.trans hw
    · obtain rfl := Option.some.inj (hg.symm.trans hg')
      cases hw
  lowest s i hg := by
    have hexclusive := Reached.exclusive (hc.trans hr)
    have hheld : (c'.ledger.thread t).binding = some ⟨s, i⟩ := (hexclusive.poised t _ hg).fits
    obtain ⟨hworker, hs⟩ := hexclusive.held t _ hheld
    have hblank := hexclusive.blank t _ ⟨s, i⟩ hg rfl
    exact ⟨.inl hworker, hblank.eq_of_bound (hexclusive.bound_of_refers (.inl hworker) hs), hr.since hi _ hg⟩

/-- Services keep their slots until they are dropped. -/
theorem Step.slots_size (h : Step c c') (he : c.Exclusive) (hs : s < c.ledger.services.size) (hg : s ∉ c'.gone) :
    (c'.ledger.service s).slots.size = (c.ledger.service s).slots.size := by
  cases h with
  | start | ask | give => rfl
  | @act t a _ hi => exact slots_size_perform (he.anchored t) hs a
  | @stride t g =>
    cases g with
    | trying s' i =>
      show ((c.ledger.stride t (.trying s' i)).1.service s).slots.size = _
      by_cases hi : i < (c.ledger.service s').slots.size
      · cases hb : (c.ledger.slot s' i).bound with
        | true => rw [stride_of_taken hi hb]
        | false =>
          rw [stride_of_free hi hb]
          exact slots_size_modifySlot ..
      · rw [stride_of_end hi]
    | claimed | keyless | leaving | leavingKeyless | unseated => exact slots_size_modifySlot ..
    | blank | told | leavingBlank => rfl
  | @drop j =>
    show ((c.ledger.modifyService j _).service s).slots.size = _
    rw [service_modifyService, if_neg fun he => List.ne_of_not_mem_cons hg he.1.symm]

end

end Crew

/-! ## Runs of actions -/

theorem Run.reached {h : Holdings} {l : Ledger} (hr : Run h l) : Crew.Reached { holdings := h, ledger := l } := by
  induction hr with
  | nil => exact .refl
  | start _ ih => exact ih.tail (.start _)
  | act _ ht he ha ih => exact ih.tail (.act ht rfl he ha fun _ _ => List.not_mem_nil)

/-- In every run a slot is bound if and only if one thread refers to it, and remembers nothing if none does. -/
theorem Run.exclusive {h : Holdings} {l : Ledger} (hr : Run h l) : Exclusive l := hr.reached.exclusive.withHoldings {}

end HeapLedger
