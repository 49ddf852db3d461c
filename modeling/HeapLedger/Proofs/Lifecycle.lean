import HeapLedger.Proofs.Served

/-!
# The life of a thread's own context

A thread gets a context of its own once, from the service that is first to charge the thread or to ask for one, and
gives it up once, when the thread ends. In between it is its owner's: any other service is told that it is not, and
leaves it alone. Nothing that any thread does meanwhile changes that, nor any move in the middle of what is being done.
-/

namespace HeapLedger

open Ledger

namespace Ledger

/-! ## How a thread answers -/

section
variable {l : Ledger} {t : ThreadId} {s : ServiceId}

/-- The thread answers a charge if and only if no task is active on it. -/
theorem resident_destination : (l.destination t s).resident = true ↔ l.activeTask t s = none := by
  unfold destination
  cases l.activeTask t s with
  | some k =>
    refine ⟨fun hr => absurd hr ?_, nofun⟩
    dsimp only
    cases l.resolved t s k with
    | none => exact nofun
    | some c =>
      dsimp only
      split <;> exact nofun
  | none =>
    refine ⟨fun _ => rfl, fun _ => ?_⟩
    dsimp only
    split
    · rfl
    · split <;> rfl
    · split
      · split <;> rfl
      · rfl

theorem answers_destination (hk : l.activeTask t s = none) : (l.thread t).home.Answers s (l.destination t s) := by
  unfold destination
  rw [hk]
  cases (l.thread t).home with
  | closed => rfl
  | settled owner c => rfl
  | absent =>
    show _ = _ ∨ _ = _
    dsimp only
    split
    · split
      · exact .inl rfl
      · exact .inr rfl
    · exact .inl rfl

theorem Home.Answers.of_thread {home : Home} (h : home.Answers s .thread) : ∃ c, home = .settled s c := by
  cases home with
  | absent => rcases h with h | h <;> cases h
  | closed => cases h
  | settled owner c =>
    by_cases ho : owner = s
    · exact ⟨c, ho ▸ rfl⟩
    · exact absurd (h.trans (if_neg ho)) nofun

theorem destination_ne_thread (ho : ∀ c, (l.thread t).home ≠ .settled s c) : l.destination t s ≠ .thread := by
  intro he
  have hanswers := answers_destination (resident_destination.mp (congrArg Charge.resident he))
  rw [he] at hanswers
  obtain ⟨c, hh⟩ := Home.Answers.of_thread hanswers
  exact ho c hh

theorem destination_initialized (hk : l.activeTask t s = none) :
    l.destination t s ≠ .skipped .contextUninitialized := by
  intro he
  have hresident := resident_destination.mpr hk
  rw [he] at hresident
  cases hresident

theorem homeOf_of_foreign (h : ∀ c, (l.thread t).home ≠ .settled s c) : l.homeOf t s = none := by
  unfold homeOf
  split
  · rename_i owner c hh
    refine if_neg fun ho => h c ?_
    rw [hh, ho]
  · rfl

theorem flushThread_of_foreign (h : ∀ c, (l.thread t).home ≠ .settled s c) : l.flushThread t s = (l, none) := by
  have hinside : (l.setInHook t true).homeOf t s = none := by
    rw [← homeOf_of_foreign h, homeOf, homeOf, thread_setInHook]
  unfold flushThread
  split
  · rfl
  · unfold guarded flushHome
    dsimp only
    rw [hinside]
    exact congrArg (·, none) (setInHook_setInHook (Bool.eq_false_iff.mpr ‹_›))

end

/-! ## Services and threads -/

/-- What a service can do about a thread's own context, and what it is told. -/
structure Deals (l : Ledger) (t : ThreadId) (s : ServiceId) : Prop where
  -- asking for a context
  attached : (l.settle t s).2 = true ↔ (l.thread t).home = .absent
  given : (l.thread t).home = .absent → Gives l t s (l.settle t s).1
  refused : (l.thread t).home ≠ .absent → l.settle t s = (l, false)
  -- charging
  charged : ∀ d, (l.charge t s d).2 = .parked ∧ (l.thread t).home = .absent ∧ Gives l t s (l.charge t s d).1 ∨
    (l.charge t s d).2 ≠ .parked ∧ Calm l (l.charge t s d).1
  bare : ∀ d, (l.chargeBare t s d).2 = .parked ∧ Stores l t s d (l.chargeBare t s d).1 ∨
    (l.chargeBare t s d).2 ≠ .parked ∧ Calm l (l.chargeBare t s d).1
  -- being answered
  answered : l.activeTask t s = none → ∀ d, (l.thread t).home.Answers s (l.chargeBare t s d).2 ∧
    (l.inHook t = false → (l.thread t).home.Answers s (l.charge t s d).2)
  initialized : l.activeTask t s = none → ∀ d, (l.chargeBare t s d).2 ≠ .skipped .contextUninitialized ∧
    (l.charge t s d).2 ≠ .skipped .contextUninitialized
  -- being another one's, or nobody's
  foreign : (∀ c, (l.thread t).home ≠ .settled s c) → l.homePending t s = none ∧ l.flushThread t s = (l, none) ∧
    l.flushHome Ledger.charge t s = (l, none) ∧ ∀ d, (l.charge t s d).2 ≠ .thread ∧ (l.chargeBare t s d).2 ≠ .thread
  untouched : (∀ c, (l.thread t).home ≠ .settled s c) → (l.thread t).home ≠ .absent → l.activeTask t s = none →
    ∀ d, (l.charge t s d).1.contexts = l.contexts ∧ (l.chargeBare t s d).1.contexts = l.contexts

section
variable {l : Ledger} {t : ThreadId} {s : ServiceId}

theorem deals (h : Sound l) (ht : t < l.threads.size) : Deals l t s where
  attached := by
    refine ⟨fun hb => ?_, fun hh => (settle_of_absent hh).1⟩
    by_contra hh
    rw [settle_of_present hh] at hb
    cases hb
  given := gives_settle ht
  refused := settle_of_present
  charged d := charge_gives_or_calm ht
  bare d := chargeBare_stores_or_calm
  answered hk d := by
    refine ⟨?_, fun hn => ?_⟩
    · rw [chargeBare_snd h]
      exact answers_destination hk
    · rw [charge_snd h, decision, if_neg (Bool.eq_false_iff.mp hn)]
      exact answers_destination hk
  initialized hk d := by
    have hne := destination_initialized hk
    rw [chargeBare_snd h, charge_snd h, decision]
    refine ⟨hne, ?_⟩
    split
    · simp
    · exact hne
  foreign ho := by
    have hhome := homeOf_of_foreign ho
    have hflush : l.flushHome Ledger.charge t s = (l, none) := by rw [flushHome, hhome]
    have hthread := destination_ne_thread ho
    refine ⟨by rw [homePending, hhome]; rfl, flushThread_of_foreign ho, hflush, fun d => ?_⟩
    rw [charge_snd h, chargeBare_snd h, decision]
    refine ⟨?_, hthread⟩
    split
    · simp
    · exact hthread
  untouched ho hh hk d := ⟨contexts_charge hk hh ho, contexts_chargeBare hk hh ho⟩

end

end Ledger

/-! ## Moments of a run -/

/-- At every moment of every run, also in the middle of what is being done, the thread is as far with a context of its
own as the journal tells; from there on it gets a context at most once and gives it up at most once; and services can
do about the context, and are told of it, what its owner and nobody else may. If no one charges the thread without a
service around it, nothing is left held for the context between two actions. -/
theorem home_lifecycle {h : Holdings} {l₀ l : Ledger} (hr : Run h l₀) (hp : Passes l₀ l) {t : ThreadId}
    (ht : t < l.threads.size) :
    l.Story t (l.thread t).home ∧
    (∀ l', Passes l l' → Onward l l') ∧
    ((l.thread t).home ≠ .absent → (l.thread t).carry = none) ∧
    (∀ s c, (l.thread t).home = .settled s c → l.Own c ∧ (l.context c).closed = false ∧
      ∀ j s', (l.thread j).home = .settled s' c → j = t) ∧
    (∀ s < l.services.size, l.Deals t s) ∧
    (RunOf (Serviced t) h l₀ → l₀.Even t) := by
  have htold := hp.told hr.told
  refine ⟨htold.story t, fun l' => Passes.onward htold, (htold.tidy t).carry, fun s c hh => ?_,
    fun s _ => deals htold.sound ht, RunOf.even⟩
  obtain ⟨hown, hopen, -⟩ := (htold.sound.thread t).home s c hh
  exact ⟨hown, hopen, fun j s' hj => htold.sound.home_inj j t s' s c hj hh⟩

open Ledger in
def lodged : Ledger :=
  let l := (perform (newThread {}).1 0 (.newService { threshold := 10 })).1
  (l.perform 0 (.charge 0 7)).1

theorem run_lodged : RunOf (Serviced 0) {} lodged := by
  have hstart : RunOf (Serviced 0) {} (Ledger.newThread {}).1 := .start .nil
  have hservice := hstart.act (t := 0) (a := .newService { threshold := 10 }) (by decide) (by decide)
    (fun _ h => by cases h) fun _ _ _ => nofun
  exact hservice.act (t := 0) (a := .charge 0 7) (by decide) (by decide)
    (show 0 < Table.size _ by decide) fun _ _ _ => nofun

/-- A thread that was charged has its context, also when it is inside the hook, and has given it up once it has
ended. -/
theorem home_lifecycle_lodged :
    ((lodged.setInHook 0 true).Story 0 (.settled 0 0) ∧ (lodged.setInHook 0 true).Own 0 ∧
      (∀ l', Passes (lodged.setInHook 0 true) l' → Onward (lodged.setInHook 0 true) l') ∧
      (lodged.setInHook 0 true).Deals 0 0 ∧ lodged.Even 0) ∧
    ((lodged.exit 0).Story 0 .closed ∧ ((lodged.exit 0).thread 0).carry = none ∧
      (∀ l', Passes (lodged.exit 0) l' → Onward (lodged.exit 0) l') ∧ (lodged.exit 0).Deals 0 0) := by
  have hinside : Passes lodged (lodged.setInHook 0 true) := .single ⟨0, [], [], .tending (.charging (.hook true))⟩
  have hended : Passes lodged (lodged.exit 0) := run_lodged.run.passes_perform (t := 0) (a := .exit) (by decide) trivial
  have hsettled : ((lodged.setInHook 0 true).thread 0).home = .settled 0 0 := by rfl
  have hclosed : ((lodged.exit 0).thread 0).home = .closed := by rfl
  obtain ⟨hstory, honward, -, hown, hdeals, heven⟩ := home_lifecycle run_lodged.run hinside (t := 0) (by decide)
  obtain ⟨hstory', honward', hcarry', -, hdeals', -⟩ := home_lifecycle run_lodged.run hended (t := 0) (by decide)
  rw [hsettled] at hstory
  rw [hclosed] at hstory'
  exact ⟨⟨hstory, (hown 0 0 hsettled).1, honward, hdeals 0 (by decide), heven run_lodged⟩,
    hstory', hcarry' (by rw [hclosed]; nofun), honward', hdeals' 0 (by decide)⟩

end HeapLedger
