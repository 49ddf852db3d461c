import HeapLedger.Proofs.Halting
import HeapLedger.Proofs.Reach

/-!
# How deep charges nest

Trackers may make charges whenever they receive something, and as many as they like. A thread is in the middle of one
charge at most all the same: a tracker that is called inside the hook has all of its charges refused, and one that is
called outside of it is not called by a charge. So whatever a thread does comes to its end.
-/

namespace HeapLedger

open Ledger

variable {habit : Habit} {t : ThreadId} {l : Ledger} {a : Charge}

/-! ## Between actions -/

/-- A thread that can act: it is inside the hook only if it keeps itself there. -/
structure Poised (t : ThreadId) (l : Ledger) : Prop extends Fit t l where
  hook : l.inHook t = (l.thread t).holdsGuard

theorem perform_keeps_hook (action : Action) {j : ThreadId} (h : l.inHook j = (l.thread j).holdsGuard) :
    (l.perform t action).1.inHook j = ((l.perform t action).1.thread j).holdsGuard := by
  have hkeep : ∀ {l' : Ledger}, l'.flags j = l.flags j → l'.inHook j = (l'.thread j).holdsGuard := by
    intro l' hf
    exact (congrArg Prod.fst hf).trans (h.trans (congrArg Prod.snd hf).symm)
  have hrelease : ∀ {l' : Ledger},
      l'.flags j = (if j = t ∧ (l.thread t).holdsGuard then (false, false) else l.flags j) →
      l'.inHook j = (l'.thread j).holdsGuard := by
    intro l' hf
    split at hf
    · exact (congrArg Prod.fst hf).trans (congrArg Prod.snd hf).symm
    · exact hkeep hf
  by_cases he : action = .exit
  · subst he
    exact hrelease (flags_exit t l j)
  by_cases hu : action = .unguard
  · subst hu
    exact hrelease (flags_unguardThread t l j)
  by_cases hg : action = .guard
  · subst hg
    show (l.guardThread t).1.inHook j = ((l.guardThread t).1.thread j).holdsGuard
    unfold guardThread
    split
    · exact h
    · show ((l.modifyThread t _).thread j).inHook = ((l.modifyThread t _).thread j).holdsGuard
      rw [thread_modifyThread]
      split
      · rfl
      · exact h
  exact hkeep (perform_keepsHooks t he hg hu l j)

/-- Between actions, a thread is inside the hook only if it keeps itself there. -/
theorem Run.hook {h : Holdings} (hr : Run h l) (j : ThreadId) : l.inHook j = (l.thread j).holdsGuard := by
  induction hr with
  | nil => rfl
  | start hr ih =>
    rw [inHook, newThread, thread, Table.get_add]
    split
    · rfl
    · exact ih
  | act hr ht he ha ih => exact perform_keeps_hook _ ih

theorem Run.poised {h : Holdings} (hr : Run h l) (ht : t < l.threads.size) : Poised t l where
  above i := by
    rcases Nat.lt_or_ge i l.trackers.size with hi | hi
    · exact hr.reach.1.route i hi
    · rw [tracker, Table.get_of_size_le hi]
      exact .inl rfl
  thread := ht
  hook := hr.hook t

/-! ## Trackers inside the hook -/

def Call.upward : Call → Bool
  | .hand .. | .pass .. | .charge .. | .note _ => true
  | _ => false

/-- The thread is inside the hook, and trackers are the only ones to make calls until the rest goes on. -/
def Upward (t : ThreadId) (rest : List Call) (x : Execution) : Prop :=
  Hooked t x.ledger ∧ ∃ new, x.calls = new ++ rest ∧ ∀ c ∈ new, c.upward = true

theorem upward_charges (event : Charge → Event) (requests : List Request) :
    ∀ c ∈ Call.charges event requests, c.upward = true := by
  simp only [Call.charges, List.mem_flatMap]
  rintro c ⟨r, -, hc⟩
  simp only [List.mem_cons, List.not_mem_nil, or_false] at hc
  rcases hc with rfl | rfl <;> rfl

theorem begin_upward {c : Call} (hc : c.upward = true) (hk : Hooked t l) :
    Hooked t (c.begin habit t l a).ledger ∧ ∀ c' ∈ (c.begin habit t l a).calls, c'.upward = true := by
  cases c with
  | hand i b =>
    refine ⟨(unmoving_receive i b).hooked hk, fun c' hc' => ?_⟩
    rcases List.mem_append.mp hc' with hc' | hc'
    · exact upward_charges _ _ c' hc'
    · rw [List.mem_singleton.mp hc']
      rfl
  | pass i b =>
    refine ⟨hk, fun c' hc' => ?_⟩
    obtain ⟨j, -, rfl⟩ := List.mem_map.mp hc'
    rfl
  | charge s d =>
    rw [begin_charge_refused habit hk]
    exact ⟨(unmoving_of_veil (veil_countSkip l s)).hooked hk, by simp⟩
  | note event => exact ⟨hk, nofun⟩
  | _ => cases hc

theorem Upward.step {rest : List Call} {x : Execution} (h : Upward t rest x) (hne : x.calls ≠ rest) :
    Upward t rest (x.step habit t) := by
  obtain ⟨l, a, calls⟩ := x
  obtain ⟨hk, new, rfl, hnew⟩ := h
  cases new with
  | nil => exact absurd rfl hne
  | cons c new =>
    have hbegun : Hooked t (c.begin habit t l a).ledger ∧ ∀ c' ∈ (c.begin habit t l a).calls, c'.upward = true :=
      begin_upward (hnew c (List.mem_cons_self ..)) hk
    obtain ⟨hk', hc'⟩ := hbegun
    refine ⟨hk', _, (List.append_assoc ..).symm, fun c' hc => ?_⟩
    rcases List.mem_append.mp hc with hc | hc
    · exact hc' c' hc
    · exact hnew c' (List.mem_cons_of_mem _ hc)

/-- A tracker that is called inside the hook is done after some steps, and until then no charge enters the hook. -/
theorem hand_upward (i : TrackerId) (b : Delta) (rest : List Call) (hl : Fit t l) (hk : Hooked t l) :
    ∃ n, ((Execution.step habit t)^[n] ⟨l, a, .hand i b :: rest⟩).calls = rest ∧
      ∀ m ≤ n, Upward t rest ((Execution.step habit t)^[m] ⟨l, a, .hand i b :: rest⟩) := by
  classical
  have hends : ∃ n, ((Execution.step habit t)^[n] ⟨l, a, .hand i b :: rest⟩).calls = rest := by
    have hhand : EndsIn habit t [.hand i b] l a (l.propagate charge t i b) := hand_ends_hooked i b hl hk
    obtain ⟨n, l', a', hn, -⟩ := hhand rest
    exact ⟨n, congrArg Execution.calls hn⟩
  -- the calls of the tracker are not done before the first time that only the rest is left
  refine ⟨Nat.find hends, Nat.find_spec hends, fun m hm => ?_⟩
  induction m with
  | zero => exact ⟨hk, [.hand i b], rfl, by simp [Call.upward]⟩
  | succ m ih =>
    rw [Function.iterate_succ_apply']
    exact (ih (Nat.le_of_succ_le hm)).step (Nat.find_min hends hm)

/-! ## At any moment -/

/-- What a thread is in the middle of, and the calls that a tracker makes from there. -/
structure Disciplined (habit : Habit) (t : ThreadId) (x : Execution) : Prop where
  /-- The thread is inside the hook if one call is to let it out, and not more than one, or if it keeps itself there. -/
  hook : x.calls.countP (·.guards) + (x.ledger.thread t).holdsGuard.toNat = (x.ledger.inHook t).toNat
  charging : x.calls.countP (·.answers) ≤ 1
  refused : ∀ s d rest, x.calls = .charge s d :: rest → x.ledger.inHook t = true →
    x.step habit t = ⟨x.ledger.countSkip s, .skipped .reentrant, rest⟩
  outside : ∀ i b rest, x.calls = .hand i b :: rest → x.ledger.inHook t = false → rest.countP (·.answers) = 0
  inside : ∀ i b rest, x.calls = .hand i b :: rest → x.ledger.inHook t = true →
    ∃ n, ((Execution.step habit t)^[n] x).calls = rest ∧ ∀ m ≤ n, Upward t rest ((Execution.step habit t)^[m] x)

section
variable {calls : List Call}

@[simp] theorem guards_unhook : Call.unhook.guards = true := rfl

@[simp] theorem guards_reply (s : ServiceId) (given : Charge) : (Call.reply s given).guards = false := rfl

@[simp] theorem guards_settle (s : ServiceId) : (Call.settle s).guards = false := rfl

@[simp] theorem answers_unhook : Call.unhook.answers = false := rfl

@[simp] theorem answers_reply (s : ServiceId) (given : Charge) : (Call.reply s given).answers = true := rfl

@[simp] theorem answers_settle (s : ServiceId) : (Call.settle s).answers = false := rfl

theorem Loose.guards (h : Loose calls) : calls.countP (·.guards) = 0 := by
  simp only [Loose, Call.loose, Bool.and_eq_true, Bool.not_eq_true'] at h
  simp only [List.countP_eq_zero, Bool.not_eq_true]
  exact fun c hc => (h c hc).1

theorem Loose.answers (h : Loose calls) : calls.countP (·.answers) = 0 := by
  simp only [Loose, Call.loose, Bool.and_eq_true, Bool.not_eq_true'] at h
  simp only [List.countP_eq_zero, Bool.not_eq_true]
  exact fun c hc => (h c hc).2

theorem Outside.guards (h : Outside calls) : calls.countP (·.guards) = 0 := by
  cases h with
  | loose h => exact h.guards
  | reply h => simp [h.guards]
  | settle h => simp [h.guards]

theorem Outside.answers (h : Outside calls) : calls.countP (·.answers) ≤ 1 := by
  cases h with
  | loose h => simp [h.answers]
  | reply h => simp [List.countP_cons, h.answers]
  | settle h => simp [List.countP_cons, h.answers]

end

theorem Ordered.disciplined {x : Execution} (hl : Fit t x.ledger) (h : Ordered (x.ledger.flags t) x.calls) :
    Disciplined habit t x := by
  obtain ⟨l, a, calls⟩ := x
  dsimp only at hl h
  refine ⟨?_, ?_, ?_, ?_, ?_⟩ <;> dsimp only
  · rw [flags] at h
    generalize l.inHook t = inHook, (l.thread t).holdsGuard = holdsGuard at h
    cases h with
    | outside h => simp [h.guards]
    | inside hi ho => simp [List.countP_cons, hi.guards, ho.guards]
    | kept h => simp [h.guards]
  · generalize l.flags t = flags at h
    cases h with
    | outside h => exact h.answers
    | inside hi ho => simp [hi.answers, ho.answers]
    | kept h => simp [h.answers]
  · rintro s d rest rfl hn
    show Execution.mk _ _ _ = _
    rw [begin_charge_refused habit hn]
    rfl
  · rintro i b rest rfl hn
    generalize hf : l.flags t = flags at h
    have hfst : flags.1 = false := (congrArg Prod.fst hf).symm.trans hn
    generalize hc : Call.hand i b :: rest = calls at h
    cases h with
    | outside h =>
      cases h with
      | loose h =>
        subst hc
        exact (loose_cons.mp h).2.answers
      | reply | settle => cases hc
    | inside | kept => cases hfst
  · rintro i b rest rfl hn
    exact hand_upward i b rest hl hn

theorem loose_start {action : Action} {calls : List Call} (h : l.start? t action = some calls) : Loose calls := by
  cases action with
  | closeAccount | dropContext =>
    cases h
    split
    · exact loose_nil
    · exact loose_single rfl
  | charge | attach | flushThread | flushContext | consume | releaseAccount | leave | unwind | dropFuture | exit =>
    cases h
    exact loose_single rfl
  | _ => cases h

theorem Poised.ordered (h : Poised t l) {calls : List Call} (hc : Loose calls) : Ordered (l.flags t) calls := by
  have hf : l.flags t = ((l.thread t).holdsGuard, (l.thread t).holdsGuard) :=
    congrArg (·, (l.thread t).holdsGuard) h.hook
  rw [hf]
  cases (l.thread t).holdsGuard with
  | true => exact .kept hc
  | false => exact .outside (.loose hc)

theorem Ordered.steps {x : Execution} (hl : Fit t x.ledger) (h : Ordered (x.ledger.flags t) x.calls) (n : Nat) :
    Disciplined habit t ((Execution.step habit t)^[n] x) := by
  have hfit : ∀ n, Fit t ((Execution.step habit t)^[n] x).ledger := fun n => hl.fixed (fixed_steps hl.thread n)
  refine Ordered.disciplined (hfit n) ?_
  induction n with
  | zero => exact h
  | succ n ih =>
    rw [Function.iterate_succ_apply']
    exact ih.step habit (hfit n).thread

theorem Disciplined.poised {l : Ledger} (hl : Fit t l) (h : Disciplined habit t ⟨l, a, []⟩) : Poised t l := by
  refine ⟨hl, ?_⟩
  have hhook : 0 + (l.thread t).holdsGuard.toNat = (l.inHook t).toNat := h.hook
  cases hi : l.inHook t <;> cases hg : (l.thread t).holdsGuard <;> simp [hi, hg] at hhook ⊢

/-- Whatever charges trackers make, and however often: an action that charges, attaches, flushes, closes or drops
something, hands an amount to a tracker or ends the thread comes to its end, and leaves the thread ready for the next
one. If trackers make the charges that the ledger has for them, it comes to what the action does. At any moment on the
way the thread is in the middle of at most one charge that has entered the hook. A charge inside the hook is refused
and calls nobody. So a tracker that is called there only makes charges that are refused, and no charge is going on
where one is called outside. -/
theorem nesting_ends (t : ThreadId) (habit : Habit) :
    (∀ h l, Run h l → t < l.threads.size → Poised t l) ∧
    ∀ l, Poised t l → ∀ action calls, l.start? t action = some calls → ∀ a,
      (∃ n l' a', (Execution.step habit t)^[n] ⟨l, a, calls⟩ = ⟨l', a', []⟩ ∧ Poised t l' ∧
        (habit = .own → l' = (l.perform t action).1 ∧
          ∀ s d, action = .charge s d → (l.perform t action).2 = .charged a')) ∧
      ∀ n, Disciplined habit t ((Execution.step habit t)^[n] ⟨l, a, calls⟩) := by
  refine ⟨fun h l hr ht => hr.poised ht, fun l hl action calls hs a => ?_⟩
  have hdisciplined : ∀ n, Disciplined habit t ((Execution.step habit t)^[n] ⟨l, a, calls⟩) :=
    Ordered.steps (x := ⟨l, a, calls⟩) hl.toFit (hl.ordered (loose_start hs))
  refine ⟨?_, hdisciplined⟩
  have hends : Ends habit t calls l a _ := start_ends hs hl.toFit
  obtain ⟨n, l', a', hn, hown⟩ := hends []
  rw [List.append_nil] at hn
  have hfixed : Fixed l l' := fixed_of_steps hl.thread hn
  have hfit : Fit t l' := hl.toFit.fixed hfixed
  have hend : Disciplined habit t ⟨l', a', []⟩ := hn ▸ hdisciplined n
  exact ⟨n, l', a', hn, hend.poised hfit, hown⟩

theorem run_echoing : Run {} echoing := by
  have hstart : Run {} (newThread {}).1 := .start .nil
  have hecho := hstart.act (t := 0) (a := .newEcho "echo" none) (by decide) (by decide) nofun
  have hservice := hecho.act (t := 0) (a := .newService { threshold := 0, tracker := some 0 }) (by decide) (by decide)
    fun i hi => Option.mem_some_iff.mp hi ▸ show 0 < Table.size _ by decide
  exact hservice.act (t := 0) (a := .bindEcho 0 [⟨0, 3⟩] none) (by decide) (by decide)
    fun r hr => List.mem_singleton.mp hr ▸ show 0 < Table.size _ by decide

/-- An echo that is handed an amount directly charges for real, and the charge that comes of this one is refused. -/
theorem nesting_ends_echoing : ∃ n l' a',
    (Execution.step .own 0)^[n] ⟨echoing, .thread, [.consume 0 5]⟩ = ⟨l', a', []⟩ ∧
    Poised 0 l' ∧ l'.answers = [.parked, .skipped .reentrant] := by
  obtain ⟨hpoised, hends⟩ := nesting_ends 0 .own
  have hl : Poised 0 echoing := hpoised _ _ run_echoing (by decide)
  obtain ⟨⟨n, l', a', hn, hl', hown⟩, -⟩ := hends echoing hl (.consume 0 5) [.consume 0 5] rfl .thread
  have hanswers : (echoing.perform 0 (.consume 0 5)).1.answers = [.parked, .skipped .reentrant] := by decide
  exact ⟨n, l', a', hn, hl', (hown rfl).1 ▸ hanswers⟩

end HeapLedger
