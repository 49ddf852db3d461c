import HeapLedger.Proofs.Ordered

/-!
# Every call comes to its end

Inside the hook every charge is refused, so an amount that travels up there makes its way from a tracker to an older
one and to the end. Outside of it the charges that a tracker makes hand amounts to trackers inside the hook only. So
whatever charges trackers make, and however often, everything that a thread does comes to an end.
-/

namespace HeapLedger

open Ledger

/-- Every tracker passes on to an older one, if to any, and the thread is there. -/
structure Fit (t : ThreadId) (l : Ledger) : Prop where
  above : ∀ i, (l.tracker i).above = [] ∨ ∃ j < i, (l.tracker i).above = l.route j
  thread : t < l.threads.size

variable {habit : Habit} {t : ThreadId} {l l' : Ledger} {a : Charge}

theorem Fixed.route (h : Fixed l l') (i : TrackerId) : l'.route i = l.route i := by
  rw [Ledger.route, h.above]
  rfl

theorem Fit.fixed (h : Fit t l) (hs : Fixed l l') : Fit t l' where
  above i := by
    rw [hs.above]
    rcases h.above i with hi | ⟨j, hj, hi⟩
    · exact .inl hi
    · exact .inr ⟨j, hj, hi.trans (hs.route j).symm⟩
  thread := hs.threads_size.symm ▸ h.thread

theorem Fit.of_eq (h : Fit t l) (hi : l'.trackers = l.trackers) (ht : l'.threads = l.threads) : Fit t l' :=
  h.fixed (unmoving_of_eq (t := t) hi ht).toFixed

theorem fixed_step {x : Execution} (ht : t < x.ledger.threads.size) : Fixed x.ledger (x.step habit t).ledger := by
  obtain ⟨l, a, calls⟩ := x
  cases calls with
  | nil => exact .refl l
  | cons c rest => exact fixed_begin habit ht c

theorem fixed_steps {x : Execution} (ht : t < x.ledger.threads.size) (n : Nat) :
    Fixed x.ledger ((Execution.step habit t)^[n] x).ledger := by
  induction n with
  | zero => exact .refl _
  | succ n ih =>
    rw [Function.iterate_succ_apply']
    exact ih.trans (fixed_step (ih.threads_size.symm ▸ ht))

theorem fixed_of_steps {x : Execution} (ht : t < x.ledger.threads.size) {n : Nat} {l' : Ledger} {a' : Charge}
    {calls' : List Call} (h : (Execution.step habit t)^[n] x = ⟨l', a', calls'⟩) : Fixed x.ledger l' := by
  have hfixed : Fixed x.ledger ((Execution.step habit t)^[n] x).ledger := fixed_steps ht n
  rwa [h] at hfixed

/-! ## Calls in a row -/

/-- The calls come to their end, whatever others are to be done after them. -/
def Ends (habit : Habit) (t : ThreadId) (calls : List Call) (l : Ledger) (a : Charge)
    (Q : Ledger → Charge → Prop) : Prop :=
  ∀ rest, ∃ n l' a', (Execution.step habit t)^[n] ⟨l, a, calls ++ rest⟩ = ⟨l', a', rest⟩ ∧ Q l' a'

/-- The calls come to their end, which is this ledger if trackers make the charges that the ledger has for them. -/
abbrev EndsIn (habit : Habit) (t : ThreadId) (calls : List Call) (l : Ledger) (a : Charge) (f : Ledger) : Prop :=
  Ends habit t calls l a fun l' _ => habit = .own → l' = f

namespace Ends

variable {calls calls' : List Call} {Q R : Ledger → Charge → Prop}

theorem nil (h : Q l a) : Ends habit t [] l a Q := fun _ => ⟨0, l, a, rfl, h⟩

theorem mono (h : Ends habit t calls l a Q) (hq : ∀ l' a', Q l' a' → R l' a') : Ends habit t calls l a R := by
  intro rest
  obtain ⟨n, l', a', hn, hl⟩ := h rest
  exact ⟨n, l', a', hn, hq l' a' hl⟩

theorem append (h : Ends habit t calls l a Q) (ht : t < l.threads.size)
    (h' : ∀ l' a', Fixed l l' → Q l' a' → Ends habit t calls' l' a' R) : Ends habit t (calls ++ calls') l a R := by
  intro rest
  obtain ⟨n, l₁, a₁, hn, hq⟩ := h (calls' ++ rest)
  have hfixed : Fixed l l₁ := fixed_of_steps ht hn
  obtain ⟨m, l₂, a₂, hm, hr⟩ := h' l₁ a₁ hfixed hq rest
  refine ⟨m + n, l₂, a₂, ?_, hr⟩
  rw [List.append_assoc, Function.iterate_add_apply, hn, hm]

theorem call {c : Call}
    (h : Ends habit t (c.begin habit t l a).calls (c.begin habit t l a).ledger (c.begin habit t l a).answer Q) :
    Ends habit t [c] l a Q := by
  intro rest
  obtain ⟨n, l', a', hn, hq⟩ := h rest
  exact ⟨n + 1, l', a', hn, hq⟩

theorem cons {c : Call} (h : Ends habit t [c] l a Q) (ht : t < l.threads.size)
    (h' : ∀ l' a', Fixed l l' → Q l' a' → Ends habit t calls l' a' R) : Ends habit t (c :: calls) l a R :=
  append h ht h'

end Ends

/-! ## Amounts that travel up -/

section
variable {K : Ledger → Prop}

theorem charges_end (hcharge : ∀ l a s d, Fit t l → K l →
      Ends habit t [.charge s d] l a fun l' a' => K l' ∧ (habit = .own → (l', a') = l.charge t s d))
    (hevent : ∀ l e, K l → K (event l e)) (event : Charge → Event) (requests : List Request) (hl : Fit t l) (hk : K l) :
    Ends habit t (Call.charges event requests) l a fun l' _ =>
      K l' ∧ (habit = .own → l' = l.chargeAll t event requests) := by
  induction requests generalizing l a with
  | nil => exact .nil ⟨hk, fun _ => rfl⟩
  | cons r rest ih =>
    apply (hcharge l a r.service r.delta hl hk).cons hl.thread
    intro l₁ a₁ hs ⟨hk₁, hl₁⟩
    have hnote : Ends habit t [.note event] l₁ a₁ fun l₂ _ => l₂ = l₁.event (event a₁) := .call (.nil rfl)
    apply hnote.cons (hl.fixed hs).thread
    intro l₂ a₂ hs₂ hl₂
    apply (ih ((hl.fixed hs).fixed hs₂) (hl₂ ▸ hevent l₁ _ hk₁)).mono
    intro l' _ ⟨hk', hl'⟩
    refine ⟨hk', fun ho => ?_⟩
    have hone : l₂ = chargeOne t event l r := by
      rw [hl₂, chargeOne, ← hl₁ ho]
    rw [hl' ho, hone]
    rfl

/-- An amount comes to its end, because each tracker hands it to an older one. -/
theorem hand_ends (hcharge : ∀ l a s d, Fit t l → K l →
      Ends habit t [.charge s d] l a fun l' a' => K l' ∧ (habit = .own → (l', a') = l.charge t s d))
    (hreceive : ∀ l i b, K l → K (receive l t i b)) (hevent : ∀ l e, K l → K (event l e)) (i : TrackerId) (b : Delta)
    (hl : Fit t l) (hk : K l) :
    Ends habit t [.hand i b] l a fun l' _ => K l' ∧ (habit = .own → l' = l.propagate charge t i b) := by
  induction i using Nat.strong_induction_on generalizing l a with
  | _ i ih =>
    have hreceived : Fixed l (l.receive t i b) := (unmoving_receive (t := t) i b).toFixed
    have hanswered : Ends habit t (Call.charges (.answered (l.tracker i).title) (habit l i b)) (l.receive t i b) a
        fun l' _ => K l' ∧ (habit = .own → l' = deliver charge t b l i) := by
      apply (charges_end hcharge hevent _ _ (hl.fixed hreceived) (hreceive l i b hk)).mono
      intro l' _ ⟨hk', hl'⟩
      refine ⟨hk', fun ho => ?_⟩
      rw [hl' ho, deliver_eq, ho]
      rfl
    apply Ends.call
    apply hanswered.append (hl.fixed hreceived).thread
    intro l₁ a₁ hs ⟨hk₁, hl₁⟩
    have hfixed : Fixed l l₁ := hreceived.trans hs
    have hroute : l.propagate charge t i b =
        (l.tracker i).above.foldl (deliver charge t b) (deliver charge t b l i) := rfl
    apply Ends.call
    show Ends habit t ((l₁.tracker i).parent?.toList.map (.hand · b)) l₁ a₁ _
    rw [Tracker.parent?, hfixed.above, hroute]
    rcases hl.above i with hi | ⟨j, hj, hi⟩
    · rw [hi]
      exact .nil ⟨hk₁, hl₁⟩
    · rw [hi]
      apply (ih j hj (hl.fixed hfixed) hk₁).mono
      intro l' _ ⟨hk', hl'⟩
      refine ⟨hk', fun ho => ?_⟩
      rw [hl' ho, propagate, hfixed.route, hl₁ ho]

end

/-! ## Inside the hook -/

def Hooked (t : ThreadId) (l : Ledger) : Prop := l.inHook t = true

theorem Unmoving.hooked (h : Unmoving t l l') (hl : Hooked t l) : Hooked t l' :=
  (congrArg Prod.fst h.flags).trans hl

theorem hand_ends_hooked (i : TrackerId) (b : Delta) (hl : Fit t l) (hk : Hooked t l) :
    EndsIn habit t [.hand i b] l a (l.propagate charge t i b) := by
  refine (hand_ends ?_ ?_ ?_ i b hl hk).mono fun l' _ h => h.2
  · intro l a s d _ hk
    apply Ends.call
    rw [begin_charge_refused habit hk]
    exact .nil ⟨(unmoving_of_veil (veil_countSkip l s)).hooked hk, fun _ => (charge_of_inHook hk s d).symm⟩
  · exact fun l i b hk => (unmoving_receive i b).hooked hk
  · exact fun l e hk => hk

theorem absorb_ends_hooked (c : ContextId) (d : Delta) (hl : Fit t l) (hk : Hooked t l) :
    EndsIn habit t [.absorb c d] l a (l.absorb charge t c d) := by
  apply Ends.call
  show Ends habit t (Call.beginAbsorb l a c d).calls (Call.beginAbsorb l a c d).ledger
    (Call.beginAbsorb l a c d).answer _
  unfold Call.beginAbsorb absorb
  dsimp only
  cases ((l.context c).cache.consume d).2 with
  | none => exact .nil fun _ => rfl
  | some b =>
    have hfixed : Unmoving t l ((l.modifyContext c fun ctx =>
        { ctx with cache := ((l.context c).cache.consume d).1 }).post (.committed c b)) := unmoving_of_eq rfl rfl
    exact hand_ends_hooked _ b (hl.fixed hfixed.toFixed) (hfixed.hooked hk)

theorem hooked_setInHook (ht : t < l.threads.size) : Hooked t (l.setInHook t true) :=
  congrArg Prod.fst (flags_enter ht)

theorem unhook_ends : Ends habit t [.unhook] l a fun l' _ => l' = l.setInHook t false := .call (.nil rfl)

theorem settle_ends (s : ServiceId) (hl : Fit t l) : EndsIn habit t [.settle s] l a (l.settle t s).1 := by
  rw [← settleWith_charge]
  apply Ends.call
  show Ends habit t (Call.beginSettle t l a s).calls (Call.beginSettle t l a s).ledger
    (Call.beginSettle t l a s).answer _
  unfold Call.beginSettle settleWith
  cases (l.thread t).home with
  | settled | closed => exact .nil fun _ => rfl
  | absent =>
    dsimp only
    split
    · exact .nil fun _ => rfl
    · have hnew : Fixed l (l.newHome t s) := (unmoving_newHome (t := t) s).toFixed
      have hlt : t < (l.newHome t s).threads.size := (hl.fixed hnew).thread
      have hentered : Fit t ((l.newHome t s).setInHook t true) := (hl.fixed hnew).fixed (fixed_modifyThread t _)
      have hpost : Fit t (((l.newHome t s).setInHook t true).post
          (.carried t s l.contexts.size ((l.thread t).carriedFor s))) := hentered.of_eq rfl rfl
      apply (absorb_ends_hooked _ _ hpost (hooked_setInHook hlt)).cons hpost.thread
      intro l₁ a₁ _ hl₁
      apply unhook_ends.mono
      intro l' _ hl' ho
      rw [hl', hl₁ ho]
      rfl

/-! ## Charges -/

theorem reply_ends (s : ServiceId) (given : Charge) : Ends habit t [.reply s given] l a fun l' a' =>
    l' = (match given with | .skipped _ => l.countSkip s | _ => l) ∧ a' = given := by
  apply Ends.call
  cases given <;> exact .nil ⟨rfl, rfl⟩

theorem opening_ends (s : ServiceId) (d : Delta) (hl : Fit t l) (hk : Hooked t l) :
    EndsIn habit t ((l.opening t s d).intake.toList.map (.absorb · d)) (l.opening t s d).ledger a
      (chargeInHookWith charge l t s d).1 := by
  have hopened : Unmoving t l (l.opening t s d).ledger := unmoving_opening s d
  rw [chargeInHookWith_eq, Opening.close]
  cases (l.opening t s d).intake with
  | none => exact .nil fun _ => rfl
  | some c => exact absorb_ends_hooked c d (hl.fixed hopened.toFixed) (hopened.hooked hk)

theorem charge_ends (s : ServiceId) (d : Delta) (hl : Fit t l) :
    Ends habit t [.charge s d] l a fun l' a' => habit = .own → (l', a') = l.charge t s d := by
  rw [← chargeWith_charge s d hl.thread]
  apply Ends.call
  show Ends habit t (Call.beginCharge t l a s d).calls (Call.beginCharge t l a s d).ledger
    (Call.beginCharge t l a s d).answer _
  unfold Call.beginCharge chargeWith
  split
  · exact .nil fun _ => rfl
  · have hentered : Fit t (l.setInHook t true) := hl.fixed (fixed_modifyThread t _)
    have hopened : Fit t ((l.setInHook t true).opening t s d).ledger :=
      hentered.fixed (unmoving_opening (t := t) s d).toFixed
    have hanswer : ((l.setInHook t true).opening t s d).charge =
        (chargeInHookWith charge (l.setInHook t true) t s d).2 := by
      rw [chargeInHookWith_eq, Opening.close]
      split <;> rfl
    apply (opening_ends s d hentered (hooked_setInHook hl.thread)).append hopened.thread
    intro l₁ a₁ hs₁ hl₁
    apply unhook_ends.cons (hopened.fixed hs₁).thread
    intro l₂ a₂ hs₂ hl₂
    have hfit : Fit t l₂ := (hopened.fixed hs₁).fixed hs₂
    have hguarded : habit = .own → l.guarded t (fun l => chargeInHookWith charge l t s d) =
        (l₂, ((l.setInHook t true).opening t s d).charge) := by
      intro ho
      rw [hl₂, hl₁ ho, hanswer]
      rfl
    generalize ((l.setInHook t true).opening t s d).charge = given at hguarded ⊢
    by_cases hp : given = .parked
    · rw [if_pos hp]
      apply (settle_ends s hfit).cons hfit.thread
      intro l₃ a₃ _ hl₃
      apply (reply_ends s given).mono
      intro l' a' ⟨hl', ha'⟩ ho
      rw [hguarded ho, hl', ha', hp, hl₃ ho, ← settleWith_charge]
    · rw [if_neg hp]
      apply (reply_ends s given).mono
      intro l' a' ⟨hl', ha'⟩ ho
      rw [hguarded ho, hl', ha']
      cases given <;> first | rfl | exact absurd rfl hp

/-! ## Whatever a thread does -/

theorem charge_comes (l : Ledger) (a : Charge) (s : ServiceId) (d : Delta) (hl : Fit t l) (_ : True) :
    Ends habit t [.charge s d] l a fun l' a' => True ∧ (habit = .own → (l', a') = l.charge t s d) :=
  (charge_ends s d hl).mono fun _ _ h => ⟨trivial, h⟩

theorem hand_comes (i : TrackerId) (b : Delta) (hl : Fit t l) :
    EndsIn habit t [.hand i b] l a (l.propagate charge t i b) := by
  apply (hand_ends charge_comes (fun _ _ _ _ => trivial) (fun _ _ _ => trivial) i b hl trivial).mono
  exact fun _ _ h => h.2

theorem chargeAll_ends (event : Charge → Event) (requests : List Request) (hl : Fit t l) :
    EndsIn habit t (Call.charges event requests) l a (l.chargeAll t event requests) := by
  apply (charges_end charge_comes (fun _ _ _ => trivial) event requests hl trivial).mono
  exact fun _ _ h => h.2

theorem flush_ends (c : ContextId) (hl : Fit t l) : EndsIn habit t [.flush c] l a (l.flush charge t c).1 :=
  .call (hand_comes _ _ (hl.of_eq rfl rfl))

theorem consume_ends (i : TrackerId) (b : Delta) (hl : Fit t l) : EndsIn habit t [.consume i b] l a (l.consume t i b) :=
  .call (hand_comes i b (hl.of_eq rfl rfl))

theorem flushThread_ends (s : ServiceId) (hl : Fit t l) :
    EndsIn habit t [.flushThread s] l a (l.flushThread t s).1 := by
  apply Ends.call
  show Ends habit t (Call.beginFlushThread t l a s).calls (Call.beginFlushThread t l a s).ledger
    (Call.beginFlushThread t l a s).answer _
  unfold Call.beginFlushThread flushThread
  split
  · exact .nil fun _ => rfl
  · have hentered : Fit t (l.setInHook t true) := hl.fixed (fixed_modifyThread t _)
    have hflush : EndsIn habit t (((l.setInHook t true).homeOf t s).toList.map .flush) (l.setInHook t true) a
        ((l.setInHook t true).flushHome charge t s).1 := by
      unfold flushHome
      cases (l.setInHook t true).homeOf t s with
      | none => exact .nil fun _ => rfl
      | some c => exact flush_ends c hentered
    apply hflush.append hentered.thread
    intro l₁ a₁ _ hl₁
    apply unhook_ends.mono
    intro l' _ hl' ho
    rw [hl', hl₁ ho]
    rfl

theorem closeContext_ends (c : ContextId) (hl : Fit t l) : EndsIn habit t [.closeContext c] l a (l.closeContext t c) :=
  .call (flush_ends c (hl.of_eq rfl rfl))

theorem dropContext_ends (c : ContextId) (hl : Fit t l) : EndsIn habit t [.dropContext c] l a (l.dropContext t c) :=
  .call (closeContext_ends c (hl.of_eq rfl rfl))

/-! ## Accounts, scopes and futures -/

theorem closeAccount_ends (a' : Account) (hl : Fit t l) : EndsIn habit t [.closeAccount a'] l a (l.closeAccount t a') :=
  .call (closeContext_ends _ (hl.of_eq rfl rfl))

theorem release_ends (a' : Account) (hl : Fit t l) : EndsIn habit t [.release a'] l a (l.release t a') := by
  apply Ends.call
  show Ends habit t (Call.beginRelease l a a').calls (Call.beginRelease l a a').ledger
    (Call.beginRelease l a a').answer _
  unfold Call.beginRelease release
  split
  · exact .nil fun _ => rfl
  · exact closeAccount_ends a' hl

theorem leave_ends : Ends habit t [.leave] l a fun l' _ => l' = l.leave t := .call (.nil rfl)

theorem leaveScope_ends (hl : Fit t l) : EndsIn habit t [.leaveScope] l a (l.leaveScope t) := by
  apply Ends.call
  show Ends habit t (Call.beginLeaveScope t l a).calls (Call.beginLeaveScope t l a).ledger
    (Call.beginLeaveScope t l a).answer _
  unfold Call.beginLeaveScope leaveScope
  cases (l.thread t).scopes with
  | nil => exact .nil fun _ => rfl
  | cons scope _ =>
    have hleft : Unmoving t l { l.leave t with orphans := (l.leave t).orphans.erase scope.account } :=
      unmoving_leave.trans (unmoving_of_eq rfl rfl)
    unfold closeOrphan
    dsimp only
    split
    · exact closeAccount_ends scope.account (hl.fixed hleft.toFixed)
    · exact .nil fun _ => rfl

theorem unwind_ends (n : Nat) (hl : Fit t l) : EndsIn habit t [.unwind n] l a (l.unwind t n) := by
  induction n generalizing l a with
  | zero => exact .call (.nil fun _ => rfl)
  | succ n ih =>
    apply Ends.call
    apply (leaveScope_ends hl).cons hl.thread
    intro l₁ a₁ hs hl₁
    apply (ih (hl.fixed hs)).mono
    intro l' _ hl' ho
    rw [hl' ho, hl₁ ho]
    rfl

theorem dropFuture_ends (f : FutureId) (hl : Fit t l) : EndsIn habit t [.dropFuture f] l a (l.dropFuture t f) := by
  have hentered : Fit t (l.enter t (l.future f).account) := hl.fixed (fixed_modifyThread t _)
  apply Ends.call
  apply (chargeAll_ends (.dropped (l.future f).name) (l.future f).onDrop hentered).append hentered.thread
  intro l₁ a₁ hs₁ hl₁
  apply leave_ends.cons (hentered.fixed hs₁).thread
  intro l₂ a₂ hs₂ hl₂
  apply (closeAccount_ends _ ((hentered.fixed hs₁).fixed hs₂)).mono
  intro l' _ hl' ho
  rw [hl' ho, hl₂, hl₁ ho]
  rfl

/-! ## The end of the thread -/

theorem closeHome_ends (hl : Fit t l) : EndsIn habit t [.destroy .home] l a (l.closeHome t) := by
  apply Ends.call
  show Ends habit t (Call.beginDestroy t l a .home).calls (Call.beginDestroy t l a .home).ledger
    (Call.beginDestroy t l a .home).answer _
  simp only [Call.beginDestroy, closeHome]
  cases (l.thread t).home with
  | absent | closed => exact .nil fun _ => rfl
  | settled _ c => exact closeContext_ends c (hl.fixed (fixed_modifyThread t _))

theorem runExitCharges_of_absent (h : (l.thread t).home = .absent) :
    l.runExitCharges t = (l.chargeAll t .atExit (l.thread t).exitCharges).closeHome t := by
  unfold runExitCharges
  rw [h]

theorem runExitCharges_of_present (h : (l.thread t).home ≠ .absent) :
    l.runExitCharges t = l.chargeAll t .atExit (l.thread t).exitCharges := by
  unfold runExitCharges
  cases hh : (l.thread t).home with
  | absent => exact absurd hh h
  | settled | closed => rfl

theorem destroy_ends (destructor : Destructor) (hl : Fit t l) :
    EndsIn habit t [.destroy destructor] l a (destroy t l destructor) := by
  cases destructor with
  | home => exact closeHome_ends hl
  | exitCharges =>
    show EndsIn habit t [.destroy .exitCharges] l a (l.runExitCharges t)
    apply Ends.call
    apply (chargeAll_ends .atExit (l.thread t).exitCharges hl).append hl.thread
    intro l₁ a₁ hs hl₁
    cases hh : (l.thread t).home with
    | settled | closed =>
      rw [runExitCharges_of_present (by rw [hh]; nofun)]
      exact .nil hl₁
    | absent =>
      rw [runExitCharges_of_absent hh]
      apply (closeHome_ends (hl.fixed hs)).mono
      intro l' _ hl' ho
      rw [hl' ho, hl₁ ho]

theorem destroys_end (destructors : List Destructor) (hl : Fit t l) :
    EndsIn habit t (destructors.map .destroy) l a (destructors.foldl (destroy t) l) := by
  induction destructors generalizing l a with
  | nil => exact .nil fun _ => rfl
  | cons destructor rest ih =>
    apply (destroy_ends destructor hl).cons hl.thread
    intro l₁ a₁ hs hl₁
    apply (ih (hl.fixed hs)).mono
    intro l' _ hl' ho
    rw [hl' ho, hl₁ ho]
    rfl

theorem exit_ends (hl : Fit t l) : EndsIn habit t [.exit] l a (l.exit t) := by
  apply Ends.call
  apply (unwind_ends (l.depth t) hl).cons hl.thread
  intro l₁ a₁ hs hl₁
  have hletGo : Fit t (Call.begin habit t l₁ a₁ .letGo).ledger :=
    (hl.fixed hs).fixed (begin_letGo habit (t := t) (l := l₁) (a := a₁)).1
  apply Ends.call
  apply (destroys_end _ hletGo).mono
  intro l' _ hl' ho
  rw [hl' ho, exit, ← hl₁ ho]
  rfl

/-! ## Actions -/

theorem leaveScope_of_depth (h : l.depth t = 0) : l.leaveScope t = l := by
  have hnil : (l.thread t).scopes = [] := List.eq_nil_of_length_eq_zero h
  unfold leaveScope
  rw [hnil]

theorem unwind_of_depth (h : l.depth t = 0) (n : Nat) : l.unwind t n = l := by
  induction n with
  | zero => rfl
  | succ n ih => rw [unwind, leaveScope_of_depth h, ih]

theorem perform_leave : (l.perform t .leave).1 = l.leaveScope t := by
  by_cases h : l.depth t = 0
  · simp [perform, insideScope, h, leaveScope_of_depth]
  · simp [perform, insideScope, h, toldActive]

theorem perform_unwind (levels : Nat) :
    (l.perform t (.unwind levels)).1 = l.unwind t (max 1 (min levels (l.depth t))) := by
  by_cases h : l.depth t = 0
  · simp [perform, insideScope, h, unwind_of_depth]
  · simp [perform, insideScope, h]

/-- The action comes to its end, and the one who charges is told the answer. -/
theorem start_ends {action : Action} {calls : List Call} (h : l.start? t action = some calls) (hl : Fit t l) :
    Ends habit t calls l a fun l' a' => habit = .own →
      l' = (l.perform t action).1 ∧ ∀ s d, action = .charge s d → (l.perform t action).2 = .charged a' := by
  have hquiet : ∀ {calls : List Call}, EndsIn habit t calls l a (l.perform t action).1 → (∀ s d, action ≠ .charge s d) →
      Ends habit t calls l a fun l' a' => habit = .own →
        l' = (l.perform t action).1 ∧ ∀ s d, action = .charge s d → (l.perform t action).2 = .charged a' := by
    intro calls hends hne
    apply hends.mono
    intro l' a' hl' ho
    exact ⟨hl' ho, fun s d he => absurd he (hne s d)⟩
  cases action with
  | charge s d =>
    cases h
    apply (charge_ends s d hl).mono
    intro l' a' hl' ho
    refine ⟨congrArg Prod.fst (hl' ho), fun s' d' he => ?_⟩
    show Outcome.charged (l.charge t s d).2 = _
    rw [← hl' ho]
  | attach s =>
    cases h
    exact hquiet (settle_ends s hl) nofun
  | flushThread s =>
    cases h
    exact hquiet (flushThread_ends s hl) nofun
  | flushContext c =>
    cases h
    exact hquiet (flush_ends c hl) nofun
  | consume i b =>
    cases h
    exact hquiet (consume_ends i b hl) nofun
  | closeAccount a' =>
    cases h
    apply hquiet _ nofun
    unfold perform
    dsimp only
    split
    · exact .nil fun _ => rfl
    · exact closeAccount_ends a' hl
  | releaseAccount a' =>
    cases h
    exact hquiet (release_ends a' hl) nofun
  | leave =>
    cases h
    apply hquiet _ nofun
    apply (leaveScope_ends hl).mono
    intro l' _ hl' ho
    rw [hl' ho, perform_leave]
  | unwind levels =>
    cases h
    apply hquiet _ nofun
    apply (unwind_ends _ hl).mono
    intro l' _ hl' ho
    rw [hl' ho, perform_unwind]
  | dropFuture f =>
    cases h
    exact hquiet (dropFuture_ends f hl) nofun
  | dropContext c =>
    cases h
    apply hquiet _ nofun
    unfold perform
    dsimp only
    split
    · exact .nil fun _ => rfl
    · exact dropContext_ends c hl
  | exit =>
    cases h
    exact hquiet (exit_ends hl) nofun
  | _ => cases h

end HeapLedger
