import HeapLedger.Proofs.Promise

/-!
# How a thread gives its context up

Whatever order its destructors run in, a thread that ends is left with no context of its own: either it never had one,
or the context has made its last commit, in the middle of the thread's end. From then on every charge that the thread
would answer is told so, also one that the last commit itself gives rise to. So nothing that was promised to the context
is lost, and nothing is promised to it too late.
-/

namespace HeapLedger

open Ledger

namespace Ledger

/-! ## After the last commit -/

section
variable {l l' : Ledger} {j t : ThreadId} {c : ContextId}

theorem Course.late (hs : Sound l) (h : Course j l l') (hh : (l.thread t).home = .closed)
    (hc : (l.context c).closed = true) : ∃ new, l'.journal = new ++ l.journal ∧ ∀ e ∈ new, e.Late t c := by
  cases h with
  | proceeds h =>
    obtain ⟨new, hnew, hheeds⟩ := h.journal
    exact ⟨new, hnew, fun e he => (hheeds e he).late hh hc⟩
  | settles => exact ⟨[], rfl, fun _ he => by cases he⟩
  | @ends s c' hj =>
    have hne : t ≠ j := by
      rintro rfl
      rw [hh] at hj
      cases hj
    have hhome := (congrArg Thread.home (thread_endHome_of_ne (l := l) hne)).trans hh
    have hshut : Proceeds j (l.endHome j) ((l.endHome j).shut c') := proceeds_shut _ (closable_home hs hj).live
    obtain ⟨new, hnew, hheeds⟩ := hshut.journal
    exact ⟨new, hnew, fun e he => (hheeds e he).late hhome hc⟩

end

end Ledger

section
variable {l l' : Ledger} {t : ThreadId} {c : ContextId}

theorem Passes.closed (ht : Told l) (h : Passes l l') (hh : (l.thread t).home = .closed) :
    (l'.thread t).home = .closed := by
  have hbecomes := (Passes.onward ht h).home t
  rw [hh] at hbecomes
  exact hbecomes

theorem Passes.late (ht : Told l) (h : Passes l l') (hlt : c < l.contexts.size) (hh : (l.thread t).home = .closed)
    (hc : (l.context c).closed = true) : ∃ new, l'.journal = new ++ l.journal ∧ ∀ e ∈ new, e.Late t c := by
  induction h with
  | refl => exact ⟨[], rfl, fun _ he => by cases he⟩
  | tail hp hm ih =>
    obtain ⟨j, q, q', hm⟩ := hm
    obtain ⟨new, hnew, hlate⟩ := ih
    have hs := (Passes.told ht hp).sound
    have hclosed := ((Passes.onward ht hp).context c hlt).closed hc
    obtain ⟨newer, hnewer, hlater⟩ := (hm.course hs).late hs (Passes.closed ht hp hh) hclosed
    refine ⟨newer ++ new, by rw [hnewer, hnew, List.append_assoc], fun e he => ?_⟩
    rcases List.mem_append.mp he with he | he
    · exact hlater e he
    · exact hlate e he

end

/-! ## Before the last commit -/

section
variable {t : ThreadId} {m m' : Moment}

theorem Charging.journal (h : Charging t m m') : ∃ new, m'.1.journal = new ++ m.1.journal ∧ ∀ c, .flushed c ∉ new := by
  have hone : ∀ {l l' : Ledger} {e : Entry}, l'.journal = e :: l.journal → (∀ c, e ≠ .flushed c) →
      ∃ new, l'.journal = new ++ l.journal ∧ ∀ c, .flushed c ∉ new := fun {_ _ e} hj he =>
    ⟨[e], hj, fun c hc => he c (List.mem_singleton.mp hc).symm⟩
  cases h with
  | receive | spend | skip | hook | settle => exact ⟨[], rfl, fun _ => nofun⟩
  | hear | event | decline => exact hone rfl fun _ => nofun
  | resolve => exact hone (congrArg (List.cons _) (journal_seek ..)) fun _ => nofun
  | park => exact hone (journal_park _).2 fun _ => nofun
  | @take l q e c d hi =>
    obtain ⟨new, hjournal, hnew⟩ := grows_takeIn (l := l) (e := e) c d
    refine ⟨new, hjournal, fun c' hc => ?_⟩
    rcases hnew _ hc with he | ⟨b, he⟩
    · subst he
      cases hi
    · cases he

/-- A thread that has not given its context up tells nothing to commit on its way to the end but what it closes. -/
theorem Leaving.journal (h : Leaving t m m') (hh : (m'.1.thread t).home ≠ .closed) :
    ∃ new, m'.1.journal = new ++ m.1.journal ∧ ∀ c, .flushed c ∈ new → ∃ a, m.1.Opened a ∧ a.context = c := by
  cases h with
  | charging h =>
    obtain ⟨new, hnew, hflushed⟩ := h.journal
    exact ⟨new, hnew, fun c hc => absurd hc (hflushed c)⟩
  | minor h =>
    cases h with
    | notice n => exact ⟨[.notice n], rfl, fun _ hc => by simp at hc⟩
    | bound s i => exact ⟨[.bound t s i], rfl, fun _ hc => by simp at hc⟩
    | slot | discreet => exact ⟨[], rfl, fun _ => nofun⟩
  | leave | orphans => exact ⟨[], rfl, fun _ => nofun⟩
  | @close l q a ha hc =>
    refine ⟨[.committed a.context (l.context a.context).pending, .flushed a.context], journal_shut, fun c hm => ?_⟩
    obtain rfl : c = a.context := by simpa using hm
    exact ⟨a, ha, rfl⟩
  | @closeHome l q s c hs => exact absurd (home_endHome hs) hh

theorem Leavings.passes (h : Leavings t m m') : Passes m.1 m'.1 := Moves.passes h.moves

theorem Leavings.journal (ht : Told m.1) (h : Leavings t m m') (hh : (m'.1.thread t).home ≠ .closed) :
    ∃ new, m'.1.journal = new ++ m.1.journal ∧ ∀ c, .flushed c ∈ new → ∃ a, m'.1.Opened a ∧ a.context = c := by
  induction h with
  | refl => exact ⟨[], rfl, fun _ => nofun⟩
  | @tail b m' hp hm ih =>
    have htold := Passes.told ht (Leavings.passes hp)
    have hstep : Passes b.1 m'.1 := .single ⟨t, _, _, hm.move⟩
    obtain ⟨new, hnew, hopened⟩ := ih fun hc => hh (Passes.closed htold hstep hc)
    obtain ⟨newer, hnewer, hclosed⟩ := hm.journal hh
    refine ⟨newer ++ new, by rw [hnewer, hnew, List.append_assoc], fun c hc => ?_⟩
    have hlater : ∀ a, b.1.Opened a → m'.1.Opened a := fun a ha => by
      rw [Opened, hnewer]
      exact List.mem_append_right newer ha
    rcases List.mem_append.mp hc with hc | hc
    · obtain ⟨a, ha, hac⟩ := hclosed c hc
      exact ⟨a, hlater a ha, hac⟩
    · obtain ⟨a, ha, hac⟩ := hopened c hc
      exact ⟨a, hlater a ha, hac⟩

/-- A thread that gives its context up on its way does so at some moment. -/
theorem Leavings.parts (ht : Told m.1) (h : Leavings t m m') (hh : (m.1.thread t).home ≠ .closed)
    (hc : (m'.1.thread t).home = .closed) : ∃ m₁ s c, Leavings t m m₁ ∧ (m₁.1.thread t).home = .settled s c ∧
      Passes ((m₁.1.endHome t).shut c) m'.1 := by
  induction h with
  | refl => exact absurd hc hh
  | @tail b m' hp hm ih =>
    have hstep : Passes b.1 m'.1 := .single ⟨t, _, _, hm.move⟩
    by_cases hb : (b.1.thread t).home = .closed
    · obtain ⟨m₁, s, c, hbefore, hs, hafter⟩ := ih hb
      exact ⟨m₁, s, c, hbefore, hs, hafter.trans hstep⟩
    · have hcourse := hm.move.course (Passes.told ht (Leavings.passes hp)).sound
      generalize m'.1 = l' at hc hcourse
      cases hcourse with
      | proceeds hproceeds => exact absurd ((hproceeds.home_eq t).symm.trans hc) hb
      | @settles s hs =>
        rcases thread_newHome_self b.1 t s with he | he
        · exact absurd (he ▸ hc) hb
        · rw [he] at hc
          cases hc
      | @ends s c hs => exact ⟨b, s, c, hp, hs, .refl⟩

end

/-! ## The destructors -/

namespace Ledger

section
variable {l l' : Ledger} {t : ThreadId}

theorem Turn.closed (h : Turn t l l') (hh : (l.thread t).home = .closed) : (l'.thread t).home = .closed := by
  cases h with
  | rests h => exact h.home.trans hh
  | settles hn => exact absurd (hh.symm.trans hn) nofun
  | pays h hn => exact absurd (hh.symm.trans h.home) nofun

theorem Built.closed {α : Type} {f : Ledger → Ledger × α} (hf : Built veil (Outer t) f) (ht : t < l.threads.size)
    (hh : (l.thread t).home = .closed) : ((f l).1.thread t).home = .closed :=
  (Built.turns (I := fun l => (l.thread t).home = .closed) (fun _ _ _ hl hturn => hturn.closed hl) hf.handling ht hh).2

theorem home_closeHome (ht : t < l.threads.size) (s : ServiceId) (c : ContextId) :
    ((l.closeHome t).thread t).home ≠ .settled s c := by
  unfold closeHome
  split
  · rename_i owner c' hh
    have hclosed : (((l.endHome t).closeContext t c').thread t).home = .closed :=
      Built.closed (closeContext_built t c') (lt_of_lt_of_eq ht (threads_size_modifyThread ..).symm) (home_endHome hh)
    rw [Ledger.endHome] at hclosed
    simp [hclosed]
  · rename_i hh
    exact hh s c

theorem home_runExitCharges (h : Ready t l) (hn : ∀ s c, (l.thread t).home ≠ .settled s c) (s : ServiceId)
    (c : ContextId) : ((l.runExitCharges t).thread t).home ≠ .settled s c := by
  unfold runExitCharges
  dsimp only
  split
  · have hall : Chargings t (l, []) (l.chargeAll t .atExit (l.thread t).exitCharges, []) :=
      chargeAll_chargings (h.sound.thread t).exit_requests h
    exact home_closeHome (hall.ready h).thread s c
  · have hclosed : (l.thread t).home = .closed := by
      cases hh : (l.thread t).home with
      | closed => rfl
      | absent => exact absurd hh ‹_›
      | settled s c => exact absurd hh (hn s c)
    rw [Built.closed (chargeAll_built t .atExit (l.thread t).exitCharges) h.thread hclosed]
    nofun

/-- A destructor leaves no context behind that was not there before, and the context's own leaves none. -/
theorem home_destroys {ds : List Destructor} (h : Ready t l)
    (hn : (∀ s c, (l.thread t).home ≠ .settled s c) ∨ .home ∈ ds) (s : ServiceId) (c : ContextId) :
    ((ds.foldl (destroy t) l).thread t).home ≠ .settled s c := by
  induction ds generalizing l with
  | nil =>
    rcases hn with hn | hn
    · exact hn s c
    · cases hn
  | cons d ds ih =>
    have hfirst : Leavings t (l, []) (destroy t l d, []) := destroy_leavings h d
    refine ih (hfirst.ready h) ?_
    cases d with
    | home => exact .inl (home_closeHome h.thread)
    | exitCharges =>
      rcases hn with hn | hn
      · exact .inl (home_runExitCharges h hn)
      · rcases List.mem_cons.mp hn with he | hn
        · cases he
        · exact .inr hn

/-- A thread that has ended has no context of its own. -/
theorem home_exit (h : Ready t l) (ht : Told l) (s : ServiceId) (c : ContextId) :
    ((l.exit t).thread t).home ≠ .settled s c := by
  have hunload : Leavings t (l, []) (l.unloaded t, []) := unloaded_leavings h
  have htidy := (Passes.told ht (Leavings.passes hunload)).tidy t
  refine home_destroys (hunload.ready h) ?_ s c
  by_cases hs : ∃ s c, ((l.unloaded t).thread t).home = .settled s c
  · obtain ⟨s, c, hs⟩ := hs
    exact .inr (htidy.destructor s c hs)
  · exact .inl fun s c hsc => hs ⟨s, c, hsc⟩

/-! ## The last commit -/

/-- Between two ledgers a thread gives its own context up, which makes its last commit then, and was promised nothing
but what it has committed. -/
structure GivesUp (l : Ledger) (t : ThreadId) (c : ContextId) (l' : Ledger) : Prop where
  home : (l'.thread t).home = .closed
  same : ∀ s c', (l.thread t).home = .settled s c' → c' = c
  -- one commit, and nothing of the context after it
  journal : ∃ later earlier p, l'.journal = later ++ .committed c p :: .flushed c :: (earlier ++ l.journal) ∧
    .flushed c ∉ earlier ∧ ∀ e ∈ later, e.Late t c
  -- which is all that was promised
  settled : total (l'.commits c) = total (l'.promises t)

/-- A thread that has given its context up says so to every charge that it would answer. -/
structure Exiting (l : Ledger) (t : ThreadId) : Prop where
  home : (l.thread t).home = .closed
  charged : ∀ s < l.services.size, l.activeTask t s = none → ∀ d,
    (l.inHook t = false → (l.charge t s d).2 = .skipped .threadExiting) ∧ (l.charge t s d).1.contexts = l.contexts

theorem exiting_of_closed (h : Sound l) (hh : (l.thread t).home = .closed) : Exiting l t where
  home := hh
  charged s hs hk d := by
    have hnone : (l.thread t).home ≠ .absent ∧ ∀ c, (l.thread t).home ≠ .settled s c := by
      rw [hh]
      exact ⟨nofun, fun _ => nofun⟩
    refine ⟨fun hn => ?_, contexts_charge hk hnone.1 hnone.2⟩
    rw [charge_snd h, decision, if_neg (Bool.eq_false_iff.mp hn), destination, hk, hh]

end

end Ledger

/-! ## From the last commit on -/

section
variable {l l' : Ledger} {t : ThreadId} {s : ServiceId} {c : ContextId} (ht : Told l)
  (hs : (l.thread t).home = .settled s c)

include ht hs

theorem told_given_up : Told ((l.endHome t).shut c) := by
  have hmove : Move t (l, []) ((l.endHome t).shut c, _) := .closeHome hs
  exact hmove.told ht

theorem exiting_given_up (h : Passes ((l.endHome t).shut c) l') : l'.Exiting t := by
  have htold := told_given_up ht hs
  exact exiting_of_closed (Passes.told htold h).sound (Passes.closed htold h (home_endHome hs))

theorem shut_given_up : c < ((l.endHome t).shut c).contexts.size ∧ (((l.endHome t).shut c).context c).closed = true := by
  obtain ⟨⟨hlt, -⟩, -⟩ := (ht.sound.thread t).home s c hs
  exact ⟨Nat.lt_of_lt_of_le hlt (lasting_shut (l.endHome t) c).contexts_size, closed_shut (l := l.endHome t) hlt⟩

theorem closed_given_up (h : Passes ((l.endHome t).shut c) l') : (l'.context c).closed = true := by
  obtain ⟨hlt, hclosed⟩ := shut_given_up ht hs
  exact ((Passes.onward (told_given_up ht hs) h).context c hlt).closed hclosed

theorem journal_given_up (h : Passes ((l.endHome t).shut c) l') :
    ∃ later, l'.journal = later ++ .committed c (l.context c).pending :: .flushed c :: l.journal ∧
      ∀ e ∈ later, e.Late t c := by
  obtain ⟨hlt, hclosed⟩ := shut_given_up ht hs
  obtain ⟨later, hlater, hlate⟩ := Passes.late (told_given_up ht hs) h hlt (home_endHome hs) hclosed
  rw [journal_shut (l := l.endHome t)] at hlater
  exact ⟨later, hlater, hlate⟩

end

/-! ## Runs -/

section
variable {l : Ledger} {t : ThreadId}

theorem promises_eq_nil (hs : l.Story t .absent) (hp : l.parkings t = []) : l.promises t = [] := by
  cases hs with
  | early hearly =>
    refine List.filterMap_eq_nil_iff.mpr fun e he => ?_
    have hown := (hearly e he).own
    have hparking := List.filterMap_eq_nil_iff.mp hp e he
    cases e with
    | charged v =>
      refine if_neg fun hv => ?_
      rcases hv.2 with hc | hc
      · exact absurd ((if_pos ⟨hv.1, hc⟩).symm.trans hown) nofun
      · exact absurd ((if_pos ⟨hv.1, hc⟩).symm.trans hparking) nofun
    | _ => rfl

/-- What the journal tells up to the moment at which a thread gives its context up, and after it. -/
theorem owns_of_story {s : ServiceId} {c : ContextId} {l' : Ledger} {later : List Entry} {p : Delta}
    (hs : l.Story t (.settled s c)) (hj : l'.journal = later ++ .committed c p :: .flushed c :: l.journal)
    (hl : ∀ e ∈ later, e.Late t c) : ∀ e ∈ l'.journal, e.Owns t c := by
  intro e he
  cases hs with
  | @current _ _ during before hjournal hb hd =>
    rw [hj, hjournal] at he
    rcases List.mem_append.mp he with he | he
    · exact Entry.owns_of_spares (hl e he).own (hl e he).spares
    · rcases List.mem_cons.mp he with rfl | he
      · exact fun d => ⟨nofun, nofun⟩
      · rcases List.mem_cons.mp he with rfl | he
        · exact fun d => ⟨nofun, nofun⟩
        · rcases List.mem_append.mp he with he | he
          · exact (hd e he).owns
          · exact Entry.owns_of_spares (hb e he).1.own (hb e he).2

end

/-- A thread that nobody charges without a service around it ends, and no addition is cut off. Either it never has a
context of its own, and nothing was promised to it. Or at some moment on its way it gives the context up: that is the
one time that the context is told to commit what is pending, be it zero, it has committed what was promised to it by
then and in all, and from that moment on the thread answers no charge but to say that it is exiting. -/
theorem exit_keeps_promises {h : Holdings} {l : Ledger} {t : ThreadId} (hr : RunOf (Serviced t) h l)
    (ht : t < l.threads.size) (he : t ∉ h.ended) (hu : Unsaturated (l.exit t).journal) :
    (((l.exit t).thread t).home = .absent ∧ (l.exit t).promises t = []) ∨
    ∃ s c l₁, Passes l l₁ ∧ (l₁.thread t).home = .settled s c ∧
      Passes ((l₁.endHome t).shut c) (l.exit t) ∧ GivesUp l t c (l.exit t) ∧
      ∀ l₂, Passes ((l₁.endHome t).shut c) l₂ → l₂.Exiting t := by
  obtain ⟨hsound, hcarries, -⟩ := hr.run.reach
  have hready : Ready t l := ⟨hsound, hcarries, ht⟩
  have htold := hr.run.told
  have hleave : Leavings t (l, []) (l.exit t, []) := exit_leavings hready
  have hended : RunOf (Serviced t) (h.after t .exit .exited) (l.exit t) := hr.act ht he trivial fun _ _ _ => nofun
  have htold' := hended.run.told
  have heven := hended.even
  cases hh : ((l.exit t).thread t).home with
  | settled s c => exact absurd hh (home_exit hready htold s c)
  | absent =>
    have hstory := htold'.story t
    rw [hh] at hstory
    exact .inl ⟨rfl, promises_eq_nil hstory (heven.early hh)⟩
  | closed =>
    right
    obtain ⟨m, s, c, hbefore, hs, hafter⟩ := Leavings.parts htold hleave (hr.run.alive he) hh
    have hpasses : Passes l m.1 := Leavings.passes hbefore
    have htold₁ := Passes.told htold hpasses
    obtain ⟨-, -, hforeign⟩ := (htold₁.sound.thread t).home s c hs
    obtain ⟨later, hlater, hlate⟩ := journal_given_up htold₁ hs hafter
    obtain ⟨earlier, hearlier, hflushed⟩ := Leavings.journal htold hbefore (by rw [hs]; nofun)
    have hstory := htold₁.story t
    rw [hs] at hstory
    have hcommits : total ((l.exit t).commits c) = total ((l.exit t).promises t) :=
      commits_eq_promises hended hu (closed_given_up htold₁ hs hafter) (owns_of_story hstory hlater hlate)
    refine ⟨s, c, m.1, hpasses, hs, hafter, ⟨hh, fun s' c' hs' => ?_, ?_, hcommits⟩,
      fun l₂ hp => exiting_given_up htold₁ hs hp⟩
    · have hbecomes := (Passes.onward htold hpasses).home t
      rw [hs', hs] at hbecomes
      rcases hbecomes with he | he
      · exact (Home.settled.inj he).2.symm
      · cases he
    · refine ⟨later, earlier, (m.1.context c).pending, hlater.trans ?_, fun hm => ?_, hlate⟩
      · exact congrArg (fun older => later ++ Entry.committed c (m.1.context c).pending :: .flushed c :: older) hearlier
      · obtain ⟨a, ha, hac⟩ := hflushed c hm
        exact hforeign a ha hac

open Ledger in
def departing : Ledger :=
  let l := (perform (newThread {}).1 0 (.newService { threshold := 10 })).1
  let l := (l.perform 0 (.charge 0 7)).1
  (l.perform 0 (.atExit ⟨0, 2⟩)).1

theorem run_departing : RunOf (Serviced 0) {} departing := by
  have hstart : RunOf (Serviced 0) {} (Ledger.newThread {}).1 := .start .nil
  have hservice := hstart.act (t := 0) (a := .newService { threshold := 10 }) (by decide) (by decide)
    (fun _ h => by cases h) fun _ _ _ => nofun
  have hcharge := hservice.act (t := 0) (a := .charge 0 7) (by decide) (by decide)
    (show 0 < Table.size _ by decide) fun _ _ _ => nofun
  exact hcharge.act (t := 0) (a := .atExit ⟨0, 2⟩) (by decide) (by decide)
    (show 0 < Table.size _ by decide) fun _ _ _ => nofun

/-- The thread's context makes its last commit when the thread ends, and has committed both amounts. -/
theorem exit_keeps_promises_departing : 0 < departing.threads.size ∧ Unsaturated (departing.exit 0).journal ∧
    (departing.exit 0).promises 0 = [2, 7] ∧ ∃ c, departing.GivesUp 0 c (departing.exit 0) := by
  have hsize : 0 < departing.threads.size := by decide
  have hended : 0 ∉ ({} : Holdings).ended := by decide
  have hunsaturated : Unsaturated (departing.exit 0).journal := by decide +kernel
  have hpromised : (departing.exit 0).promises 0 = [2, 7] := by decide +kernel
  refine ⟨hsize, hunsaturated, hpromised, ?_⟩
  rcases exit_keeps_promises run_departing hsize hended (by assumption) with hnone | ⟨s, c, l₁, hup⟩
  · exact absurd (hpromised.symm.trans hnone.2) nofun
  · exact ⟨c, hup.2.2.2.1⟩

end HeapLedger
