import HeapLedger.Proofs.Course

/-!
# The story of a thread's own context

The journal tells the story of a thread's own context in three parts: what happens before it is there, while it is
there, and after its last commit. At every moment the story is as far as the thread is, and nothing that was told
changes later.
-/

namespace HeapLedger

open Ledger

/-! ## Moments -/

/-- Whatever comes later, also in the middle of what is being done. -/
abbrev Passes : Ledger → Ledger → Prop := Relation.ReflTransGen fun l l' => ∃ t q q', Move t (l, q) (l', q')

theorem Moves.passes {t : ThreadId} {m m' : Moment} (h : Moves t m m') : Passes m.1 m'.1 := by
  induction h with
  | refl => exact .refl
  | tail _ hm ih => exact ih.tail ⟨t, _, _, hm⟩

theorem Run.passes_perform {h : Holdings} {l : Ledger} (hr : Run h l) {t : ThreadId} (ht : t < l.threads.size)
    {a : Action} (ha : l.Admits h a) : Passes l (l.perform t a).1 := by
  obtain ⟨hsound, hcarries, hheld⟩ := hr.reach
  exact (perform_moves hheld ⟨hsound, hcarries, ht⟩ ha).passes

theorem Run.passes {h : Holdings} {l : Ledger} (hr : Run h l) : Passes {} l := by
  induction hr with
  | nil => exact .refl
  | start hr ih => exact ih.tail ⟨0, [], [], .tending .newThread⟩
  | act hr ht he ha ih => exact ih.trans (hr.passes_perform ht ha)

structure Thread.Tidy (th : Thread) : Prop where
  carry : th.home ≠ .absent → th.carry = none
  destructor : ∀ s c, th.home = .settled s c → .home ∈ th.destructors

theorem Thread.Keeps.tidy {th th' : Thread} (h : th.Keeps th') (ht : th.Tidy) : th'.Tidy where
  carry hh := by
    rw [h.home] at hh
    exact (h.carry hh).trans (ht.carry hh)
  destructor s c hh := h.destructors _ (ht.destructor s c (h.home.symm.trans hh))

/-! ## Three parts -/

namespace Entry

def taken? (c : ContextId) : Entry → Option Feeding
  | flushed c' => if c' = c then some .take else none
  | _ => none

def homed? (t : ThreadId) (c : ContextId) (e : Entry) : Option Feeding :=
  match e.own? t with
  | some d => some (.consume d)
  | none => e.taken? c

def Suits (e : Entry) (t : ThreadId) (home : Home) : Prop := ∀ v, e = charged v → v.thread = t → v.Suits home

structure Spares (e : Entry) (c : ContextId) : Prop where
  feeding : e.feeding? c = none
  commit : e.commit? c = none

structure Early (e : Entry) (t : ThreadId) : Prop where
  own : e.own? t = none
  suits : e.Suits t .absent

/-- The thread's own context takes in what is charged to the thread, and what was held for it, and nothing else. -/
structure Current (e : Entry) (t : ThreadId) (s : ServiceId) (c : ContextId) : Prop where
  feeding : e.feeding? c = e.homed? t c
  suits : e.Suits t (.settled s c)

structure Late (e : Entry) (t : ThreadId) (c : ContextId) : Prop where
  own : e.own? t = none
  spares : e.Spares c
  suits : e.Suits t .closed

theorem feeding?_of_not_intake {e : Entry} {c : ContextId} (h : ∀ d, e.intake? ≠ some (c, d)) :
    e.feeding? c = e.taken? c := by
  unfold feeding?
  cases he : e.intake? with
  | none => rfl
  | some p =>
    obtain ⟨c', d⟩ := p
    have hne : c' ≠ c := fun hc => h d (hc ▸ he)
    refine (if_neg hne).trans ?_
    cases e with
    | flushed => cases he
    | _ => rfl

end Entry

namespace Ledger

/-- How far the story of a thread's own context is. -/
inductive Story (l : Ledger) (t : ThreadId) : Home → Prop
  | early (he : ∀ e ∈ l.journal, e.Early t) : Story l t .absent
  | current {s c during before} (hj : l.journal = during ++ before) (hb : ∀ e ∈ before, e.Early t ∧ e.Spares c)
      (hd : ∀ e ∈ during, e.Current t s c) : Story l t (.settled s c)
  | late {s c p after during before} (hj : l.journal = after ++ .committed c p :: .flushed c :: (during ++ before))
      (hc : c < l.contexts.size ∧ (l.context c).closed = true) (hb : ∀ e ∈ before, e.Early t ∧ e.Spares c)
      (hd : ∀ e ∈ during, e.Current t s c) (ha : ∀ e ∈ after, e.Late t c) : Story l t .closed

structure Told (l : Ledger) : Prop where
  sound : Sound l
  carries : Carries l
  fed : Fed l
  tidy : ∀ t, (l.thread t).Tidy
  story : ∀ t, l.Story t (l.thread t).home

theorem told_empty : Told {} where
  sound := sound_empty
  carries := carries_empty
  fed := fed_empty
  tidy _ := ⟨fun hh => absurd rfl hh, fun _ _ => nofun⟩
  story _ := .early fun _ he => by cases he

/-! ## Going on -/

section
variable {l l' : Ledger} {j t : ThreadId} {e : Entry}

theorem Heeds.own_eq_none (h : l.Heeds j e) (hh : ∀ s c, (l.thread t).home ≠ .settled s c) : e.own? t = none := by
  cases ho : e.own? t with
  | none => rfl
  | some d =>
    obtain ⟨rfl, s, c, hsettled, -⟩ := h.own t d ho
    exact absurd hsettled (hh s c)

theorem Heeds.suits (h : l.Heeds j e) : e.Suits t (l.thread t).home := by
  rintro v rfl rfl
  obtain ⟨rfl, hv⟩ := h.verdict v rfl
  exact hv

theorem Heeds.spares (h : l.Heeds j e) {c : ContextId} (hc : (l.context c).closed = true) : e.Spares c where
  feeding := by
    refine e.feeding?_eq_none (fun d he => ?_) fun he => ?_
    · exact absurd (hc.symm.trans (h.intake c d he).1) nofun
    · exact absurd (hc.symm.trans (h.flushed c he)) nofun
  commit := by
    unfold Entry.commit?
    split
    · rename_i c' b
      refine if_neg fun he => ?_
      subst he
      exact absurd (hc.symm.trans (h.committed _ b rfl)) nofun
    · rfl

theorem Heeds.current (h : l.Heeds j e) {s : ServiceId} {c : ContextId} (hh : (l.thread t).home = .settled s c) :
    e.Current t s c where
  feeding := by
    unfold Entry.homed?
    cases ho : e.own? t with
    | some d =>
      obtain ⟨rfl, s', c', hsettled, hi⟩ := h.own t d ho
      obtain ⟨-, rfl⟩ := Home.settled.inj (hh.symm.trans hsettled)
      exact e.feeding?_of_intake hi
    | none =>
      refine e.feeding?_of_not_intake fun d hi => ?_
      rw [(h.intake c d hi).2 t s hh] at ho
      cases ho
  suits := hh ▸ h.suits

/-- A thread that has given its context up neither charges it nor is told of it. -/
theorem Heeds.late (h : l.Heeds j e) {c : ContextId} (hh : (l.thread t).home = .closed)
    (hc : (l.context c).closed = true) : e.Late t c where
  own := h.own_eq_none fun s c => by rw [hh]; nofun
  spares := h.spares hc
  suits := hh ▸ h.suits

theorem Proceeds.home_eq (h : Proceeds j l l') (t : ThreadId) : (l'.thread t).home = (l.thread t).home := by
  by_cases htj : t = j
  · exact htj ▸ h.thread.home
  · rw [h.others t htj]

theorem Proceeds.story (h : Proceeds j l l') (hs : l.Story t (l.thread t).home) : l'.Story t (l'.thread t).home := by
  obtain ⟨new, hnew, hheeds⟩ := h.journal
  rw [h.home_eq t]
  cases hh : (l.thread t).home with
  | absent =>
    rw [hh] at hs
    cases hs with
    | early he =>
      refine .early fun e hm => ?_
      rw [hnew] at hm
      rcases List.mem_append.mp hm with hm | hm
      · exact ⟨(hheeds e hm).own_eq_none fun s c => by rw [hh]; nofun, hh ▸ (hheeds e hm).suits⟩
      · exact he e hm
  | settled s c =>
    rw [hh] at hs
    cases hs with
    | @current _ _ during before hj hb hd =>
      have hjournal : l'.journal = (new ++ during) ++ before := by rw [hnew, hj, List.append_assoc]
      refine .current hjournal hb fun e hm => ?_
      rcases List.mem_append.mp hm with hm | hm
      · exact (hheeds e hm).current hh
      · exact hd e hm
  | closed =>
    rw [hh] at hs
    cases hs with
    | @late s c p after during before hj hc hb hd ha =>
      have hjournal : l'.journal = (new ++ after) ++ .committed c p :: .flushed c :: (during ++ before) := by
        rw [hnew, hj, List.append_assoc]
      refine .late hjournal
        ⟨Nat.lt_of_lt_of_le hc.1 h.contexts_size, (h.context c hc.1).closed hc.2⟩ hb hd fun e hm => ?_
      rcases List.mem_append.mp hm with hm | hm
      · exact (hheeds e hm).late hh hc.2
      · exact ha e hm

/-- The story of a thread is about the thread's own context. -/
theorem Story.lasting {home : Home} (h : l.Story t home) (hl : Lasting l l') (hj : l'.journal = l.journal) :
    l'.Story t home := by
  cases h with
  | early he => exact .early (hj ▸ he)
  | current hj' hb hd => exact .current (hj.trans hj') hb hd
  | late hj' hc hb hd ha =>
    exact .late (hj.trans hj') ⟨Nat.lt_of_lt_of_le hc.1 hl.contexts_size, (hl.context _ hc.1).closed hc.2⟩ hb hd ha

theorem thread_newHome_of_ne {s : ServiceId} (h : t ≠ j) : (l.newHome j s).thread t = l.thread t :=
  Table.get_modify_ne _ _ (Ne.symm h)

theorem thread_endHome_of_ne (h : t ≠ j) : (l.endHome j).thread t = l.thread t := Table.get_modify_ne _ _ (Ne.symm h)

theorem lasting_endHome (l : Ledger) (t : ThreadId) : Lasting l (l.endHome t) := lasting_of_eq l rfl (Nat.le_refl _)

theorem home_endHome {s : ServiceId} {c : ContextId} (hh : (l.thread t).home = .settled s c) :
    ((l.endHome t).thread t).home = .closed := congrArg Thread.home (Table.get_modify_self _ (lt_of_home hh))

theorem Fed.spares (h : Fed l) {c : ContextId} (hc : l.contexts.size ≤ c) : ∀ e ∈ l.journal, e.Spares c := fun e he => {
  feeding := List.filterMap_eq_nil_iff.mp (h.fresh c hc).1 e he
  commit := List.filterMap_eq_nil_iff.mp (h.fresh c hc).2 e he }

theorem closed_shut {c : ContextId} (hc : c < l.contexts.size) : ((l.shut c).context c).closed = true := by
  refine (Table.get_modify_of_eq _ c c Context.closed fun _ => by rfl).trans ?_
  exact congrArg Context.closed (Table.get_modify_self _ hc)

/-- What a context commits when it is closed is what is pending. -/
theorem journal_shut {c : ContextId} :
    (l.shut c).journal = .committed c (l.context c).pending :: .flushed c :: l.journal := by
  refine congrArg (fun b => Entry.committed c b :: .flushed c :: l.journal) ?_
  exact Table.get_modify_of_eq _ c c Context.pending fun _ => rfl

theorem Story.settle {s : ServiceId} (h : Story l j .absent) (hf : Fed l) :
    (l.newHome j s).Story j (.settled s l.contexts.size) := by
  cases h with
  | early he =>
    have hjournal : (l.newHome j s).journal = [] ++ l.journal := rfl
    exact .current hjournal (fun e hm => ⟨he e hm, hf.spares (Nat.le_refl _) e hm⟩) fun _ hm => by cases hm

theorem Story.finish {s : ServiceId} {c : ContextId} (h : Story l j (.settled s c)) (hc : c < l.contexts.size) :
    ((l.endHome j).shut c).Story j .closed := by
  cases h with
  | @current _ _ during before hj hb hd =>
    have hjournal : ((l.endHome j).shut c).journal =
        [] ++ .committed c ((l.endHome j).context c).pending :: .flushed c :: (during ++ before) :=
      journal_shut.trans (congrArg (fun older => Entry.committed c _ :: .flushed c :: older) hj)
    refine .late hjournal ⟨?_, ?_⟩ hb hd fun _ hm => by cases hm
    · exact Nat.lt_of_lt_of_le hc (lasting_shut (l.endHome j) c).contexts_size
    · exact closed_shut (l := l.endHome j) hc

theorem thread_newHome_self (l : Ledger) (j : ThreadId) (s : ServiceId) :
    (l.newHome j s).thread j = l.thread j ∨ (l.newHome j s).thread j = { l.thread j with
      home := .settled s l.contexts.size, carry := none, destructors := .home :: (l.thread j).destructors } := by
  by_cases hlt : j < l.threads.size
  · exact .inr (Table.get_modify_self _ hlt)
  · exact .inl ((Table.get_modify ..).trans (if_neg fun hn => hlt hn.2))

theorem tidy_of_others (h : ∀ t, (l.thread t).Tidy) (hne : ∀ t ≠ j, l'.thread t = l.thread t) (hj : (l'.thread j).Tidy)
    (t : ThreadId) : (l'.thread t).Tidy := by
  by_cases ht : t = j
  · exact ht ▸ hj
  · exact hne t ht ▸ h t

theorem Told.proceeds (h : Told l) (hs : Sound l') (hc : Carries l') (hf : Fed l') (hp : Proceeds j l l') : Told l' :=
  ⟨hs, hc, hf, tidy_of_others h.tidy hp.others (hp.thread.tidy (h.tidy j)), fun t => hp.story (h.story t)⟩

theorem Told.settle {s : ServiceId} (h : Told l) (hh : (l.thread j).home = .absent) (hs : Sound (l.newHome j s))
    (hc : Carries (l.newHome j s)) (hf : Fed (l.newHome j s)) : Told (l.newHome j s) := by
  have hne : ∀ t ≠ j, (l.newHome j s).thread t = l.thread t := fun t ht => thread_newHome_of_ne ht
  refine ⟨hs, hc, hf, tidy_of_others h.tidy hne ?_, fun t => ?_⟩
  · rcases thread_newHome_self l j s with he | he <;> rw [he]
    · exact h.tidy j
    · exact ⟨fun _ => rfl, fun _ _ _ => List.mem_cons_self ..⟩
  · have hold := h.story t
    by_cases ht : t = j
    · subst ht
      rcases thread_newHome_self l t s with he | he <;> rw [he]
      · exact hold.lasting (lasting_newHome l t s) rfl
      · rw [hh] at hold
        exact hold.settle h.fed
    · rw [hne t ht]
      exact hold.lasting (lasting_newHome l j s) rfl

theorem Told.finish {s : ServiceId} {c : ContextId} (h : Told l) (hh : (l.thread j).home = .settled s c)
    (hs : Sound ((l.endHome j).shut c)) (hc : Carries ((l.endHome j).shut c)) (hf : Fed ((l.endHome j).shut c)) :
    Told ((l.endHome j).shut c) := by
  have hclosed := home_endHome hh
  have hshut : Proceeds j (l.endHome j) ((l.endHome j).shut c) := proceeds_shut _ (closable_home h.sound hh).live
  have hne : ∀ t ≠ j, ((l.endHome j).shut c).thread t = l.thread t := fun t ht =>
    (hshut.others t ht).trans (thread_endHome_of_ne ht)
  have htidy : ((l.endHome j).thread j).Tidy := by
    refine ⟨fun _ => ?_, fun s' c' hh' => ?_⟩
    · refine Eq.trans (Table.get_modify_of_eq _ j j Thread.carry fun _ => rfl) ((h.tidy j).carry ?_)
      rw [hh]
      nofun
    · rw [hclosed] at hh'
      cases hh'
  refine ⟨hs, hc, hf, tidy_of_others h.tidy hne (hshut.thread.tidy htidy), fun t => ?_⟩
  by_cases ht : t = j
  · subst ht
    have hold := h.story t
    rw [hh] at hold
    rw [hshut.home_eq t, hclosed]
    exact hold.finish ((h.sound.thread t).home s c hh).1.1
  · refine hshut.story ?_
    rw [thread_endHome_of_ne ht]
    exact (h.story t).lasting (lasting_endHome l j) rfl

theorem Told.course (h : Told l) (hs : Sound l') (hc : Carries l') (hf : Fed l') (hco : Course j l l') : Told l' := by
  cases hco with
  | proceeds hp => exact h.proceeds hs hc hf hp
  | settles hh => exact h.settle hh hs hc hf
  | ends hh => exact h.finish hh hs hc hf

end

end Ledger

theorem Move.told {t : ThreadId} {m m' : Moment} (ht : Told m.1) (h : Move t m m') : Told m'.1 :=
  ht.course (h.sound ht.sound) (h.carries ht.carries) ((h.flows ht.sound).fed ht.fed) (h.course ht.sound)

theorem Passes.told {l l' : Ledger} (ht : Told l) (h : Passes l l') : Told l' := by
  induction h with
  | refl => exact ht
  | tail _ hm ih =>
    obtain ⟨t, q, q', hm⟩ := hm
    exact Move.told ih hm

/-- After every run, the story of every thread's own context is told. -/
theorem Run.told {h : Holdings} {l : Ledger} (hr : Run h l) : Told l := hr.passes.told told_empty

/-! ## Later moments -/

def Home.Becomes (contexts : Nat) : Home → Home → Prop
  | .absent, home => ∀ s c, home = .settled s c → contexts ≤ c
  | .settled s c, home => home = .settled s c ∨ home = .closed
  | .closed, home => home = .closed

theorem Home.Becomes.refl (n : Nat) (home : Home) : home.Becomes n home := by
  cases home with
  | absent => exact fun _ _ => nofun
  | settled => exact .inl rfl
  | closed => rfl

theorem Home.Becomes.trans {n n' : Nat} {home home' home'' : Home} (h : home.Becomes n home')
    (h' : home'.Becomes n' home'') (hn : n ≤ n') : home.Becomes n home'' := by
  cases home with
  | absent =>
    rintro s c rfl
    cases home' with
    | absent => exact Nat.le_trans hn (h' s c rfl)
    | settled s' c' =>
      rcases h' with h' | h'
      · obtain ⟨rfl, rfl⟩ := Home.settled.inj h'
        exact h s c rfl
      · cases h'
    | closed => cases h'
  | settled s c =>
    rcases h with rfl | rfl
    · exact h'
    · exact .inr h'
  | closed =>
    obtain rfl : home' = .closed := h
    exact h'

namespace Ledger

/-- A thread gets a context once and gives it up once, and nothing happens to a closed context any more. -/
structure Onward (l l' : Ledger) : Prop extends Lasting l l' where
  home : ∀ t, (l.thread t).home.Becomes l.contexts.size (l'.thread t).home
  closed : ∀ c < l.contexts.size, (l.context c).closed = true →
    l'.feedings c = l.feedings c ∧ l'.commits c = l.commits c
  given_up : ∀ t s, ∀ c < l.contexts.size, (l.thread t).home = .settled s c → (l'.thread t).home = .closed →
    (l'.context c).closed = true

theorem Onward.refl (l : Ledger) : Onward l l :=
  { Lasting.refl l with
    home := fun _ => .refl _ _
    closed := fun _ _ _ => ⟨rfl, rfl⟩
    given_up := fun _ _ _ _ hs hc => absurd (hs.symm.trans hc) nofun }

theorem Onward.trans {l l' l'' : Ledger} (h : Onward l l') (h' : Onward l' l'') : Onward l l'' :=
  { h.toLasting.trans h'.toLasting with
    home := fun t => (h.home t).trans (h'.home t) h.contexts_size
    closed := fun c hc ho => by
      obtain ⟨hf, hk⟩ := h.closed c hc ho
      obtain ⟨hf', hk'⟩ := h'.closed c (Nat.lt_of_lt_of_le hc h.contexts_size) ((h.context c hc).closed ho)
      exact ⟨hf'.trans hf, hk'.trans hk⟩
    given_up := fun t s c hc hs ho => by
      have hlt := Nat.lt_of_lt_of_le hc h.contexts_size
      have hbecomes := h.home t
      rw [hs] at hbecomes
      rcases hbecomes with hs' | ho'
      · exact h'.given_up t s c hlt hs' ho
      · exact (h'.context c hlt).closed (h.given_up t s c hc hs ho') }

section
variable {l l' : Ledger} {j : ThreadId}

theorem spared_of_append {new : List Entry} {c : ContextId} (hj : l'.journal = new ++ l.journal)
    (hn : ∀ e ∈ new, e.Spares c) : l'.feedings c = l.feedings c ∧ l'.commits c = l.commits c := by
  unfold feedings commits
  rw [hj, List.filterMap_append, List.filterMap_append,
    List.filterMap_eq_nil_iff.mpr fun e he => (hn e he).feeding,
    List.filterMap_eq_nil_iff.mpr fun e he => (hn e he).commit]
  exact ⟨rfl, rfl⟩

theorem Proceeds.onward (h : Proceeds j l l') : Onward l l' :=
  { h.toLasting with
    home := fun t => h.home_eq t ▸ .refl _ _
    closed := fun c _ ho => by
      obtain ⟨new, hnew, hheeds⟩ := h.journal
      exact spared_of_append hnew fun e he => (hheeds e he).spares ho
    given_up := fun t s c _ hs ho => absurd (hs.symm.trans ((h.home_eq t).symm.trans ho)) nofun }

theorem onward_newHome {s : ServiceId} (hh : (l.thread j).home = .absent) : Onward l (l.newHome j s) := by
  have hhome : ∀ t, (l.thread t).home = ((l.newHome j s).thread t).home ∨ (l.thread t).home = .absent ∧
      ((l.newHome j s).thread t).home = .settled s l.contexts.size := by
    intro t
    by_cases ht : t = j
    · subst ht
      rcases thread_newHome_self l t s with he | he
      · exact .inl (congrArg Thread.home he).symm
      · exact .inr ⟨hh, congrArg Thread.home he⟩
    · exact .inl (congrArg Thread.home (thread_newHome_of_ne ht)).symm
  refine { lasting_newHome l j s with
    home := fun t => ?_, closed := fun _ _ _ => ⟨rfl, rfl⟩, given_up := fun t s' c _ hs ho => ?_ }
  · rcases hhome t with he | ⟨hn, he⟩
    · exact he ▸ .refl _ _
    · rw [hn, he]
      exact fun _ _ he => Nat.le_of_eq (Home.settled.inj he).2
  · rcases hhome t with he | ⟨hn, he⟩
    · exact absurd (hs.symm.trans (he.trans ho)) nofun
    · exact absurd (he.symm.trans ho) nofun

theorem onward_finish (h : Sound l) {s : ServiceId} {c : ContextId} (hh : (l.thread j).home = .settled s c) :
    Onward l ((l.endHome j).shut c) := by
  have hshut : Proceeds j (l.endHome j) ((l.endHome j).shut c) := proceeds_shut _ (closable_home h hh).live
  have hother : ∀ t ≠ j, (((l.endHome j).shut c).thread t).home = (l.thread t).home := fun t ht =>
    (hshut.home_eq t).trans (congrArg Thread.home (thread_endHome_of_ne ht))
  have hself : (((l.endHome j).shut c).thread j).home = .closed := (hshut.home_eq j).trans (home_endHome hh)
  refine { (lasting_endHome l j).trans hshut.toLasting with
    home := fun t => ?_,
    closed := fun c' hc' ho => hshut.onward.closed c' hc' ho,
    given_up := fun t s' c' hc' hs ho => ?_ }
  · by_cases ht : t = j
    · rw [ht, hh, hself]
      exact .inr rfl
    · rw [hother t ht]
      exact .refl _ _
  · by_cases ht : t = j
    · obtain ⟨-, rfl⟩ := Home.settled.inj ((ht ▸ hh).symm.trans hs)
      exact closed_shut hc'
    · exact absurd (hs.symm.trans ((hother t ht).symm.trans ho)) nofun

theorem Course.onward (hs : Sound l) (h : Course j l l') : Onward l l' := by
  cases h with
  | proceeds h => exact h.onward
  | settles hh => exact onward_newHome hh
  | ends hh => exact onward_finish hs hh

end

end Ledger

theorem Passes.sound_onward {l l' : Ledger} (hs : Sound l) (h : Passes l l') : Sound l' ∧ Onward l l' := by
  induction h with
  | refl => exact ⟨hs, .refl l⟩
  | tail _ hm ih =>
    obtain ⟨t, q, q', hm⟩ := hm
    exact ⟨hm.sound ih.1, ih.2.trans ((hm.course ih.1).onward ih.1)⟩

/-- What comes later changes nothing that was told. -/
theorem Passes.onward {l l' : Ledger} (ht : Told l) (h : Passes l l') : Onward l l' :=
  (Passes.sound_onward ht.sound h).2

end HeapLedger
