import HeapLedger.Proofs.Flow

/-!
# What contexts have pending

As long as no addition is cut off, what has reached a context is what it has committed and what is still
pending in it. What a thread has parked reaches the context that it is carried into, and it is carried
at most once.
-/

namespace HeapLedger

open Ledger

/-! ## Sums over a journal -/

def parkedSum (t : ThreadId) (s : ServiceId) : List Entry → Int
  | [] => 0
  | e :: older =>
    match e.parked? with
    | some (t', s', d) => if t' = t ∧ s' = s then parkedSum t s older + d.toInt else parkedSum t s older
    | none => parkedSum t s older

/-- What reaches a context by an entry. A parked amount reaches the context that it is carried into. -/
def Entry.reaches (e : Entry) (older : List Entry) (c : ContextId) : Int :=
  match e with
  | carried t s c' _ => if c' = c then parkedSum t s older else 0
  | _ =>
    match e.intake? with
    | some (c', d) => if c' = c then d.toInt else 0
    | none => 0

def reached (c : ContextId) : List Entry → Int
  | [] => 0
  | e :: older => reached c older + e.reaches older c

def Entry.commits (e : Entry) (c : ContextId) : Int :=
  match e with
  | committed c' b => if c' = c then b.toInt else 0
  | _ => 0

def committed (c : ContextId) : List Entry → Int
  | [] => 0
  | e :: older => committed c older + e.commits c

def outstanding (c : ContextId) (entries : List Entry) : Int := reached c entries - committed c entries

/-- Neither an addition to what is pending in a context nor one to what a thread has parked is cut off. -/
def Unsaturated : List Entry → Prop
  | [] => True
  | e :: older =>
    (∀ p ∈ e.intake?, Delta.InRange (outstanding p.1 older + p.2.toInt)) ∧
      (∀ p ∈ e.parked?, Delta.InRange (parkedSum p.1 p.2.1 older + p.2.2.toInt)) ∧
      Unsaturated older

instance decidableUnsaturated : DecidablePred Unsaturated
  | [] => .isTrue trivial
  | e :: older =>
    have := decidableUnsaturated older
    inferInstanceAs (Decidable ((∀ p ∈ e.intake?, Delta.InRange (outstanding p.1 older + p.2.toInt)) ∧
      (∀ p ∈ e.parked?, Delta.InRange (parkedSum p.1 p.2.1 older + p.2.2.toInt)) ∧ Unsaturated older))

theorem Unsaturated.of_suffix {older entries : List Entry} (h : older <:+ entries) (hu : Unsaturated entries) :
    Unsaturated older := by
  induction entries with
  | nil => rwa [List.suffix_nil.mp h]
  | cons e entries ih =>
    rcases List.suffix_cons_iff.mp h with rfl | h
    · exact hu
    · exact ih h hu.2.2

theorem held_toInt {t : ThreadId} {s : ServiceId} : ∀ {entries : List Entry}, Unsaturated entries →
    (held t s entries).toInt = parkedSum t s entries
  | [], _ => rfl
  | e :: older, ⟨_, hp, hu⟩ => by
    have ih := held_toInt (t := t) (s := s) hu
    unfold held parkedSum
    cases he : e.parked? with
    | none => exact ih
    | some p =>
      obtain ⟨t', s', d⟩ := p
      dsimp only
      by_cases hts : t' = t ∧ s' = s
      · obtain ⟨rfl, rfl⟩ := hts
        simp only [and_self, if_true]
        rw [Delta.toInt_addClamped_of_inRange (ih ▸ hp _ he), ih]
      · rw [if_neg hts, if_neg hts]
        exact ih

theorem reaches_of_silent {e : Entry} (h : e.intake? = none) (older : List Entry) (c : ContextId) :
    e.reaches older c = 0 := by
  unfold Entry.reaches
  split
  · cases h
  · rw [h]

theorem reaches_of_intake {e : Entry} {older : List Entry} {c : ContextId} {d : Delta}
    (hi : e.intake? = some (c, d)) (hu : Unsaturated older)
    (hd : ∀ t, e.carrier? = some t →
      (∃ s, e = .carried t s c d ∧ d = held t s older) ∧ ∀ e' ∈ older, e'.carrier? ≠ some t) (j : ContextId) :
    e.reaches older j = if c = j then d.toInt else 0 := by
  unfold Entry.reaches
  split
  · rename_i t s c' d'
    obtain ⟨⟨s', he, hheld⟩, -⟩ := hd t rfl
    obtain ⟨-, rfl, rfl, rfl⟩ := Entry.carried.inj he
    rw [← held_toInt hu, ← hheld]
  · rw [hi]

theorem commits_of_ne {e : Entry} (h : ∀ c b, e ≠ .committed c b) (c : ContextId) : e.commits c = 0 := by
  unfold Entry.commits
  split
  · exact absurd rfl (h _ _)
  · rfl

theorem outstanding_cons (e : Entry) (older : List Entry) (c : ContextId) :
    outstanding c (e :: older) = outstanding c older + e.reaches older c - e.commits c := by
  simp only [outstanding, reached, committed]
  omega

theorem outstanding_committed (c j : ContextId) (b : Delta) (older : List Entry) :
    outstanding j (.committed c b :: older) = outstanding j older - if c = j then b.toInt else 0 := by
  rw [outstanding_cons, reaches_of_silent rfl]
  simp [Entry.commits]

/-! ## Flows keep the balance -/

def Balanced (l : Ledger) : Prop := ∀ c, (l.context c).pending.toInt = outstanding c l.journal

theorem balanced_empty : Balanced {} := fun _ => rfl

theorem pending_setCache {l : Ledger} {c : ContextId} (hc : c < l.contexts.size) (cache : Cache) (j : ContextId) :
    ((l.modifyContext c fun ctx => { ctx with cache }).context j).pending =
      if c = j then cache.pending else (l.context j).pending := by
  rw [context_modifyContext]
  by_cases hj : c = j
  · rw [if_pos ⟨hj, hc⟩, if_pos hj]
    rfl
  · rw [if_neg fun he => hj he.1, if_neg hj]

section
variable {l : Ledger} (hb : Balanced l)

include hb

theorem Balanced.note {e : Entry} (hi : e.intake? = none) (hc : ∀ c b, e ≠ .committed c b) :
    Balanced (l.post e) := by
  intro c
  show (l.context c).pending.toInt = outstanding c (e :: l.journal)
  rw [outstanding_cons, reaches_of_silent hi, commits_of_ne hc, hb c]
  omega

theorem Balanced.drain {c : ContextId} (hc : c < l.contexts.size) : Balanced (l.drain c) := by
  intro j
  have hflush : outstanding j (.flushed c :: l.journal) = outstanding j l.journal := by
    rw [outstanding_cons, reaches_of_silent rfl]
    simp [Entry.commits]
  have hread : ((l.drain c).context j).pending = if c = j then 0 else (l.context j).pending :=
    pending_setCache hc _ j
  show ((l.drain c).context j).pending.toInt =
    outstanding j (.committed c (l.context c).pending :: .flushed c :: l.journal)
  rw [outstanding_committed, hflush, hread, ← hb j]
  by_cases hj : c = j
  · subst hj
    rw [if_pos rfl, if_pos rfl, Int.sub_self]
    rfl
  · rw [if_neg hj, if_neg hj, Int.sub_zero]

/-- What is outstanding once an amount is journaled, before the context that takes it has looked at its threshold. -/
theorem Balanced.outstanding_intake {e : Entry} {c : ContextId} {d : Delta} (hi : e.intake? = some (c, d))
    (hu : Unsaturated (e :: l.journal))
    (hd : ∀ t, e.carrier? = some t →
      (∃ s, e = .carried t s c d ∧ d = held t s l.journal) ∧ ∀ e' ∈ l.journal, e'.carrier? ≠ some t) (j : ContextId) :
    outstanding j (e :: l.journal) =
      if c = j then ((l.context c).cache.pending.addClamped d).toInt else outstanding j l.journal := by
  have hno : ∀ c' b, e ≠ .committed c' b := by
    rintro c' b rfl
    cases hi
  have hsum : ((l.context c).cache.pending.addClamped d).toInt = outstanding c l.journal + d.toInt := by
    have hpending : (l.context c).cache.pending.toInt = outstanding c l.journal := hb c
    rw [Delta.toInt_addClamped_of_inRange (hpending ▸ hu.1 _ hi), hpending]
  rw [outstanding_cons, reaches_of_intake hi hu.2.2 hd, commits_of_ne hno]
  by_cases hj : c = j
  · subst hj
    rw [if_pos rfl, if_pos rfl, hsum, Int.sub_zero]
  · rw [if_neg hj, if_neg hj, Int.add_zero, Int.sub_zero]

theorem Balanced.takeIn {e : Entry} {c : ContextId} {d : Delta} (hc : c < l.contexts.size)
    (hi : e.intake? = some (c, d)) (hu : Unsaturated (e :: l.journal))
    (hd : ∀ t, e.carrier? = some t →
      (∃ s, e = .carried t s c d ∧ d = held t s l.journal) ∧ ∀ e' ∈ l.journal, e'.carrier? ≠ some t) :
    Balanced (l.takeIn e c d).1 := by
  intro j
  have hread : ((l.takeIn e c d).1.context j).pending =
      if c = j then ((l.context c).cache.consume d).1.pending else (l.context j).pending :=
    takeIn_keeps (I := fun l' => (l'.context j).pending = _) (pending_setCache hc _ j) fun _ _ h => h
  rw [hread, journal_takeIn]
  cases he : (l.context c).cache.exceeded ((l.context c).cache.pending.addClamped d) with
  | true =>
    -- The context commits the whole sum: nothing is pending and nothing is outstanding.
    rw [Cache.consume_of_exceeded he]
    show _ = outstanding j (.committed c _ :: e :: l.journal)
    rw [outstanding_committed, hb.outstanding_intake hi hu hd]
    by_cases hj : c = j
    · rw [if_pos hj, if_pos hj, if_pos hj, Int.sub_self]
      rfl
    · rw [if_neg hj, if_neg hj, if_neg hj, Int.sub_zero]
      exact hb j
  | false =>
    rw [Cache.consume_of_not_exceeded he]
    show _ = outstanding j (e :: l.journal)
    rw [hb.outstanding_intake hi hu hd]
    by_cases hj : c = j
    · rw [if_pos hj, if_pos hj]
    · rw [if_neg hj, if_neg hj]
      exact hb j

end

/-! ## Runs keep the balance -/

theorem takeIn_journal (l : Ledger) (e : Entry) (c : ContextId) (d : Delta) :
    e :: l.journal <:+ (l.takeIn e c d).1.journal := by
  rcases journal_takeIn_or l e c d with hj | ⟨b, hj⟩
  · exact ⟨[], hj.symm⟩
  · exact ⟨[.committed c b], hj.symm⟩

variable {m m' : Moment}

theorem Flow.journal_suffix (h : Flow m m') : m.1.journal <:+ m'.1.journal := by
  cases h with
  | unmoved h => exact h.journal ▸ List.suffix_refl _
  | note | consume => exact List.suffix_cons ..
  | intake => exact (List.suffix_cons ..).trans (takeIn_journal ..)
  | drain => exact (List.suffix_cons ..).trans (List.suffix_cons ..)
  | receive | hear => exact List.suffix_refl _

theorem Flows.journal_suffix (h : Flows m m') : m.1.journal <:+ m'.1.journal := by
  induction h with
  | refl => exact List.suffix_refl _
  | tail _ hstep ih => exact ih.trans hstep.journal_suffix

theorem Flow.balanced (hu : Unsaturated m'.1.journal) (hb : Balanced m.1) (h : Flow m m') : Balanced m'.1 := by
  cases h with
  | unmoved h =>
    intro c
    rw [h.pending, h.journal]
    exact hb c
  | note h => exact hb.note h.intake h.committed
  | intake hc hr hi hd => exact hb.takeIn hc hi (hu.of_suffix (takeIn_journal ..)) hd
  | drain hc hr => exact hb.drain hc
  | consume => exact hb.note rfl (by simp)
  | receive | hear => exact hb

theorem Flows.balanced (h : Flows m m') (hu : Unsaturated m'.1.journal) (hb : Balanced m.1) : Balanced m'.1 := by
  induction h with
  | refl => exact hb
  | tail _ hstep ih => exact hstep.balanced hu (ih (hu.of_suffix hstep.journal_suffix))

theorem Run.balanced {h : Holdings} {l : Ledger} (hr : Run h l) (hu : Unsaturated l.journal) : Balanced l :=
  hr.flows.balanced hu balanced_empty

/-! ## What is carried -/

/-- What a thread holds is carried into a context at most once. -/
def CarriedOnce (entries : List Entry) : Prop :=
  entries.Pairwise fun e e' => ∀ t, e.carrier? = some t → e'.carrier? ≠ some t

theorem carriedOnce_cons {e : Entry} (h : e.carrier? = none) {older : List Entry} :
    CarriedOnce (e :: older) ↔ CarriedOnce older := by
  simp [CarriedOnce, h]

theorem carrier_of_intake {e : Entry} (h : e.intake? = none) : e.carrier? = none := by
  unfold Entry.carrier?
  split
  · cases h
  · rfl

theorem Flow.carriedOnce (ho : CarriedOnce m.1.journal) (h : Flow m m') : CarriedOnce m'.1.journal := by
  cases h with
  | unmoved h => exact h.journal ▸ ho
  | note h => exact (carriedOnce_cons (carrier_of_intake h.intake)).mpr ho
  | @intake l q e c d hc hr hi hd =>
    have hpost : CarriedOnce (e :: l.journal) := List.pairwise_cons.mpr ⟨fun e' he' t ht => (hd t ht).2 e' he', ho⟩
    exact takeIn_keeps (I := fun l => CarriedOnce l.journal) hpost fun _ _ h => (carriedOnce_cons rfl).mpr h
  | drain => exact (carriedOnce_cons rfl).mpr ((carriedOnce_cons rfl).mpr ho)
  | consume => exact (carriedOnce_cons rfl).mpr ho
  | receive | hear => exact ho

theorem Flows.carriedOnce (h : Flows m m') (ho : CarriedOnce m.1.journal) : CarriedOnce m'.1.journal := by
  induction h with
  | refl => exact ho
  | tail _ hstep ih => exact hstep.carriedOnce ih

theorem Run.carriedOnce {h : Holdings} {l : Ledger} (hr : Run h l) : CarriedOnce l.journal :=
  hr.flows.carriedOnce (show CarriedOnce [] from List.Pairwise.nil)

end HeapLedger
