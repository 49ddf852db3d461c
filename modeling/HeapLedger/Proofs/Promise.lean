import HeapLedger.Proofs.Balance
import HeapLedger.Proofs.Served

/-!
# What was promised to a thread's context

A charge that the thread answers, or that is parked on it, promises its amount to the thread's own context. As long as
no addition is cut off and nothing is left held, what the context has committed when it is closed is what was promised.
-/

namespace HeapLedger

open Ledger

/-! ## Sums -/

def total (ds : List Delta) : Int := (ds.map Int64.toInt).sum

def worth : Option Delta → Int
  | some d => d.toInt
  | none => 0

theorem total_filterMap_cons (f : Entry → Option Delta) (e : Entry) (older : List Entry) :
    total ((e :: older).filterMap f) = worth (f e) + total (older.filterMap f) := by
  rw [List.filterMap_cons]
  cases f e with
  | none => exact (Int.zero_add _).symm
  | some d => rfl

theorem total_filter_ne_zero (ds : List Delta) : total (ds.filter (· ≠ 0)) = total ds := by
  induction ds with
  | nil => rfl
  | cons d ds ih =>
    rw [List.filter_cons]
    split
    · exact congrArg (d.toInt + ·) ih
    · rename_i hd
      obtain rfl : d = 0 := by simpa using hd
      exact ih.trans (Int.zero_add _).symm

def Entry.promised? (t : ThreadId) : Entry → Option Delta
  | charged v => if v.thread = t ∧ (v.charge = .thread ∨ v.charge = .parked) then some v.delta else none
  | _ => none

def Ledger.promises (l : Ledger) (t : ThreadId) : List Delta := l.journal.filterMap (Entry.promised? t)

theorem worth_own (t : ThreadId) (e : Entry) :
    worth (e.own? t) + worth (e.parking? t) = worth (e.promised? t) + worth (e.carrying? t) := by
  cases e with
  | charged v =>
    unfold Entry.own? Entry.parking? Entry.promised? Entry.carrying?
    by_cases ht : v.thread = t
    · cases hc : v.charge <;> simp [ht, hc, worth]
    · simp [ht, worth]
  | carried j s c d => exact (Int.add_zero _).trans (Int.zero_add _).symm
  | _ => rfl

/-- What came to a thread's context is what was promised to it, with what was carried in place of what was parked. -/
theorem total_own (t : ThreadId) (entries : List Entry) :
    total (entries.filterMap (Entry.own? t)) + total (entries.filterMap (Entry.parking? t)) =
      total (entries.filterMap (Entry.promised? t)) + total (entries.filterMap (Entry.carrying? t)) := by
  induction entries with
  | nil => rfl
  | cons e older ih =>
    have he := worth_own t e
    simp only [total_filterMap_cons]
    omega

theorem committed_eq_total (c : ContextId) (entries : List Entry) :
    committed c entries = total (entries.filterMap (Entry.commit? c)) := by
  induction entries with
  | nil => rfl
  | cons e older ih =>
    have he : e.commits c = worth (e.commit? c) := by
      cases e with
      | committed c' b =>
        show (if c' = c then b.toInt else 0) = worth (if c' = c then some b else none)
        split <;> rfl
      | _ => rfl
    rw [total_filterMap_cons, committed, ih, he, Int.add_comm]

/-! ## What was carried was held -/

/-- Every amount that was carried into a context is what was held by then. -/
def Carriage : List Entry → Prop
  | [] => True
  | e :: older => (∀ t s c d, e = .carried t s c d → d = held t s older) ∧ Carriage older

theorem carriage_cons {e : Entry} (h : e.carrier? = none) {older : List Entry} (hc : Carriage older) :
    Carriage (e :: older) := by
  refine ⟨fun t s c d he => ?_, hc⟩
  subst he
  cases h

theorem Flow.carriage {m m' : Moment} (hc : Carriage m.1.journal) (h : Flow m m') : Carriage m'.1.journal := by
  cases h with
  | unmoved h => exact h.journal ▸ hc
  | note h => exact carriage_cons (carrier_of_intake h.intake) hc
  | @intake l q e c d hlt hr hi hd =>
    have hpost : Carriage (e :: l.journal) := by
      refine ⟨fun t s c' d' he => ?_, hc⟩
      obtain ⟨⟨s', he', hheld⟩, -⟩ := hd t (congrArg Entry.carrier? he)
      obtain ⟨-, rfl, -, rfl⟩ := Entry.carried.inj (he.symm.trans he')
      exact hheld
    exact takeIn_keeps (I := fun l' => Carriage l'.journal) hpost fun _ _ h => carriage_cons rfl h
  | drain => exact carriage_cons rfl (carriage_cons rfl hc)
  | consume => exact carriage_cons rfl hc
  | receive | hear => exact hc

theorem Flows.carriage {m m' : Moment} (hc : Carriage m.1.journal) (h : Flows m m') : Carriage m'.1.journal := by
  induction h with
  | refl => exact hc
  | tail _ hstep ih => exact hstep.carriage ih

theorem Run.carriage {h : Holdings} {l : Ledger} (hr : Run h l) : Carriage l.journal :=
  have hflows : Flows ({}, []) (l, []) := hr.flows
  hflows.carriage (show Carriage [] from trivial)

/-! ## What reached a context -/

def Entry.Owns (e : Entry) (t : ThreadId) (c : ContextId) : Prop := ∀ d, e.intake? = some (c, d) ↔ e.own? t = some d

section
variable {e : Entry} {t : ThreadId} {s : ServiceId} {c : ContextId} {older : List Entry}

theorem Entry.owns_of_spares (ho : e.own? t = none) (hs : e.Spares c) : e.Owns t c := by
  refine fun d => ⟨fun hi => ?_, fun hd => absurd (ho.symm.trans hd) nofun⟩
  exact absurd (hs.feeding.symm.trans (e.feeding?_of_intake hi)) nofun

theorem Entry.intake?_of_feeding {d : Delta} (h : e.feeding? c = some (.consume d)) : e.intake? = some (c, d) := by
  unfold feeding? at h
  cases hi : e.intake? with
  | none =>
    rw [hi] at h
    dsimp only at h
    split at h
    · split at h <;> cases h
    · cases h
  | some p =>
    obtain ⟨c', d'⟩ := p
    rw [hi] at h
    dsimp only at h
    split at h
    · rename_i hc
      cases h
      rw [hc]
    · cases h

theorem Entry.Current.owns (h : e.Current t s c) : e.Owns t c := by
  have hfeeding := h.feeding
  unfold homed? at hfeeding
  refine fun d => ⟨fun hi => ?_, fun hd => ?_⟩
  · rw [e.feeding?_of_intake hi] at hfeeding
    cases ho : e.own? t with
    | some d' =>
      rw [ho] at hfeeding
      cases hfeeding
      rfl
    | none =>
      rw [ho] at hfeeding
      unfold taken? at hfeeding
      dsimp only at hfeeding
      split at hfeeding
      · split at hfeeding <;> cases hfeeding
      · cases hfeeding
  · rw [hd] at hfeeding
    exact Entry.intake?_of_feeding hfeeding

theorem reaches_of_held (hu : Unsaturated older) (hh : ∀ t s c d, e = .carried t s c d → d = held t s older) {d : Delta}
    (hi : e.intake? = some (c, d)) : e.reaches older c = d.toInt := by
  unfold Entry.reaches
  split
  · obtain ⟨rfl, rfl⟩ := Prod.mk.inj (Option.some.inj hi)
    rw [if_pos rfl, ← held_toInt hu, ← hh _ _ _ _ rfl]
  · rw [hi]
    exact if_pos rfl

theorem reaches_of_others (hi : ∀ d, e.intake? ≠ some (c, d)) : e.reaches older c = 0 := by
  unfold Entry.reaches
  split
  · rename_i t' s' c' d'
    exact if_neg fun hc => hi d' (by rw [← hc]; rfl)
  · split
    · rename_i c' d' hi'
      refine if_neg fun hc => hi d' ?_
      rw [← hc]
      exact hi'
    · rfl

theorem reached_eq_total {entries : List Entry} (hu : Unsaturated entries) (hc : Carriage entries)
    (ho : ∀ e ∈ entries, e.Owns t c) : reached c entries = total (entries.filterMap (Entry.own? t)) := by
  induction entries with
  | nil => rfl
  | cons e older ih =>
    have howns := ho e (List.mem_cons_self ..)
    have hreaches : e.reaches older c = worth (e.own? t) := by
      cases hd : e.own? t with
      | some d => exact reaches_of_held hu.2.2 hc.1 ((howns d).mpr hd)
      | none => exact reaches_of_others fun d hi => absurd (hd.symm.trans ((howns d).mp hi)) nofun
    rw [reached, total_filterMap_cons, ih hu.2.2 hc.2 fun e he => ho e (List.mem_cons_of_mem _ he), hreaches,
      Int.add_comm]

end

/-- A closed context has committed what was promised to the thread whose own it was. -/
theorem commits_eq_promises {h : Holdings} {l : Ledger} {t : ThreadId} {c : ContextId} (hr : RunOf (Serviced t) h l)
    (hu : Unsaturated l.journal) (hc : (l.context c).closed = true) (ho : ∀ e ∈ l.journal, e.Owns t c) :
    total (l.commits c) = total (l.promises t) := by
  have hsound := hr.run.reach.1
  have houtstanding : reached c l.journal = committed c l.journal := by
    have hzero := hr.run.balanced hu c
    rw [hsound.pending_closed c hc, outstanding] at hzero
    exact Int.sub_eq_zero.mp hzero.symm
  have hcarried : total (l.carryings t) = total (l.parkings t) := by
    rw [hr.even.carried]
    exact total_filter_ne_zero _
  have hown : total (l.commits c) + total (l.parkings t) = total (l.promises t) + total (l.carryings t) := by
    rw [commits, ← committed_eq_total, ← houtstanding, reached_eq_total hu hr.run.carriage ho]
    exact total_own t l.journal
  omega

end HeapLedger
