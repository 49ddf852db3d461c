import HeapLedger.Proofs.Flow

/-!
# What a cache has been through

A context is fed by nothing but what the journal tells of: it takes in amounts, and is told to commit what is
pending. So a cache that goes through the same, starting from nothing, has the same pending in the end, and has handed
out the same sums on the way.
-/

namespace HeapLedger

open Ledger

inductive Feeding
  | consume (d : Delta)
  | take

namespace Cache

/-- One thing happens to a cache, which may hand out a sum. What it has handed out is kept, the latest first. -/
def feed (r : Cache × List Delta) : Feeding → Cache × List Delta
  | .consume d => ((r.1.consume d).1, (r.1.consume d).2.toList ++ r.2)
  | .take => (r.1.take.1, r.1.take.2 :: r.2)

def fed (threshold : UInt64) (feedings : List Feeding) : Cache × List Delta :=
  feedings.foldr (fun feeding r => feed r feeding) ({ threshold }, [])

end Cache

def Entry.feeding? (c : ContextId) (e : Entry) : Option Feeding :=
  match e.intake? with
  | some (c', d) => if c' = c then some (.consume d) else none
  | none =>
    match e with
    | flushed c' => if c' = c then some .take else none
    | _ => none

theorem Entry.feeding?_of_intake {e : Entry} {c : ContextId} {d : Delta} (h : e.intake? = some (c, d)) :
    e.feeding? c = some (.consume d) := by
  unfold feeding?
  rw [h]
  exact if_pos rfl

theorem Entry.feeding?_eq_none {e : Entry} {c : ContextId} (hi : ∀ d, e.intake? ≠ some (c, d))
    (hf : e ≠ .flushed c) : e.feeding? c = none := by
  unfold feeding?
  cases he : e.intake? with
  | some r =>
    obtain ⟨c', d⟩ := r
    have hc : c' ≠ c := fun hc => hi d (hc ▸ he)
    exact if_neg hc
  | none =>
    dsimp only
    split
    · rename_i c'
      have hc : c' ≠ c := fun hc => hf (congrArg flushed hc)
      exact if_neg hc
    · rfl

def Entry.commit? (c : ContextId) : Entry → Option Delta
  | committed c' b => if c' = c then some b else none
  | _ => none

namespace Ledger

def feedings (l : Ledger) (c : ContextId) : List Feeding := l.journal.filterMap (Entry.feeding? c)

def commits (l : Ledger) (c : ContextId) : List Delta := l.journal.filterMap (Entry.commit? c)

structure Fed (l : Ledger) : Prop where
  fed : ∀ c < l.contexts.size, Cache.fed (l.context c).cache.threshold (l.feedings c) = ((l.context c).cache, l.commits c)
  fresh : ∀ c, l.contexts.size ≤ c → l.feedings c = [] ∧ l.commits c = []

theorem fed_empty : Fed {} where
  fed c hc := absurd hc (Nat.not_lt_zero c)
  fresh _ _ := ⟨rfl, rfl⟩

section
variable {l l' : Ledger} {e : Entry} {c : ContextId}

theorem feedings_post (e : Entry) (c : ContextId) : (l.post e).feedings c = (e.feeding? c).toList ++ l.feedings c := by
  unfold feedings post
  rw [List.filterMap_cons]
  cases e.feeding? c <;> rfl

theorem commits_post (e : Entry) (c : ContextId) : (l.post e).commits c = (e.commit? c).toList ++ l.commits c := by
  unfold commits post
  rw [List.filterMap_cons]
  cases e.commit? c <;> rfl

theorem Fed.note (h : Fed l) (hi : e.intake? = none) (hf : ∀ c, e ≠ .flushed c) (hc : ∀ c b, e ≠ .committed c b) :
    Fed (l.post e) := by
  have hfeeding : ∀ c, e.feeding? c = none := fun c => e.feeding?_eq_none (by simp [hi]) (hf c)
  have hcommit : ∀ c, e.commit? c = none := by
    intro c
    unfold Entry.commit?
    split
    · exact absurd rfl (hc _ _)
    · rfl
  have hread : ∀ c, (l.post e).feedings c = l.feedings c ∧ (l.post e).commits c = l.commits c := by
    intro c
    rw [feedings_post, commits_post, hfeeding, hcommit]
    exact ⟨rfl, rfl⟩
  refine ⟨fun c hc => ?_, fun c hc => ?_⟩
  · rw [(hread c).1, (hread c).2]
    exact h.fed c hc
  · rw [(hread c).1, (hread c).2]
    exact h.fresh c hc

/-- A context that is new has been through nothing. -/
theorem Fed.unmoved (h : Fed l) (hu : Unmoved l l') : Fed l' := by
  have hread : ∀ c, l'.feedings c = l.feedings c ∧ l'.commits c = l.commits c := by
    intro c
    unfold feedings commits
    rw [hu.journal]
    exact ⟨rfl, rfl⟩
  refine ⟨fun c hc => ?_, fun c hc => ?_⟩
  · rw [(hread c).1, (hread c).2]
    rcases Nat.lt_or_ge c l.contexts.size with hlt | hge
    · have hcache : (l'.context c).cache = (l.context c).cache :=
        congrArg₂ (fun threshold pending => (⟨threshold, pending⟩ : Cache)) (hu.threshold c hlt) (hu.pending c)
      rw [hcache]
      exact h.fed c hlt
    · have hpending : (l'.context c).pending = 0 := by
        rw [hu.pending, context, Table.get_of_size_le hge]
        rfl
      rw [(h.fresh c hge).1, (h.fresh c hge).2]
      exact congrArg (fun pending => ((⟨(l'.context c).cache.threshold, pending⟩ : Cache), ([] : List Delta)))
        hpending.symm
  · rw [(hread c).1, (hread c).2]
    exact h.fresh c (Nat.le_trans hu.contexts_size hc)

theorem Fed.feed (h : Fed l) (hc : c < l.contexts.size) (feeding : Feeding)
    (hcontexts : l'.contexts = l.contexts.modify c fun ctx =>
      { ctx with cache := (Cache.feed ((l.context c).cache, []) feeding).1 })
    (hfeedings : ∀ j, l'.feedings j = if c = j then feeding :: l.feedings j else l.feedings j)
    (hcommits : ∀ j, l'.commits j =
      if c = j then (Cache.feed ((l.context c).cache, l.commits c) feeding).2 else l.commits j)
    (hthreshold : (Cache.feed ((l.context c).cache, []) feeding).1.threshold = (l.context c).cache.threshold) :
    Fed l' := by
  have hsize : l'.contexts.size = l.contexts.size := by rw [hcontexts, Table.size_modify]
  have hread : ∀ j, l'.context j = if c = j ∧ c < l.contexts.size then
      { l.context j with cache := (Cache.feed ((l.context c).cache, []) feeding).1 } else l.context j := by
    intro j
    rw [context, hcontexts, Table.get_modify]
    rfl
  refine ⟨fun j hj => ?_, fun j hj => ?_⟩
  · rw [hread, hfeedings, hcommits]
    by_cases hcj : c = j
    · subst hcj
      rw [if_pos ⟨rfl, hc⟩, if_pos rfl, if_pos rfl]
      dsimp only
      rw [hthreshold]
      show Cache.feed (Cache.fed _ (l.feedings c)) feeding = _
      rw [h.fed c hc]
      cases feeding <;> rfl
    · rw [if_neg fun he => hcj he.1, if_neg hcj, if_neg hcj]
      exact h.fed j (hsize ▸ hj)
  · have hcj : c ≠ j := fun he => absurd hc (Nat.not_lt.mpr (hsize ▸ he ▸ hj))
    rw [hfeedings, hcommits, if_neg hcj, if_neg hcj]
    exact h.fresh j (hsize ▸ hj)

theorem Fed.takeIn (h : Fed l) (hc : c < l.contexts.size) {d : Delta} (he : e.intake? = some (c, d)) :
    Fed (l.takeIn e c d).1 := by
  have hfeeding : ∀ j, e.feeding? j = if c = j then some (.consume d) else none := by
    intro j
    unfold Entry.feeding?
    rw [he]
  have hsilent : ∀ j, e.commit? j = none := by
    intro j
    cases e <;> first | rfl | cases he
  refine h.feed hc (.consume d) (contexts_takeIn ..) (fun j => ?_) (fun j => ?_) (Cache.threshold_consume _ _)
  · have hposted : (l.post e).feedings j = if c = j then .consume d :: l.feedings j else l.feedings j := by
      rw [feedings_post, hfeeding]
      split <;> rfl
    exact takeIn_keeps (I := fun l' => l'.feedings j = _) hposted fun _ _ h => (feedings_post _ j).trans h
  · unfold Ledger.takeIn Cache.feed
    dsimp only
    split
    · rename_i hsum
      show (l.post e).commits j = _
      rw [commits_post, hsilent, hsum]
      split <;> simp [*]
    · rename_i b hsum
      show ((l.post e).post (.committed c b)).commits j = _
      rw [commits_post, commits_post, hsilent, hsum]
      unfold Entry.commit?
      dsimp only
      split
      · rename_i hcj
        rw [hcj]
        rfl
      · rfl

theorem Fed.drain (h : Fed l) (hc : c < l.contexts.size) : Fed (l.drain c) := by
  have hfeeding : ∀ j, (Entry.flushed c).feeding? j = if c = j then some .take else none := fun _ => rfl
  have hcommit : ∀ b j, (Entry.committed c b).commit? j = if c = j then some b else none := fun _ _ => rfl
  refine h.feed hc .take rfl (fun j => ?_) (fun j => ?_) rfl
  · show (((l.post (.flushed c)).post (.committed c _)).feedings j) = _
    rw [feedings_post, feedings_post, hfeeding]
    split <;> rfl
  · show (((l.post (.flushed c)).post (.committed c _)).commits j) = _
    rw [commits_post, commits_post, hcommit]
    split
    · rename_i hcj
      rw [hcj]
      rfl
    · rfl

end

end Ledger

variable {m m' : Moment}

theorem Flow.fed (h : Flow m m') (hf : Fed m.1) : Fed m'.1 := by
  cases h with
  | unmoved h => exact hf.unmoved h
  | note h => exact hf.note h.intake h.flushed h.committed
  | intake hc hr hi hd => exact hf.takeIn hc hi
  | drain hc hr => exact hf.drain hc
  | consume b hr => exact hf.note rfl (by simp) (by simp)
  | receive h => exact { hf with }
  | hear h => exact hf

theorem Flows.fed (h : Flows m m') (hf : Fed m.1) : Fed m'.1 := by
  induction h with
  | refl => exact hf
  | tail _ hflow ih => exact hflow.fed ih

/-- In every run, every context is what its cache has been through. -/
theorem Run.fed {h : Holdings} {l : Ledger} (hr : Run h l) : Fed l := hr.flows.fed fed_empty

end HeapLedger
