import HeapLedger.Proofs.CutOff

/-!
# Commits are paid for by traffic

A context that commits on its own has taken in more than its threshold since its last commit, however the amounts in
between cancel each other or are cut off. What is pending is the potential: an amount adds at most its distance from zero
to it, and a commit that an amount gives rise to takes more than the threshold away. So commits of that kind are few if
little is taken in.
-/

namespace HeapLedger

open Ledger

/-! ## One cache -/

def traffic (ds : List Delta) : Nat := (ds.map Delta.magnitude).sum

theorem traffic_cons (d : Delta) (ds : List Delta) : traffic (d :: ds) = d.magnitude + traffic ds := List.sum_cons

namespace Cache

section
variable {c : Cache} {d b : Delta}

/-- An amount that stays pending adds no more than its distance from zero. -/
theorem pending_consume_le_add (c : Cache) (d : Delta) :
    (c.consume d).1.pending.magnitude ≤ c.pending.magnitude + d.magnitude := by
  rw [consume_fst]
  dsimp only
  split
  · exact Delta.magnitude_addClamped_le ..
  · exact Nat.zero_le _

/-- A sum that is handed out exceeds the threshold, and leaves nothing behind. -/
theorem consume_of_snd (h : (c.consume d).2 = some b) :
    c.threshold.toNat + 1 ≤ b.magnitude ∧ b.magnitude ≤ c.pending.magnitude + d.magnitude ∧
      (c.consume d).1.pending = 0 := by
  rw [consume_snd] at h
  split at h
  · cases h
  · rename_i hlt
    obtain rfl := Option.some.inj h
    refine ⟨Nat.lt_of_not_le hlt, Delta.magnitude_addClamped_le .., ?_⟩
    rw [consume_fst]
    exact if_neg hlt

end

end Cache

/-! ## What the journal tells of one context -/

def cacheAfter (threshold : UInt64) (c : ContextId) (entries : List Entry) : Cache :=
  (Cache.fed threshold (entries.filterMap (Entry.feeding? c))).1

/-- The amount of a commit that comes right after an amount that the context took in. -/
def Entry.overflow? (c : ContextId) (cause : Option Entry) : Entry → Option Delta
  | committed c' b => if c' = c ∧ (cause.bind intake?).map (·.1) = some c then some b else none
  | _ => none

def overflows (c : ContextId) : List Entry → List Delta
  | [] => []
  | e :: older => (e.overflow? c older.head?).toList ++ overflows c older

/-- A journal as it reads to one context. It takes an amount in and commits right after that, or does not; it is told to
commit and does so; and all other entries are not about it. -/
inductive Prompted (threshold : UInt64) (c : ContextId) : List Entry → Prop
  | nil : Prompted threshold c []
  | pass {e older} (h : Prompted threshold c older) (hf : e.feeding? c = none) (hc : e.commit? c = none) :
      Prompted threshold c (e :: older)
  | hold {e d older} (h : Prompted threshold c older) (hi : e.intake? = some (c, d))
      (hs : ((cacheAfter threshold c older).consume d).2 = none) : Prompted threshold c (e :: older)
  | overflow {e d b older} (h : Prompted threshold c older) (hi : e.intake? = some (c, d))
      (hs : ((cacheAfter threshold c older).consume d).2 = some b) : Prompted threshold c (.committed c b :: e :: older)
  | flush {older} (h : Prompted threshold c older) :
      Prompted threshold c (.committed c (cacheAfter threshold c older).pending :: .flushed c :: older)

section
variable {threshold : UInt64} {c : ContextId} {e : Entry} {d b : Delta} {newer entries older : List Entry}

theorem Entry.commit?_of_intake (hi : e.intake? = some (c, d)) (j : ContextId) : e.commit? j = none := by
  cases e with
  | committed => cases hi
  | _ => rfl

theorem Entry.overflow?_eq_none (h : e.commit? c = none) (cause : Option Entry) : e.overflow? c cause = none := by
  cases e with
  | committed c' b =>
    have hne : c' ≠ c := fun hc => absurd h (by simp [commit?, hc])
    exact if_neg fun hc => hne hc.1
  | _ => rfl

theorem Entry.ne_committed (h : e.commit? c = none) : e ≠ .committed c b := by
  rintro rfl
  cases h.symm.trans (if_pos rfl)

theorem overflows_cons (h : e.commit? c = none) (older : List Entry) : overflows c (e :: older) = overflows c older := by
  rw [overflows, Entry.overflow?_eq_none h]
  rfl

theorem overflows_intake (hi : e.intake? = some (c, d)) :
    overflows c (.committed c b :: e :: older) = b :: overflows c older := by
  have hone : (Entry.committed c b).overflow? c (some e) = some b := if_pos ⟨rfl, by simp [hi]⟩
  rw [overflows, List.head?_cons, hone, overflows_cons (e.commit?_of_intake hi c)]
  rfl

theorem overflows_flush : overflows c (.committed c b :: .flushed c :: older) = overflows c older := by
  have hnone : (Entry.committed c b).overflow? c (some (.flushed c)) = none := if_neg fun h => absurd h.2 nofun
  rw [overflows, List.head?_cons, hnone, overflows_cons rfl]
  rfl

theorem gathered_pass (h : e.feeding? c = none) : gathered c (e :: older) = gathered c older := by
  rw [gathered, gathered, List.filterMap_cons_none h]

theorem gathered_intake (hi : e.intake? = some (c, d)) : gathered c (e :: older) = d :: gathered c older := by
  rw [gathered, gathered, List.filterMap_cons_some (e.feeding?_of_intake hi)]
  rfl

theorem gathered_flush : gathered c (.committed c b :: .flushed c :: older) = gathered c older := by
  have htake : (Entry.flushed c).feeding? c = some .take := if_pos rfl
  rw [gathered_pass rfl, gathered, gathered, List.filterMap_cons_some htake]
  rfl

theorem cacheAfter_pass (h : e.feeding? c = none) : cacheAfter threshold c (e :: older) = cacheAfter threshold c older := by
  rw [cacheAfter, cacheAfter, List.filterMap_cons_none h]

theorem cacheAfter_intake (hi : e.intake? = some (c, d)) :
    cacheAfter threshold c (e :: older) = ((cacheAfter threshold c older).consume d).1 := by
  rw [cacheAfter, List.filterMap_cons_some (e.feeding?_of_intake hi)]
  rfl

theorem cacheAfter_flush :
    (cacheAfter threshold c (.committed c b :: .flushed c :: older)).pending = 0 := by
  have htake : (Entry.flushed c).feeding? c = some .take := if_pos rfl
  rw [cacheAfter_pass rfl, cacheAfter, List.filterMap_cons_some htake]
  rfl

theorem threshold_cacheAfter (threshold : UInt64) (c : ContextId) (entries : List Entry) :
    (cacheAfter threshold c entries).threshold = threshold := Cache.threshold_fed ..

theorem overflow_of_consume (hs : ((cacheAfter threshold c older).consume d).2 = some b) :
    threshold.toNat + 1 ≤ b.magnitude ∧
      b.magnitude ≤ (cacheAfter threshold c older).pending.magnitude + d.magnitude ∧
      ((cacheAfter threshold c older).consume d).1.pending = 0 := by
  have hsum := Cache.consume_of_snd hs
  rwa [threshold_cacheAfter] at hsum

namespace Prompted

/-! ## All commits together -/

/-- Whatever has been pending is paid for by what was taken in, and so is every commit of the context's own. -/
theorem paid (h : Prompted threshold c entries) :
    (overflows c entries).length * (threshold.toNat + 1) + (cacheAfter threshold c entries).pending.magnitude ≤
      traffic (gathered c entries) := by
  induction h with
  | nil => exact Nat.le_of_eq (by simp [overflows, cacheAfter, Cache.fed, Delta.magnitude, gathered, traffic])
  | pass h hf hc ih =>
    rw [overflows_cons hc, cacheAfter_pass hf, gathered_pass hf]
    exact ih
  | @hold e d older h hi hs ih =>
    have hadd := Cache.pending_consume_le_add (cacheAfter threshold c older) d
    rw [overflows_cons (e.commit?_of_intake hi c), cacheAfter_intake hi, gathered_intake hi, traffic_cons]
    omega
  | @overflow e d b older h hi hs ih =>
    obtain ⟨hlarge, hadd, hzero⟩ := overflow_of_consume hs
    have hnothing : (0 : Delta).magnitude = 0 := rfl
    rw [overflows_intake hi, cacheAfter_pass rfl, cacheAfter_intake hi, hzero, hnothing, gathered_pass rfl,
      gathered_intake hi, traffic_cons, List.length_cons, Nat.succ_mul]
    omega
  | flush h ih =>
    have hnothing : (0 : Delta).magnitude = 0 := rfl
    rw [overflows_flush, cacheAfter_flush, hnothing, gathered_flush]
    omega

theorem overflow_large (h : Prompted threshold c entries) (hb : b ∈ overflows c entries) :
    threshold.toNat + 1 ≤ b.magnitude := by
  induction h with
  | nil => cases hb
  | pass h hf hc ih => exact ih (overflows_cons hc _ ▸ hb)
  | hold h hi hs ih => exact ih (overflows_cons (Entry.commit?_of_intake hi c) _ ▸ hb)
  | overflow h hi hs ih =>
    rw [overflows_intake hi] at hb
    rcases List.mem_cons.mp hb with rfl | hb
    · exact (overflow_of_consume hs).1
    · exact ih hb
  | flush h ih => exact ih (overflows_flush ▸ hb)

/-! ## One commit after the other -/

/-- A commit of the context is the last entry of some part of the journal, and right before it is what has brought it
about. -/
theorem tail (h : Prompted threshold c (newer ++ .committed c b :: older)) :
    Prompted threshold c (.committed c b :: older) ∧
      ∃ cause rest, older = cause :: rest ∧ (cause = .flushed c ∨ ∃ d, cause.intake? = some (c, d)) := by
  generalize hj : newer ++ .committed c b :: older = entries at h
  induction h generalizing newer with
  | nil => cases (List.append_eq_nil_iff.mp hj).2
  | @pass e rest h hf hc ih =>
    cases newer with
    | nil => exact absurd (List.cons.inj hj).1.symm (Entry.ne_committed hc)
    | cons e' newer => exact ih (List.cons.inj hj).2
  | @hold e d rest h hi hs ih =>
    cases newer with
    | nil =>
      obtain ⟨rfl, rfl⟩ := List.cons.inj hj
      cases hi
    | cons e' newer => exact ih (List.cons.inj hj).2
  | @overflow e d b' rest h hi hs ih =>
    match newer with
    | [] =>
      obtain ⟨hb, rfl⟩ := List.cons.inj hj
      obtain rfl := (Entry.committed.inj hb).2
      exact ⟨.overflow h hi hs, e, rest, rfl, .inr ⟨d, hi⟩⟩
    | [_] =>
      obtain ⟨-, hj⟩ := List.cons.inj hj
      obtain ⟨rfl, rfl⟩ := List.cons.inj hj
      cases hi
    | _ :: _ :: newer => exact ih (List.cons.inj (List.cons.inj hj).2).2
  | @flush rest h ih =>
    match newer with
    | [] =>
      obtain ⟨hb, rfl⟩ := List.cons.inj hj
      obtain rfl := (Entry.committed.inj hb).2
      exact ⟨.flush h, .flushed c, rest, rfl, .inl rfl⟩
    | [_] =>
      obtain ⟨-, hj⟩ := List.cons.inj hj
      cases (List.cons.inj hj).1
    | _ :: _ :: newer => exact ih (List.cons.inj (List.cons.inj hj).2).2

/-- Nothing is pending after a commit, so all that is pending later was taken in since. -/
theorem pending_since {between : List Entry} (h : Prompted threshold c (between ++ .committed c b :: older))
    (hf : .flushed c ∉ between) :
    (cacheAfter threshold c (between ++ .committed c b :: older)).pending.magnitude ≤ traffic (gathered c between) := by
  generalize hj : between ++ .committed c b :: older = entries at h ⊢
  induction h generalizing between with
  | nil => cases (List.append_eq_nil_iff.mp hj).2
  | @pass e rest h hfe hc ih =>
    cases between with
    | nil => exact absurd (List.cons.inj hj).1.symm (Entry.ne_committed hc)
    | cons e' between =>
      obtain ⟨rfl, htail⟩ := List.cons.inj hj
      rw [cacheAfter_pass hfe, gathered_pass hfe]
      exact ih (fun hm => hf (List.mem_cons_of_mem _ hm)) htail
  | @hold e d rest h hi hs ih =>
    cases between with
    | nil =>
      obtain ⟨rfl, rfl⟩ := List.cons.inj hj
      cases hi
    | cons e' between =>
      obtain ⟨rfl, htail⟩ := List.cons.inj hj
      have hrest := ih (fun hm => hf (List.mem_cons_of_mem _ hm)) htail
      have hadd := Cache.pending_consume_le_add (cacheAfter threshold c rest) d
      rw [cacheAfter_intake hi, gathered_intake hi, traffic_cons]
      omega
  | @overflow e d b' rest h hi hs ih =>
    rw [cacheAfter_pass rfl, cacheAfter_intake hi, (overflow_of_consume hs).2.2]
    exact Nat.zero_le _
  | flush h ih =>
    rw [cacheAfter_flush]
    exact Nat.zero_le _

/-- Between two commits, more than the threshold is taken in, unless the context is told to commit meanwhile. -/
theorem apart {between : List Entry} {b' : Delta}
    (h : Prompted threshold c (.committed c b' :: (between ++ .committed c b :: older))) (hf : .flushed c ∉ between) :
    threshold.toNat + 1 ≤ traffic (gathered c between) := by
  generalize hj : .committed c b' :: (between ++ .committed c b :: older) = entries at h
  cases h with
  | nil => cases hj
  | pass h hfe hc =>
    exact absurd (List.cons.inj hj).1.symm (Entry.ne_committed hc)
  | hold h hi hs =>
    obtain ⟨rfl, -⟩ := List.cons.inj hj
    cases hi
  | overflow h hi hs =>
    obtain ⟨-, hj⟩ := List.cons.inj hj
    cases between with
    | nil =>
      obtain ⟨rfl, -⟩ := List.cons.inj hj
      cases hi
    | cons cause between =>
      obtain ⟨rfl, rfl⟩ := List.cons.inj (show cause :: (between ++ .committed c b :: older) = _ from hj)
      have hsince := pending_since h fun hm => hf (List.mem_cons_of_mem _ hm)
      obtain ⟨hlarge, hadd, -⟩ := overflow_of_consume hs
      rw [gathered_intake hi, traffic_cons]
      omega
  | flush h =>
    obtain ⟨-, hj⟩ := List.cons.inj hj
    cases between with
    | nil => cases (List.cons.inj hj).1
    | cons cause between =>
      obtain ⟨rfl, -⟩ := List.cons.inj hj
      exact absurd (List.mem_cons_self ..) hf

end Prompted

end

/-! ## Runs -/

section
variable {threshold : UInt64} {c : ContextId} {l : Ledger} {m m' : Moment}

theorem prompted_of_silent : ∀ {entries : List Entry}, entries.filterMap (Entry.feeding? c) = [] →
    entries.filterMap (Entry.commit? c) = [] → Prompted threshold c entries
  | [], _, _ => .nil
  | e :: older, hf, hc => by
    have hf := List.filterMap_eq_nil_iff.mp hf
    have hc := List.filterMap_eq_nil_iff.mp hc
    refine .pass (prompted_of_silent ?_ ?_) (hf e (List.mem_cons_self ..)) (hc e (List.mem_cons_self ..))
    · exact List.filterMap_eq_nil_iff.mpr fun e he => hf e (List.mem_cons_of_mem _ he)
    · exact List.filterMap_eq_nil_iff.mpr fun e he => hc e (List.mem_cons_of_mem _ he)

namespace Ledger

def Prompts (l : Ledger) : Prop :=
  ∀ c < l.contexts.size, Prompted (l.context c).cache.threshold c l.journal

theorem cacheAfter_journal (hf : Fed l) (hc : c < l.contexts.size) :
    cacheAfter (l.context c).cache.threshold c l.journal = (l.context c).cache :=
  congrArg Prod.fst (hf.fed c hc)

theorem Prompts.post {e : Entry} (h : l.Prompts) (hs : e.Silent) : (l.post e).Prompts := by
  intro c hc
  refine .pass (h c hc) (e.feeding?_eq_none (fun d => by simp [hs.intake]) (hs.flushed c)) ?_
  unfold Entry.commit?
  split
  · exact absurd rfl (hs.committed _ _)
  · rfl

theorem Prompts.unmoved {l' : Ledger} (h : l.Prompts) (hf : Fed l) (hu : Unmoved l l') : l'.Prompts := by
  intro c hc
  rw [hu.journal]
  rcases Nat.lt_or_ge c l.contexts.size with hlt | hge
  · rw [hu.threshold c hlt]
    exact h c hlt
  · exact prompted_of_silent (hf.fresh c hge).1 (hf.fresh c hge).2

theorem threshold_of_contexts {l' : Ledger} {cache : Cache} (h : l'.contexts = l.contexts.modify c fun ctx => { ctx with cache })
    (hc : cache.threshold = (l.context c).cache.threshold) (j : ContextId) :
    (l'.context j).cache.threshold = (l.context j).cache.threshold := by
  rw [context, h, Table.get_modify]
  split
  · rename_i hj
    exact hj.1 ▸ hc
  · rfl

theorem Prompts.takeIn {e : Entry} {d : Delta} (h : l.Prompts) (hf : Fed l) (hc : c < l.contexts.size)
    (hi : e.intake? = some (c, d)) : (l.takeIn e c d).1.Prompts := by
  have hcontexts := contexts_takeIn l e c d
  have hfeeding : ∀ j, c ≠ j → e.feeding? j = none := fun j hj =>
    e.feeding?_eq_none (fun d' hd => hj (by simp_all)) fun he => by subst he; cases hi
  have hcommit : ∀ j b, c ≠ j → (Entry.committed c b).commit? j = none := fun j b hj => if_neg hj
  intro j hj
  have hlt : j < l.contexts.size := by rwa [hcontexts, Table.size_modify] at hj
  rw [threshold_of_contexts hcontexts (Cache.threshold_consume _ _)]
  have hcache := cacheAfter_journal hf hc
  unfold Ledger.takeIn
  dsimp only
  split
  · rename_i hs
    by_cases hcj : c = j
    · subst hcj
      exact .hold (h c hc) hi (by rwa [hcache])
    · exact .pass (h j hlt) (hfeeding j hcj) (e.commit?_of_intake hi j)
  · rename_i b hs
    by_cases hcj : c = j
    · subst hcj
      exact .overflow (h c hc) hi (by rwa [hcache])
    · exact .pass (.pass (h j hlt) (hfeeding j hcj) (e.commit?_of_intake hi j)) rfl (hcommit j b hcj)

theorem Prompts.drain (h : l.Prompts) (hf : Fed l) (hc : c < l.contexts.size) : (l.drain c).Prompts := by
  intro j hj
  have hlt : j < l.contexts.size := lt_of_lt_of_eq hj (Table.size_modify ..)
  have hcontexts : (l.drain c).contexts = l.contexts.modify c fun ctx => { ctx with cache := (l.context c).cache.take.1 } :=
    rfl
  rw [threshold_of_contexts hcontexts rfl]
  by_cases hcj : c = j
  · subst hcj
    have hflush := Prompted.flush (h c hc)
    rw [cacheAfter_journal hf hc] at hflush
    exact hflush
  · have hfeeding : (Entry.flushed c).feeding? j = none := if_neg hcj
    exact .pass (.pass (h j hlt) hfeeding rfl) rfl (if_neg hcj)

end Ledger

theorem Flow.prompts (h : Flow m m') (hf : Fed m.1) (hp : m.1.Prompts) : m'.1.Prompts := by
  cases h with
  | unmoved h => exact hp.unmoved hf h
  | note h => exact hp.post h
  | intake hc hr hi hd => exact hp.takeIn hf hc hi
  | drain hc hr => exact hp.drain hf hc
  | consume b hr => exact fun c hc => .pass (hp c hc) rfl rfl
  | receive h => exact hp
  | hear h => exact hp

theorem Flows.prompts (h : Flows m m') (hf : Fed m.1) (hp : m.1.Prompts) : m'.1.Prompts := by
  induction h with
  | refl => exact hp
  | tail hm hflow ih => exact hflow.prompts (Flows.fed hm hf) ih

theorem Run.prompts {h : Holdings} (hr : Run h l) : l.Prompts :=
  hr.flows.prompts fed_empty fun _ hc => absurd hc (Nat.not_lt_zero _)

end

/-- In every run, whatever charges trackers make meanwhile and whatever is cut off. A context has committed because of
amounts at most as often as what it took in, less what is pending, pays for, if every such commit costs one more than
the threshold. Every such commit is at least that large. A commit comes right after the one amount, or the one
request, that has brought it about, and between two commits without a request in between at least one more than the
threshold is taken in. -/
theorem commits_paid_by_traffic {h : Holdings} {l : Ledger} (hr : Run h l) {c : ContextId} (hc : c < l.contexts.size) :
    let threshold := (l.context c).cache.threshold.toNat
    (overflows c l.journal).length * (threshold + 1) + (l.context c).pending.magnitude ≤ traffic (gathered c l.journal) ∧
    (∀ b ∈ overflows c l.journal, threshold + 1 ≤ b.magnitude ∧ b ≠ 0) ∧
    (∀ newer b older, l.journal = newer ++ .committed c b :: older →
      ∃ cause rest, older = cause :: rest ∧ (cause = .flushed c ∨ ∃ d, cause.intake? = some (c, d))) ∧
    (∀ newer b' between b older, l.journal = newer ++ .committed c b' :: between ++ .committed c b :: older →
      .flushed c ∉ between → threshold + 1 ≤ traffic (gathered c between)) := by
  intro threshold
  have hprompted := hr.prompts c hc
  have hpaid := hprompted.paid
  rw [cacheAfter_journal hr.fed hc] at hpaid
  refine ⟨hpaid, fun b hb => ?_, fun newer b older hj => ?_, fun newer b' between b older hj hf => ?_⟩
  · have hlarge := hprompted.overflow_large hb
    refine ⟨hlarge, fun hz => ?_⟩
    rw [hz] at hlarge
    exact absurd hlarge (Nat.not_succ_le_zero _)
  · exact (Prompted.tail (hj ▸ hprompted)).2
  · rw [List.append_assoc] at hj
    exact Prompted.apart (Prompted.tail (hj ▸ hprompted)).1 hf

def exceeded : Ledger := (entered.perform 0 (.charge 0 5)).1

theorem run_exceeded : Run { accounts := [⟨⟨1⟩, 0⟩] } exceeded :=
  run_entered.act (t := 0) (a := .charge 0 5) (by decide) (by decide) (show 0 < Table.size _ by decide)

theorem commits_paid_by_traffic_exceeded :
    overflows 0 exceeded.journal = [12] ∧ traffic (gathered 0 exceeded.journal) = 12 ∧
      (overflows 0 exceeded.journal).length * ((exceeded.context 0).cache.threshold.toNat + 1) +
        (exceeded.context 0).pending.magnitude ≤ traffic (gathered 0 exceeded.journal) :=
  ⟨by decide, by decide, (commits_paid_by_traffic run_exceeded (c := 0) (by decide)).1⟩

end HeapLedger
