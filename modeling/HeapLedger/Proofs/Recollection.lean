import HeapLedger.Proofs.Resolutions
import HeapLedger.Proofs.Scan
import HeapLedger.Proofs.Written

/-!
# What is remembered, and how often sources are asked

A ledger recollects what its journal tells: a slot that a thread is bound to remembers what was resolved last in it, and
a thread what was found last outside of slots. So every source is asked as often as the journal tells. Binding makes a
slot forget, unbinding takes it from the thread, and nothing else but a resolution has anything to do with it.
-/

namespace HeapLedger

open Ledger

theorem Aside.recalls {α : Type} {f : Ledger → Ledger × α} (hf : Aside f) (l : Ledger) :
    (f l).1.recalls = l.recalls := (congrArg Ledger.recalls (hf.fst_eq l) :)

theorem Entry.Idle.resolution? {e : Entry} (h : e.Idle) : e.resolution? = none := by
  cases e <;> first | rfl | cases h

theorem Entry.Plain.idle {e : Entry} (h : e.Plain) : e.Idle := by
  cases e <;> trivial

theorem Entry.Outgoing.idle {e : Entry} (h : e.Outgoing) : e.Idle := by
  cases e <;> trivial

namespace Ledger

/-- What is remembered is what the journal tells. -/
structure Recollects (l : Ledger) : Prop where
  recalls : l.recalls = true
  bound : ∀ t w, (l.thread t).worker = some w → BoundLast t w l.journal
  slot : ∀ t w, (l.thread t).worker = some w →
    (l.slot w.service w.slot).cached = (lastSince t w.service l.journal).bind Resolution.answer?
  recent : ∀ t, (l.thread t).recent =
    (lastFound t l.journal).bind fun r => r.context.map (⟨r.service, r.key, ·⟩)
  sourced : Sourced l.journal

/-- Sources were asked as often as new entries tell. -/
structure Advances (l l' : Ledger) : Prop where
  services_size : l.services.size ≤ l'.services.size
  lookups : ∃ new, l'.journal = new ++ l.journal ∧
    ∀ s < l.services.size, (l'.service s).lookups = (l.service s).lookups + asked (·.service = s) l.journal new

structure Idles (l l' : Ledger) : Prop where
  services_size : l.services.size ≤ l'.services.size
  threads_size : l.threads.size ≤ l'.threads.size
  lookups : ∀ s < l.services.size, (l'.service s).lookups = (l.service s).lookups
  worker : ∀ t, (l'.thread t).worker = (l.thread t).worker
  recent : ∀ t, (l'.thread t).recent = (l.thread t).recent
  slot : ∀ s i, l'.slot s i = l.slot s i
  recalls : l'.recalls = l.recalls
  journal : Grows Entry.Idle l l'

section
variable {l l' l'' : Ledger}

theorem Advances.refl (l : Ledger) : Advances l l := ⟨Nat.le_refl _, [], rfl, fun _ _ => rfl⟩

theorem Advances.trans (h : Advances l l') (h' : Advances l' l'') : Advances l l'' := by
  obtain ⟨new, hnew, hlookups⟩ := h.lookups
  obtain ⟨newer, hnewer, hlookups'⟩ := h'.lookups
  refine ⟨Nat.le_trans h.services_size h'.services_size, newer ++ new, ?_, fun s hs => ?_⟩
  · rw [hnewer, hnew, List.append_assoc]
  · rw [hlookups' s (Nat.lt_of_lt_of_le hs h.services_size), hlookups s hs, hnew, asked_append]
    omega

/-! ## Steps that have nothing to do with it -/

theorem Idles.refl (l : Ledger) : Idles l l :=
  ⟨Nat.le_refl _, Nat.le_refl _, fun _ _ => rfl, fun _ => rfl, fun _ => rfl, fun _ _ => rfl, rfl, grows_of_eq rfl⟩

theorem Idles.trans (h : Idles l l') (h' : Idles l' l'') : Idles l l'' where
  services_size := Nat.le_trans h.services_size h'.services_size
  threads_size := Nat.le_trans h.threads_size h'.threads_size
  lookups s hs := (h'.lookups s (Nat.lt_of_lt_of_le hs h.services_size)).trans (h.lookups s hs)
  worker t := (h'.worker t).trans (h.worker t)
  recent t := (h'.recent t).trans (h.recent t)
  slot s i := (h'.slot s i).trans (h.slot s i)
  recalls := h'.recalls.trans h.recalls
  journal := h.journal.trans h'.journal

theorem idles_post {e : Entry} (he : e.Idle) : Idles l (l.post e) := { Idles.refl l with journal := grows_post he }

theorem idles_modifyThread (t : ThreadId) {f : Thread → Thread} (hw : ∀ th, (f th).worker = th.worker)
    (hr : ∀ th, (f th).recent = th.recent) : Idles l (l.modifyThread t f) :=
  { Idles.refl l with
    threads_size := Nat.le_of_eq (threads_size_modifyThread ..).symm
    worker := fun j => Table.get_modify_of_eq _ t j Thread.worker hw
    recent := fun j => Table.get_modify_of_eq _ t j Thread.recent hr }

theorem idles_modifyService (s : ServiceId) {f : Service → Service} (hl : ∀ svc, (f svc).lookups = svc.lookups)
    (hs : ∀ svc, (f svc).slots = svc.slots) : Idles l (l.modifyService s f) :=
  { Idles.refl l with
    services_size := Nat.le_of_eq (services_size_modifyService ..).symm
    lookups := fun j _ => Table.get_modify_of_eq _ s j Service.lookups hl
    slot := fun j i => Table.get_modify_of_eq _ s j (fun svc : Service => svc.slots.get i) fun svc => by rw [hs] }

theorem idles_setInHook (t : ThreadId) (b : Bool) : Idles l (l.setInHook t b) :=
  idles_modifyThread t (fun _ => rfl) fun _ => rfl

theorem idles_aside {α : Type} {f : Ledger → Ledger × α} (hf : Aside f) (l : Ledger) : Idles l (f l).1 where
  services_size := Nat.le_of_eq (congrArg Table.size (hf.services l).symm)
  threads_size := Nat.le_of_eq (congrArg Table.size (hf.threads l).symm)
  lookups s _ := by rw [service, hf.services]; rfl
  worker t := by rw [thread, hf.threads]; rfl
  recent t := by rw [thread, hf.threads]; rfl
  slot s i := by rw [slot, service, hf.services]; rfl
  recalls := hf.recalls l
  journal := grows_of_eq (hf.journal l)

theorem idles_addService (source : TaskSource) (slots : Nat) (i : TrackerId) (threshold : UInt64) :
    Idles l (l.addService source slots i threshold).1 := by
  have hspares : Spares 0 (fun _ => False) fun l => l.addService source slots i threshold := spares_addService ..
  have hsteady := hspares.steady l
  have hadd : ∃ svc, (l.addService source slots i threshold).1 = { l with services := l.services.add svc } := by
    unfold addService
    split <;> exact ⟨_, rfl⟩
  have hslot : ∀ s n, (l.addService source slots i threshold).1.slot s n = l.slot s n := fun s n =>
    hspares.slot (l := l) fun hs => hs.elim
  have hsize := hsteady.services_size
  obtain ⟨svc, hsvc⟩ := hadd
  rw [hsvc] at hslot hsize ⊢
  -- the new service comes after all others
  refine { Idles.refl l with services_size := hsize, slot := hslot, lookups := fun s hs => ?_ }
  show ((l.services.add svc).get s).lookups = _
  rw [Table.get_add, if_neg (Nat.ne_of_lt hs)]
  rfl

theorem Basic.idles {α : Type} {t : ThreadId} {f : Ledger → Ledger × α} (h : Basic t α f) (l : Ledger) :
    Idles l (f l).1 := by
  cases h with
  | post he => exact idles_post he.idle
  | thread hf => exact idles_modifyThread t hf.worker hf.recent
  | addService source slots i threshold => exact idles_addService source slots i threshold
  | aside hf => exact idles_aside hf l

/-- A step of a charge is a resolution, or has nothing to do with it. -/
theorem Core.idles_or {α : Type} {t : ThreadId} {S : ServiceId → Prop} {f : Ledger → Ledger × α} (h : Core t S α f) :
    (∀ l, Idles l (f l).1) ∨ ∃ s k, S s ∧ ∀ l, (f l).1 = (l.resolve t s k).1 := by
  cases h with
  | basic h => exact .inl (Basic.idles h)
  | charged | carried => exact .inl fun _ => idles_post trivial
  | thread hf => exact .inl fun _ => idles_modifyThread t hf.worker hf.recent
  | skip s => exact .inl fun _ => idles_modifyService s (fun _ => rfl) fun _ => rfl
  | carry carry =>
    exact .inl fun _ => idles_modifyThread (f := fun th => { th with carry }) t (fun _ => rfl) fun _ => rfl
  | @resolve s hs k => exact .inr ⟨s, k, hs, fun _ => rfl⟩

/-- Where no service can charge, nothing is resolved. -/
theorem idles_built {α : Type} {t : ThreadId} {f : Ledger → Ledger × α} (h : Built veil (Core t fun _ => False) f)
    (l : Ledger) : Idles l (f l).1 := by
  refine h.keeps (I := Idles l) (fun hf l' hl => ?_) (fun _ j b hl => hl.trans (idles_setInHook j b)) l (.refl l)
  rcases Core.idles_or hf with hidles | ⟨_, _, hs, -⟩
  · exact hl.trans (hidles l')
  · exact hs.elim

theorem Recollects.idles (h : Recollects l) (hi : Idles l l') : Recollects l' := by
  obtain ⟨new, hnew, hidle⟩ := hi.journal
  refine ⟨hi.recalls.trans h.recalls, fun t w hw => ?_, fun t w hw => ?_, fun t => ?_, ?_⟩
  · rw [hnew]
    exact (h.bound t w (hi.worker t ▸ hw)).append fun s i hm => hidle _ hm
  · rw [hi.slot, hnew, lastSince_append hidle]
    exact h.slot t w (hi.worker t ▸ hw)
  · rw [hi.recent, hnew, lastFound_append hidle]
    exact h.recent t
  · rw [hnew]
    exact sourced_idle h.sourced fun e he => (hidle e he).resolution?

theorem advances_of_grows (hs : l.services.size ≤ l'.services.size) (hj : Grows (·.resolution? = none) l l')
    (hl : ∀ s < l.services.size, (l'.service s).lookups = (l.service s).lookups) : Advances l l' := by
  obtain ⟨new, hnew, hidle⟩ := hj
  refine ⟨hs, new, hnew, fun s hs => ?_⟩
  rw [asked_eq_zero fun r hr => absurd (hidle _ hr) nofun]
  exact hl s hs

theorem Idles.advances (hi : Idles l l') : Advances l l' :=
  advances_of_grows hi.services_size (hi.journal.mono fun _ => Entry.Idle.resolution?) hi.lookups

end

/-! ## Resolutions -/

section
variable {l : Ledger} {t : ThreadId} {s : ServiceId} {k : TaskKey}

/-- A service makes use of what the journal tells. -/
theorem Recollects.reused (h : Recollects l) : l.reused t s k = recalled t s (l.boundSlot t s) k l.journal := by
  unfold Ledger.reused remembered recalled
  rw [if_pos h.recalls]
  cases hb : l.boundSlot t s with
  | some i =>
    have hslot : (l.slot s i).cached = (lastSince t s l.journal).bind Resolution.answer? :=
      h.slot t ⟨s, i⟩ (worker_of_boundSlot hb)
    dsimp only
    rw [Slot.recall?_eq, hslot]
    cases lastSince t s l.journal with
    | none => rfl
    | some p =>
      unfold Resolution.answer?
      cases hc : p.context <;> simp [hc]
  | none =>
    dsimp only
    rw [Thread.recall?, h.recent]
    cases lastFound t l.journal with
    | none => rfl
    | some p => cases hc : p.context <;> simp [hc]

theorem Recollects.repeated (h : Recollects l) :
    (l.resolution t s k).Repeated l.journal ↔ (l.reused t s k).isSome := by
  rw [h.reused]
  exact repeats_iff

/-- The source is asked unless something is remembered. -/
theorem lookups_resolve (h : Recollects l) {j : ServiceId} (hj : j < l.services.size) :
    ((l.resolve t s k).1.service j).lookups = (l.service j).lookups +
      Entry.asks (·.service = j) l.journal (.resolved (l.resolution t s k)) := by
  have hmemorize : ∀ (l : Ledger) answer, ((l.memorize t s k answer).service j).lookups = (l.service j).lookups := by
    intro l answer
    rw [memorize_eq]
    split
    · exact Table.get_modify_of_eq _ s j Service.lookups fun _ => rfl
    · split <;> rfl
  have hasks : Entry.asks (·.service = j) l.journal (.resolved (l.resolution t s k)) =
      if s = j ∧ l.reused t s k = none then 1 else 0 :=
    if_congr (and_congr_right fun _ => by rw [h.repeated, Option.not_isSome_iff_eq_none]) rfl rfl
  show ((l.seek t s k).1.service j).lookups = _
  rw [hasks]
  cases hr : l.reused t s k with
  | some c =>
    rw [seek_of_reused hr]
    simp
  | none =>
    rw [seek_of_not_reused hr, hmemorize, lookup, service_modifyService]
    by_cases hs : s = j
    · subst hs
      simp [hj]
    · simp [hs]

theorem Recollects.advances_resolve (h : Recollects l) : Advances l (l.resolve t s k).1 :=
  ⟨(steady_seek s k).services_size, [.resolved (l.resolution t s k)], journal_resolve k, fun _ => lookups_resolve h⟩

theorem recall_of_reused {c : ContextId} (h : l.reused t s k = some c) : l.remembered t s k = some c := by
  unfold Ledger.reused at h
  split at h
  · exact h
  · cases h

theorem cached_of_reused {c : ContextId} {i : Nat} (h : l.reused t s k = some c) (hb : l.boundSlot t s = some i) :
    (l.slot s i).cached = some (k, c) := by
  have hrecall := recall_of_reused h
  rw [remembered, hb] at hrecall
  exact Slot.recall?_eq_some_iff.mp hrecall

theorem recent_of_reused {c : ContextId} (h : l.reused t s k = some c) (hb : l.boundSlot t s = none) :
    (l.thread t).recent = some ⟨s, k, c⟩ := by
  have hrecall := recall_of_reused h
  rw [remembered, hb] at hrecall
  obtain ⟨⟨s', k', c'⟩, hrecent, hc⟩ := Option.bind_eq_some_iff.mp hrecall
  split at hc
  · rename_i hk
    obtain ⟨rfl, rfl⟩ : s' = s ∧ k' = k := hk
    obtain rfl : c' = c := Option.some.inj hc
    exact hrecent
  · cases hc

theorem cached_resolve (he : Exclusive l) {i : Nat} (hb : l.boundSlot t s = some i) :
    ((l.resolve t s k).1.slot s i).cached = (l.resolution t s k).answer? := by
  have hanswer : (l.resolution t s k).answer? = (l.resolved t s k).map (k, ·) := rfl
  show ((l.seek t s k).1.slot s i).cached = _
  rw [hanswer, resolved]
  cases hr : l.reused t s k with
  | some c =>
    rw [seek_of_reused hr, cached_of_reused hr hb]
    rfl
  | none =>
    have hbound : (l.lookup t s k).1.boundSlot t s = some i := hb
    have hlookup : Steady l (l.lookup t s k).1 := steady_modifyService s fun _ => ⟨rfl, fun _ => ⟨rfl, id⟩⟩
    obtain ⟨hs, hi⟩ := he.lt (worker_of_boundSlot hb)
    have hs' := Nat.lt_of_lt_of_le hs hlookup.services_size
    have hi' := Nat.lt_of_lt_of_eq hi (hlookup.slots_size s hs).symm
    rw [seek_of_not_reused hr, memorize_eq]
    simp only [hbound]
    rw [slot_modifySlot hs' hi', if_pos ⟨rfl, rfl⟩]
    cases l.taskContext t s k <;> simp [Slot.cached]

theorem slot_resolve (he : Exclusive l) {j : ThreadId} {w : Worker} (hw : (l.thread j).worker = some w)
    (hn : ¬ (t = j ∧ s = w.service)) : (l.resolve t s k).1.slot w.service w.slot = l.slot w.service w.slot := by
  -- the resolution comes to a slot of its own service only, and nobody else is bound to that
  refine (spares_resolve (t := t) (S := (· = s)) rfl k).slot fun hs hw' => hn ⟨?_, hs.symm⟩
  exact he.alone t j w hw' hw

theorem recent_memorize (ht : t < l.threads.size) (answer : Option ContextId) (j : ThreadId) :
    ((l.memorize t s k answer).thread j).recent =
      if t = j ∧ l.boundSlot t s = none ∧ answer.isSome then answer.map (⟨s, k, ·⟩) else (l.thread j).recent := by
  unfold memorize
  cases hb : l.boundSlot t s with
  | some i => exact (if_neg fun hn => by cases hn.2.1).symm
  | none =>
    cases answer with
    | none => exact (if_neg fun hn => by cases hn.2.2).symm
    | some c =>
      dsimp only
      rw [thread_modifyThread]
      by_cases hj : t = j
      · rw [if_pos ⟨hj, ht⟩, if_pos ⟨hj, rfl, rfl⟩]
        rfl
      · rw [if_neg fun hn => hj hn.1, if_neg fun hn => hj hn.1]

theorem recent_resolve (ht : t < l.threads.size) (j : ThreadId) :
    ((l.resolve t s k).1.thread j).recent =
      if t = j ∧ l.boundSlot t s = none ∧ (l.resolved t s k).isSome then (l.resolved t s k).map (⟨s, k, ·⟩)
      else (l.thread j).recent := by
  show ((l.seek t s k).1.thread j).recent = _
  rw [resolved]
  cases hr : l.reused t s k with
  | some c =>
    rw [seek_of_reused hr]
    split
    · rename_i hj
      obtain ⟨rfl, hb, -⟩ := hj
      exact recent_of_reused hr hb
    · rfl
  | none =>
    rw [seek_of_not_reused hr]
    exact recent_memorize (l := (l.lookup t s k).1) ht (l.taskContext t s k) j

theorem worker_resolve (j : ThreadId) : ((l.resolve t s k).1.thread j).worker = (l.thread j).worker :=
  (steady_seek s k).worker j

theorem recalls_resolve : (l.resolve t s k).1.recalls = l.recalls := by
  obtain ⟨f, g, -, -, heq⟩ := l.seek_eq t s k
  exact (congrArg Ledger.recalls heq).trans rfl

theorem cached_eq_lastSince {j : ThreadId} {w : Worker} (hw : (l.thread j).worker = some w) (h : Recollects l)
    (he : Exclusive l) : ((l.resolve t s k).1.slot w.service w.slot).cached =
      (lastSince j w.service (.resolved (l.resolution t s k) :: l.journal)).bind Resolution.answer? := by
  by_cases hj : t = j ∧ s = w.service
  · obtain ⟨rfl, rfl⟩ := hj
    have hb : l.boundSlot t w.service = some w.slot := by simp [boundSlot, hw]
    have hlast : lastSince t w.service (.resolved (l.resolution t w.service k) :: l.journal) =
        some (l.resolution t w.service k) := if_pos ⟨rfl, rfl⟩
    rw [cached_resolve he hb, hlast]
    rfl
  · have hlast : lastSince j w.service (.resolved (l.resolution t s k) :: l.journal) =
        lastSince j w.service l.journal := if_neg hj
    rw [slot_resolve he hw hj, hlast]
    exact h.slot j w hw

theorem recent_eq_lastFound (h : Recollects l) (ht : t < l.threads.size) (j : ThreadId) :
    ((l.resolve t s k).1.thread j).recent =
      (lastFound j (.resolved (l.resolution t s k) :: l.journal)).bind fun r => r.context.map (⟨r.service, r.key, ·⟩) := by
  rw [recent_resolve ht, lastFound_resolved]
  by_cases hf : t = j ∧ l.boundSlot t s = none ∧ (l.resolved t s k).isSome
  · have hfound : (l.resolution t s k).thread = j ∧ (l.resolution t s k).slot = none ∧
        (l.resolution t s k).context.isSome := hf
    rw [if_pos hf, if_pos hfound]
    rfl
  · have hfound : ¬ ((l.resolution t s k).thread = j ∧ (l.resolution t s k).slot = none ∧
        (l.resolution t s k).context.isSome) := hf
    rw [if_neg hf, if_neg hfound]
    exact h.recent j

/-- What a resolution comes to is remembered as the journal tells it. -/
theorem Recollects.resolve (h : Recollects l) (he : Exclusive l) (ht : t < l.threads.size) :
    Recollects (l.resolve t s k).1 := by
  have hjournal := journal_resolve (l := l) (t := t) (s := s) k
  refine ⟨recalls_resolve.trans h.recalls, fun j w hw => ?_, fun j w hw => ?_, fun j => ?_, ?_⟩
  · rw [worker_resolve] at hw
    have hnew : ∀ s' i, Entry.bound j s' i ∉ [.resolved (l.resolution t s k)] := fun s' i hm => by simp at hm
    rw [hjournal]
    exact (h.bound j w hw).append hnew
  · rw [worker_resolve] at hw
    rw [hjournal]
    exact cached_eq_lastSince hw h he
  · rw [hjournal]
    exact recent_eq_lastFound h ht j
  · rw [hjournal]
    refine ⟨fun r hr => ?_, h.sourced⟩
    obtain rfl : l.resolution t s k = r := Option.some.inj hr
    show (l.reused t s k).or (l.taskContext t s k) = _
    rw [h.reused]
    rfl

end

end Ledger

end HeapLedger
