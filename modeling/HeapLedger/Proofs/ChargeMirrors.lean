import HeapLedger.Proofs.ChargeBuilt
import HeapLedger.Proofs.Mirror

/-!
# Charges do not depend on what is remembered

As long as sources keep their promises, what is remembered for a key is what the source has under it. So
a key is resolved to the same context whether or not use is made of what is remembered, and whatever slot
it is remembered in, and every charge goes where it goes without.
-/

namespace HeapLedger

open Ledger

variable {w : Bool}

namespace Ledger

variable {t : ThreadId} {s : ServiceId} {k : TaskKey}

/-! ## Resolution -/

section
variable {l : Ledger}

/-- What is remembered for the key is what the source has. -/
theorem reused_eq_taskContext (h : Traced l) (hk : ∀ c, Asked s k c l.journal → l.taskContext t s k = some c)
    {c : ContextId} (hc : l.reused t s k = some c) : l.remembered t s k = some c ∧ l.taskContext t s k = some c := by
  unfold reused at hc
  split at hc
  · exact ⟨hc, hk c (h.remembered hc)⟩
  · cases hc

theorem seek_eq_taskContext (h : Traced l) (hk : ∀ c, Asked s k c l.journal → l.taskContext t s k = some c) :
    (l.seek t s k).2 = l.taskContext t s k := by
  cases hc : l.reused t s k with
  | some c => rw [seek_of_reused hc, (reused_eq_taskContext h hk hc).2]
  | none => rw [seek_of_not_reused hc]

theorem modifySlot_congr {i : Nat} {f : Slot → Slot} (h : f ((l.service s).slots.get i) = (l.service s).slots.get i) :
    l.modifySlot s i f = l := by
  have hslots : (l.service s).slots.modify i f = (l.service s).slots := by
    rw [Table.modify_congr (g := fun slot => slot) h, Table.modify_id]
  have hservices : (l.services.modify s fun svc => { svc with slots := svc.slots.modify i f }) = l.services := by
    rw [Table.modify_congr (g := fun svc => svc) (i := s), Table.modify_id]
    exact congrArg (fun slots => { l.service s with slots }) hslots
  exact congrArg (fun services => { l with services }) hservices

theorem memorize_remembered {c : ContextId} (h : l.remembered t s k = some c) : l.memorize t s k (some c) = l := by
  unfold remembered at h
  rw [memorize_eq]
  cases hi : l.boundSlot t s with
  | some i =>
    rw [hi] at h
    obtain ⟨hkey, hcontext⟩ := Slot.cached_eq_some_iff.mp (Slot.recall?_eq_some_iff.mp h)
    refine modifySlot_congr ?_
    show { (l.service s).slots.get i with key := some k, context := some c } = (l.service s).slots.get i
    rw [← hkey, ← hcontext]
    rfl
  | none =>
    rw [hi] at h
    obtain ⟨e, he, hk⟩ := Option.bind_eq_some_iff.mp h
    split at hk
    · rename_i hk'
      obtain ⟨rfl, rfl⟩ := hk'
      obtain rfl := Option.some.inj hk
      have hthreads : (l.threads.modify t fun th => { th with recent := some e }) = l.threads := by
        rw [Table.modify_congr (g := fun th => th) (i := t), Table.modify_id]
        exact congrArg (fun recent => { l.thread t with recent }) he.symm
      exact congrArg (fun threads => { l with threads }) hthreads
    · cases hk

/-- What is remembered is forgotten, when everything is. -/
theorem forget_memorize_true (answer : Option ContextId) :
    (l.memorize t s k answer).forget true = l.forget true := by
  rw [memorize_eq]
  cases l.boundSlot t s with
  | some i => exact forget_modifyService_of_eq l s fun _ => rfl
  | none =>
    cases answer with
    | some c => exact forget_modifyThread_of_eq l t fun _ => rfl
    | none => rfl

theorem boundSlot_forget_false (l : Ledger) (t : ThreadId) (s : ServiceId) :
    (l.forget false).boundSlot t s = l.boundSlot t s := by
  unfold boundSlot
  rw [thread_forget]
  rfl

theorem forget_memorize_false (answer : Option ContextId) :
    (l.memorize t s k answer).forget false = (l.forget false).memorize t s k answer := by
  rw [memorize_eq, memorize_eq, boundSlot_forget_false]
  cases l.boundSlot t s with
  | some i => exact forget_modifyService l s fun _ => rfl
  | none =>
    cases answer with
    | some c => exact forget_modifyThread l t fun _ => rfl
    | none => rfl

theorem forget_lookup : (l.lookup t s k).1.forget w = l.forget w :=
  forget_modifyService_of_eq l s fun _ => rfl

/-- A key that is looked up and a key that is remembered leave the same behind. -/
theorem forget_seek (h : Traced l) (hk : ∀ c, Asked s k c l.journal → l.taskContext t s k = some c) :
    (l.seek t s k).1.forget w =
      if w then l.forget w else (l.forget w).memorize t s k (l.taskContext t s k) := by
  cases hc : l.reused t s k with
  | some c =>
    obtain ⟨hrem, hknown⟩ := reused_eq_taskContext h hk hc
    rw [seek_of_reused hc, hknown]
    cases w with
    | true => rfl
    | false =>
      show l.forget false = (l.forget false).memorize t s k (some c)
      rw [← forget_memorize_false, memorize_remembered hrem]
  | none =>
    rw [seek_of_not_reused hc]
    cases w with
    | true => exact (forget_memorize_true _).trans forget_lookup
    | false =>
      show ((l.lookup t s k).1.memorize t s k _).forget false = (l.forget false).memorize t s k _
      rw [forget_memorize_false, forget_lookup]

theorem post_memorize (answer : Option ContextId) (e : Entry) :
    (l.memorize t s k answer).post e = (l.post e).memorize t s k answer := by
  have hslot : (l.post e).boundSlot t s = l.boundSlot t s := rfl
  unfold memorize
  rw [hslot]
  cases l.boundSlot t s with
  | some i => rfl
  | none => cases answer <;> rfl

theorem Traced.memorize (h : Traced l) {answer : Option ContextId}
    (ha : ∀ c, answer = some c → Asked s k c l.journal) : Traced (l.memorize t s k answer) := by
  rw [memorize_eq]
  cases l.boundSlot t s with
  | some i =>
    refine ⟨fun s' i' k' c' hc => ?_, h.recent⟩
    dsimp only [modifySlot] at hc
    rw [service_modifyService] at hc
    split at hc
    · rename_i hs
      rw [Table.get_modify] at hc
      split at hc
      · obtain ⟨hkey, hcontext⟩ := Slot.cached_eq_some_iff.mp hc
        obtain ⟨-, -, rfl⟩ := Option.map_eq_some_iff.mp hkey
        exact hs.1 ▸ ha c' hcontext
      · exact h.slot s' i' k' c' hc
    · exact h.slot s' i' k' c' hc
  | none =>
    cases answer with
    | none => exact h
    | some c =>
      refine ⟨h.slot, fun t' e he => ?_⟩
      dsimp only at he
      rw [thread_modifyThread] at he
      split at he
      · obtain rfl := Option.some.inj he
        exact ha c rfl
      · exact h.recent t' e he

theorem Traced.lookup (h : Traced l) : Traced (l.lookup t s k).1 := h.modifyService s fun _ => rfl

/-- After a key was resolved, the answer is in the journal, and that is all that is newly remembered. -/
theorem Traced.resolve (h : Traced l) : Traced (l.resolve t s k).1 := by
  unfold Ledger.resolve
  cases hc : l.reused t s k with
  | some c =>
    rw [seek_of_reused hc]
    exact h.post _
  | none =>
    rw [seek_of_not_reused hc]
    dsimp only
    rw [post_memorize]
    exact (h.lookup.post _).memorize fun c hc => ⟨_, List.mem_cons_self .., rfl, rfl, hc⟩

end

theorem mirrors_resolve : Mirrors w fun l => l.resolve t s k where
  grows l := by
    show l.journal <:+ _ :: (l.seek t s k).1.journal
    rw [journal_seek]
    exact List.suffix_cons ..
  twin {l l'} h hkept := by
    have hknown : l'.taskContext t s k = l.taskContext t s k := 
      (h.read (·.taskContext t s k) fun l => taskContext_forget l t s k).symm
    have hk : ∀ c, Asked s k c l.journal → l.taskContext t s k = some c := by
      rintro c ⟨r, hr, hservice, hkey, hc⟩
      have hr' : r ∈ resolutions (l.seek t s k).1.journal := by rwa [journal_seek]
      exact ((List.pairwise_cons.mp hkept).1 r hr' hservice hkey c hc).1
    have hk' : ∀ c, Asked s k c l'.journal → l'.taskContext t s k = some c := fun c hc =>
      hknown.trans (hk c (h.asked.mp hc))
    have hseek : (l.seek t s k).1.forget w = (l'.seek t s k).1.forget w := by
      rw [forget_seek h.left hk, forget_seek h.right hk', hknown, h.same]
    have hanswer : (l.seek t s k).2 = (l'.seek t s k).2 := by
      rw [seek_eq_taskContext h.left hk, seek_eq_taskContext h.right hk', hknown]
    have hsource : (l.service s).source = (l'.service s).source :=
      h.read (fun l => (l.service s).source) fun l => source_forget l s
    have hslot : (if w then none else l.boundSlot t s) = if w then none else l'.boundSlot t s :=
      h.read (fun l => if w then none else l.boundSlot t s) fun l => by
        cases w with
        | true => rfl
        | false => exact boundSlot_forget_false l t s
    have hcontext : l.context = l'.context := h.read Ledger.context fun _ => rfl
    refine ⟨⟨?_, h.left.resolve, h.right.resolve, fun r hr => ?_⟩, hanswer⟩
    · unfold resolve
      dsimp only
      rw [forget_post _ rfl, forget_post _ rfl, hseek, hsource, hslot, hknown, hcontext, hanswer]
    · rcases List.mem_cons.mp hr with rfl | hr
      · exact seek_eq_taskContext h.left hk
      · rw [journal_seek] at hr
        exact h.known r hr

/-! ## All other steps -/

theorem mirrored_countSkip (s : ServiceId) : Mirrored w (·.countSkip s) :=
  mirrored_modifyService s (fun _ => rfl) fun _ => rfl

theorem mirrored_setInHook (t : ThreadId) (b : Bool) : Mirrored w (·.setInHook t b) :=
  mirrored_modifyThread t (fun _ => rfl) fun _ => rfl

theorem mirrors_guarded {α : Type} (t : ThreadId) {f : Ledger → Ledger × α} (hf : Mirrors w f) :
    Mirrors w fun l => l.guarded t f :=
  (mirrored_setInHook t true).seq (hf.bind fun a => (mirrored_setInHook t false).answer a)

theorem mirrors_addService (source : TaskSource) (slots : Nat) (i : TrackerId) (threshold : UInt64) :
    Mirrors w fun l => l.addService source slots i threshold := by
  have hadd : ∀ svc : Service, (∀ i, (svc.slots.get i).cached = none) → Mirrored w fun l =>
      { l with services := l.services.add svc } := by
    intro svc hnone
    refine .of_forget (fun l => ({ l with services := l.services.add (svc.forget w) }, ()))
      (fun l => ?_) (fun _ => List.suffix_refl _) (fun _ => rfl) fun {l} h => ⟨fun s i k c hc => ?_, h.recent⟩
    · exact congrArg (fun services => (({ l.forget w with services } : Ledger), ())) (Table.map_add ..).symm
    · have hc : (((l.services.add svc).get s).slots.get i).cached = some (k, c) := hc
      rw [Table.get_add] at hc
      split at hc
      · rw [hnone i] at hc
        cases hc
      · exact h.slot s i k c hc
  have hempty : ∀ i, ((⟨List.replicate slots {}⟩ : Table Slot).get i).cached = none := by
    intro i
    rcases Table.get_mem (⟨List.replicate slots {}⟩ : Table Slot) i with h | h
    · rw [List.eq_of_mem_replicate h]
      rfl
    · rw [h]
      rfl
  have hsize : ∀ l : Ledger, (l.forget w).services.size = l.services.size := fun l => Table.size_map ..
  unfold addService
  by_cases hslots : slots ≤ maxSlots
  · simp only [hslots, if_true]
    exact (Mirrors.read (w := w) (·.services.size) hsize fun n =>
      (hadd { source, threshold, threadTracker := i, slots := ⟨List.replicate slots {}⟩ } hempty).answer
        (.ok n : Except BuildError ServiceId) :)
  · simp only [hslots, if_false]
    exact (hadd { source, threshold, threadTracker := i } fun _ => rfl).answer
      (.error .capacityOverflow : Except BuildError ServiceId)

theorem veil_forget (l : Ledger) : (l.forget w).veil = l.veil := by
  have hservices : (l.services.map (·.forget w)).map Service.veil = l.services.map Service.veil :=
    Table.map_map_of_eq _ fun _ => rfl
  have hthreads : (l.threads.map (·.forget w)).map Thread.veil = l.threads.map Thread.veil :=
    Table.map_map_of_eq _ fun _ => rfl
  unfold veil forget
  simp only [hservices, hthreads]

end Ledger

/-! ## Whatever is built -/

variable {α : Type} {t : ThreadId} {f : Ledger → Ledger × α}

theorem Entry.Plain.forget {e : Entry} (he : e.Plain) : e.forget w = some e := by
  unfold Entry.forget
  split
  · cases he
  · cases he
  · cases he
  · cases he
  · rfl

theorem Entry.Plain.resolution {e : Entry} (he : e.Plain) : e.resolution? = none := by
  cases e with
  | resolved => cases he
  | _ => rfl

theorem Tame.mirrored {f : Thread → Thread} (hf : Tame f) : Mirrored w (·.modifyThread t f) := by
  refine mirrored_modifyThread t (fun th => ?_) hf.recent
  have hforget := hf th th.inHook th.holdsGuard th.carry (th.forget w).worker (th.forget w).binding (th.forget w).recent
  exact (congrArg (Thread.forget w) (hf.eq_with th)).trans hforget.symm

theorem Aside.mirrors (hf : Aside f) : Mirrors w f := by
  refine .frame (fun l => (hf l _ _ _ _).trans ?_) hf.services hf.threads hf.journal
  unfold Ledger.forget
  rw [hf.services, hf.threads, hf.journal]

theorem Basic.mirrors (h : Basic t α f) : Mirrors w f := by
  cases h with
  | post he => exact mirrored_post he.forget he.resolution
  | thread hf => exact hf.mirrored
  | addService source slots i threshold => exact mirrors_addService source slots i threshold
  | aside hf => exact hf.mirrors

theorem Core.mirrors {S : ServiceId → Prop} (h : Core t S α f) : Mirrors w f := by
  cases h with
  | basic h => exact h.mirrors
  | charged | carried => exact mirrored_post rfl rfl
  | thread hf => exact hf.mirrored
  | skip s => exact mirrored_countSkip s
  | carry carry => exact mirrored_modifyThread t (fun _ => rfl) fun _ => rfl
  | resolve _ k => exact mirrors_resolve

theorem Built.mirrors {P : StepKind} (hP : ∀ {α : Type} {f : Ledger → Ledger × α}, P α f → Mirrors w f)
    (h : Built veil P f) : Mirrors w f := by
  induction h with
  | step h => exact hP h
  | done a => exact .done a
  | bind hf hg ihf ihg => exact ihf.bind ihg
  | read v hv hg ih => exact .read v (fun l => by rw [← hv, veil_forget, hv]) ih
  | guarded t hf hg ihf ihg =>
    exact (Mirrors.read (w := w) (·.inHook t) (inHook_forget · t) fun inHook =>
      .ite inHook ihg (mirrors_guarded t ihf) :)

theorem Built.mirrors_outer (h : Built veil (Outer t) f) : Mirrors w f :=
  (h.mono veil_veil Outer.built).mirrors Core.mirrors

theorem Handling.mirrors (h : Handling t α f) : Mirrors w f := by
  cases h with
  | outer h => exact (Outer.built h).mirrors Core.mirrors
  | count s => exact mirrored_modifyService s (fun _ => rfl) fun _ => rfl
  | report => exact mirrored_post rfl rfl
  | blocks hf => exact hf.mirrors

end HeapLedger
