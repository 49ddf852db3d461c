import HeapLedger.Proofs.Heard
import HeapLedger.Proofs.Recollection
import HeapLedger.Proofs.WorkerSlots

/-!
# How often sources are asked

In every run a source is asked once for each charge that comes to an active task whose context is not remembered, and for
nothing else. So a worker that stays with one task asks once if the task has a context, and every time if it has none.
-/

namespace HeapLedger

open Ledger

namespace Ledger

/-! ## Binding and unbinding -/

section
variable {l : Ledger} {t : ThreadId} {s : ServiceId} {i : Nat} {w : Worker}

theorem Recollects.bindSlot (h : Recollects l) (he : Exclusive l) (ht : t < l.threads.size) (hs : s < l.services.size)
    (hi : i < (l.service s).slots.size) (hb : (l.slot s i).bound = false) : Recollects (l.bindSlot t s i) := by
  have hjournal : (l.bindSlot t s i).journal = .notice (.workerBound i) :: .bound t s i :: l.journal := rfl
  have hworker : ∀ j w, ((l.bindSlot t s i).thread j).worker = some w →
      t = j ∧ w = ⟨s, i⟩ ∨ t ≠ j ∧ (l.thread j).worker = some w := by
    intro j w hw
    rw [thread_bindSlot ht] at hw
    split at hw
    · exact .inl ⟨‹_›, (Option.some.inj hw).symm⟩
    · exact .inr ⟨‹_›, hw⟩
  refine ⟨h.recalls, fun j w hw => ?_, fun j w hw => ?_, fun j => ?_, ⟨nofun, nofun, h.sourced⟩⟩
  · rcases hworker j w hw with ⟨rfl, rfl⟩ | ⟨hj, hw⟩
    · exact ⟨[.notice (.workerBound i)], l.journal, rfl, fun _ _ hm => by simp at hm⟩
    · have hnew : ∀ s' n, Entry.bound j s' n ∉ [.notice (.workerBound i), .bound t s i] := fun s' n hm => by
        simp [Ne.symm hj] at hm
      exact (h.bound j w hw).append hnew
  · rw [hjournal]
    rcases hworker j w hw with ⟨rfl, rfl⟩ | ⟨hj, hw⟩
    · have hlast : lastSince t s (.notice (.workerBound i) :: .bound t s i :: l.journal) = none := if_pos ⟨rfl, rfl⟩
      rw [slot_bindSlot hs hi, if_pos ⟨rfl, rfl⟩, hlast]
      rfl
    · -- the slot was free, so nobody else is bound to it
      have hlast : lastSince j w.service (.notice (.workerBound i) :: .bound t s i :: l.journal) =
          lastSince j w.service l.journal := if_neg fun hn => hj hn.1
      have hslot : ¬ (s = w.service ∧ i = w.slot) := by
        intro hn
        have hbound := (he.bound w.service w.slot).mpr ⟨j, hw⟩
        rw [← hn.1, ← hn.2, hb] at hbound
        cases hbound
      rw [slot_bindSlot hs hi, if_neg hslot, hlast]
      exact h.slot j w hw
  · have hrecent : ((l.bindSlot t s i).thread j).recent = (l.thread j).recent := by
      rw [thread_bindSlot ht]
      split <;> rfl
    rw [hrecent]
    exact h.recent j

theorem Recollects.unbindSlot (h : Recollects l) (he : Exclusive l) (hw : (l.thread t).worker = some w)
    (ht : t < l.threads.size) : Recollects (l.unbindSlot t w) := by
  obtain ⟨hs, hi⟩ := he.lt hw
  have hjournal : (l.unbindSlot t w).journal = .notice (.workerUnbound w.slot) :: l.journal := rfl
  have hworker : ∀ j w', ((l.unbindSlot t w).thread j).worker = some w' →
      w ≠ w' ∧ (l.thread j).worker = some w' := by
    intro j w' hw'
    rw [thread_unbindSlot ht] at hw'
    split at hw'
    · cases hw'
    · rename_i hj
      exact ⟨fun hn => hj (he.alone t j w hw (hn ▸ hw')), hw'⟩
  refine ⟨h.recalls, fun j w' hw' => ?_, fun j w' hw' => ?_, fun j => ?_, ⟨nofun, h.sourced⟩⟩
  · have hnew : ∀ s' n, Entry.bound j s' n ∉ [.notice (.workerUnbound w.slot)] := fun s' n hm => by simp at hm
    exact (h.bound j w' (hworker j w' hw').2).append hnew
  · obtain ⟨hne, hw'⟩ := hworker j w' hw'
    rw [slot_unbindSlot hs hi, if_neg hne]
    exact h.slot j w' hw'
  · have hrecent : ((l.unbindSlot t w).thread j).recent = (l.thread j).recent := by
      rw [thread_unbindSlot ht]
      split <;> rfl
    rw [hrecent]
    exact h.recent j

theorem lookups_modifySlot (f : Slot → Slot) (j : ServiceId) :
    ((l.modifySlot s i f).service j).lookups = (l.service j).lookups :=
  Table.get_modify_of_eq _ s j Service.lookups fun _ => rfl

theorem services_size_bindWorker : (l.bindWorker t s).1.services.size = l.services.size := by
  rw [bindWorker_eq]
  split
  · rfl
  · split
    · rfl
    · exact services_size_modifyService ..

theorem lookups_bindWorker (j : ServiceId) : ((l.bindWorker t s).1.service j).lookups = (l.service j).lookups := by
  rw [bindWorker_eq]
  split
  · rfl
  · split
    · rfl
    · exact lookups_modifySlot _ j

theorem lookups_unbindWorker (j : ServiceId) : ((l.unbindWorker t).1.service j).lookups = (l.service j).lookups := by
  rw [unbindWorker_eq]
  split
  · rfl
  · exact lookups_modifySlot _ j

theorem grows_bindWorker : Grows (·.resolution? = none) l (l.bindWorker t s).1 := by
  rw [bindWorker_eq]
  split
  · exact grows_of_eq rfl
  · split
    · exact grows_of_eq rfl
    · rename_i i _
      exact ⟨[.notice (.workerBound i), .bound t s i], rfl, by simp [Entry.resolution?]⟩

theorem grows_unbindWorker : Grows (·.resolution? = none) l (l.unbindWorker t).1 := by
  rw [unbindWorker_eq]
  split
  · exact grows_of_eq rfl
  · rename_i w _
    exact ⟨[.notice (.workerUnbound w.slot)], rfl, by simp [Entry.resolution?]⟩

theorem Recollects.bindWorker (h : Recollects l) (he : Exclusive l) (ht : t < l.threads.size) (s : ServiceId) :
    Recollects (l.bindWorker t s).1 := by
  rw [bindWorker_eq]
  split
  · exact h
  · split
    · exact h
    · rename_i i hfree
      obtain ⟨hs, hi⟩ := lt_of_freeSlot hfree
      exact h.bindSlot he ht hs hi (freeSlot?_eq_some_iff.mp hfree).2.1

theorem Recollects.unbindWorker (h : Recollects l) (he : Exclusive l) : Recollects (l.unbindWorker t).1 := by
  cases hb : (l.thread t).binding with
  | none => rwa [unbindWorker_of_none hb]
  | some w =>
    rw [unbindWorker_of_some hb]
    exact h.unbindSlot he (he.held t w hb) (lt_of_binding hb)

end

/-! ## Actions -/

structure Follows (l₀ : Ledger) (t : ThreadId) (l : Ledger) : Prop where
  exclusive : Exclusive l
  lt : t < l.threads.size
  recollects : Recollects l
  advances : Advances l₀ l

section
variable {l₀ l l' : Ledger} {t : ThreadId} {α : Type} {f : Ledger → Ledger × α}

theorem Follows.idles (h : Follows l₀ t l) (hi : Idles l l') (he : Exclusive l') : Follows l₀ t l' where
  exclusive := he
  lt := Nat.lt_of_lt_of_le h.lt hi.threads_size
  recollects := h.recollects.idles hi
  advances := h.advances.trans hi.advances

theorem Follows.setInHook (h : Follows l₀ t l) (j : ThreadId) (b : Bool) : Follows l₀ t (l.setInHook j b) := by
  have hsteady : Steady l (l.setInHook j b) :=
    steady_modifyThread (f := fun th => { th with inHook := b }) j (fun _ => rfl) fun _ => rfl
  exact h.idles (idles_setInHook j b) (h.exclusive.steady (t := j) hsteady fun _ _ _ => rfl)

theorem threads_size_seek (s : ServiceId) (k : TaskKey) : (l.seek t s k).1.threads.size = l.threads.size := by
  obtain ⟨f, g, -, -, heq⟩ := l.seek_eq t s k
  rw [heq]
  exact threads_size_modifyThread ..

theorem Follows.core {S : ServiceId → Prop} (h : Follows l₀ t l) (hf : Core t S α f) : Follows l₀ t (f l).1 := by
  have he : Exclusive (f l).1 := h.exclusive.spares (Core.spares hf)
  rcases Core.idles_or hf with hidles | ⟨s, k, -, heq⟩
  · exact h.idles (hidles l) he
  · rw [heq l] at he ⊢
    exact ⟨he, Nat.lt_of_lt_of_eq h.lt (threads_size_seek s k).symm, h.recollects.resolve h.exclusive h.lt,
      h.advances.trans h.recollects.advances_resolve⟩

theorem Follows.built {S : ServiceId → Prop} (h : Follows l₀ t l) (hf : Built veil (Core t S) f) :
    Follows l₀ t (f l).1 :=
  hf.keeps (I := Follows l₀ t) (fun hf _ h => h.core hf) (fun _ j b h => h.setInHook j b) l h

theorem Follows.handling (h : Follows l₀ t l) (hf : Built veil (Handling t) f) : Follows l₀ t (f l).1 := by
  refine hf.keeps (I := Follows l₀ t) (fun hf l h => ?_) (fun _ j b h => h.setInHook j b) l h
  have he := h.exclusive.spares (Handling.spares hf)
  cases hf with
  | outer hf => exact h.built (Outer.built hf)
  | count s => exact h.idles (idles_modifyService s (fun _ => rfl) fun _ => rfl) he
  | report => exact h.idles (idles_post trivial) he
  | blocks hf => exact h.idles (idles_aside hf l) he

theorem idles_guardThread : Idles l (l.guardThread t).1 := by
  unfold guardThread
  split
  · exact .refl l
  · exact idles_modifyThread t (fun _ => rfl) fun _ => rfl

theorem idles_unguardThread : Idles l (l.unguardThread t).1 := by
  unfold unguardThread
  split
  · exact idles_modifyThread t (fun _ => rfl) fun _ => rfl
  · exact .refl l

theorem idles_forgetBinding : Idles l (l.forgetBinding t).1 := idles_modifyThread t (fun _ => rfl) fun _ => rfl

theorem threads_size_bindWorker (s : ServiceId) : (l.bindWorker t s).1.threads.size = l.threads.size := by
  rw [bindWorker_eq]
  split
  · rfl
  · split
    · rfl
    · exact threads_size_modifyThread ..

theorem Follows.bindWorker (h : Follows l₀ t l) (s : ServiceId) : Follows l₀ t (l.bindWorker t s).1 where
  exclusive := h.exclusive.bindWorker h.lt s
  lt := Nat.lt_of_lt_of_eq h.lt (threads_size_bindWorker s).symm
  recollects := h.recollects.bindWorker h.exclusive h.lt s
  advances := h.advances.trans
    (advances_of_grows (Nat.le_of_eq services_size_bindWorker.symm) grows_bindWorker fun j _ => lookups_bindWorker j)

theorem Follows.unbindWorker (h : Follows l₀ t l) : Follows l₀ t (l.unbindWorker t).1 where
  exclusive := h.exclusive.unbindWorker
  lt := Nat.lt_of_lt_of_eq h.lt threads_size_unbindWorker.symm
  recollects := h.recollects.unbindWorker h.exclusive
  advances := h.advances.trans
    (advances_of_grows (Nat.le_of_eq services_size_unbindWorker.symm) grows_unbindWorker fun j _ => lookups_unbindWorker j)

theorem Follows.exit (h : Follows l₀ t l) : Follows l₀ t (l.exit t) := by
  have hunwind : Follows l₀ t (l.unwind t (l.depth t)) := h.built ((unwind_built t (l.depth t)).mono veil_veil Outer.built)
  have hunbind := hunwind.unbindWorker
  have hunguard := hunbind.idles (idles_unguardThread (t := t))
    (hunbind.exclusive.spares (unguardThread_spares (S := fun _ => True) t))
  exact hunguard.built (destroys_core t)

theorem Follows.perform (h : Follows l₀ t l) (a : Action) : Follows l₀ t (l.perform t a).1 := by
  cases hs : a.special with
  | false => exact h.handling (perform_built t hs)
  | true =>
    cases a with
    | exit => exact h.exit
    | guard => exact h.idles idles_guardThread (h.exclusive.spares (guardThread_spares (S := fun _ => True) t))
    | unguard => exact h.idles idles_unguardThread (h.exclusive.spares (unguardThread_spares (S := fun _ => True) t))
    | bindWorker s => exact (toldOr_fst .bind .bound (l.bindWorker t s)).symm ▸ h.bindWorker s
    | unbindWorker => exact h.unbindWorker
    | forgetBinding => exact h.idles idles_forgetBinding h.exclusive.forgetBinding
    | chargeBare s d => exact h.built (chargeBare_built (S := fun _ => True) t trivial d)
    | describe => exact h
    | _ => cases hs

end

/-! ## What a charge asks -/

/-- What a charge adds to lookups: one for its service, if the key of the active task is not remembered. -/
structure Consults (l : Ledger) (t : ThreadId) (s : ServiceId) (l' : Ledger) : Prop where
  task : ∀ k, l.activeTask t s = some k → ∀ j < l.services.size, (l'.service j).lookups =
    (l.service j).lookups + if j = s ∧ ¬ Repeats t s (l.boundSlot t s) k l.journal then 1 else 0
  thread : l.activeTask t s = none → ∀ j < l.services.size, (l'.service j).lookups = (l.service j).lookups

section
variable {l l' : Ledger} {t : ThreadId} {s : ServiceId} {d : Delta} {after : List Entry} {v : Verdict}

theorem Advances.consults (h : Advances l l') (hj : l'.journal = after ++ .charged v :: (l.inquiry t s ++ l.journal))
    (hn : ∀ e ∈ after, e.resolution? = none) : Consults l t s l' := by
  obtain ⟨new, hnew, hlookups⟩ := h.lookups
  obtain rfl : new = after ++ .charged v :: l.inquiry t s :=
    List.append_cancel_right (hnew.symm.trans (by rw [hj]; simp))
  have hafter : ∀ j, asked (·.service = j) (.charged v :: l.inquiry t s ++ l.journal) after = 0 := fun j =>
    asked_eq_zero fun r hr => absurd (hn _ hr) nofun
  have hasked : ∀ j, asked (·.service = j) l.journal (after ++ .charged v :: l.inquiry t s) =
      asked (·.service = j) l.journal (l.inquiry t s) := by
    intro j
    rw [asked_append, hafter, Nat.zero_add]
    exact Nat.zero_add _
  refine ⟨fun k hk j hlt => ?_, fun hk j hlt => ?_⟩
  · have hinquiry : l.inquiry t s = [.resolved (l.resolution t s k)] := by rw [inquiry, hk]; rfl
    rw [hlookups j hlt, hasked, hinquiry]
    exact congrArg (_ + ·) (if_congr (and_congr_left fun _ => eq_comm) rfl rfl)
  · have hinquiry : l.inquiry t s = [] := by rw [inquiry, hk]; rfl
    rw [hlookups j hlt, hasked, hinquiry]
    rfl

/-- Nothing is resolved after a charge has entered the hook and left it. -/
theorem charge_journal (hn : l.inHook t = false) : ∃ after v, (∀ e ∈ after, e.Idle) ∧ v.thread = t ∧ v.service = s ∧
    (l.charge t s d).1.journal = after ++ .charged v :: (l.inquiry t s ++ l.journal) := by
  obtain ⟨during, ⟨hjournal, -⟩, hduring⟩ := guarded_written (l := l) (t := t) (s := s) (d := d)
  have henter : (l.enterCharge t s d).1 = (l.guarded t (·.chargeInHook t s d)).1 := by
    simp [enterCharge, hn, guarded]
  -- whatever follows charges through no service
  obtain ⟨later, hlater, hidle⟩ :=
    (idles_built (afterCharge_built t (s := s) d (l.enterCharge t s d).2) (l.enterCharge t s d).1).journal
  rw [← charge_eq_afterCharge, henter, hjournal, ← List.append_assoc] at hlater
  refine ⟨later ++ during, _, fun e he => ?_, rfl, rfl, hlater⟩
  rcases List.mem_append.mp he with he | he
  · exact hidle e he
  · exact (hduring e he).idle

theorem Follows.consults (h : Follows l t l) (hn : l.inHook t = false) : Consults l t s (l.charge t s d).1 := by
  obtain ⟨after, v, hidle, -, -, hjournal⟩ := charge_journal (s := s) (d := d) hn
  exact (h.built (charge_built (S := fun _ => True) t trivial d)).advances.consults hjournal
    fun e he => (hidle e he).resolution?

theorem Follows.consults_chargeBare (h : Follows l t l) : Consults l t s (l.chargeBare t s d).1 := by
  obtain ⟨after, ⟨hjournal, -⟩, hafter⟩ := chargeBare_written (l := l) (t := t) (s := s) (d := d)
  exact (h.built (chargeBare_built (S := fun _ => True) t trivial d)).advances.consults hjournal
    fun e he => (hafter e he).idle.resolution?

end

/-! ## Resolutions are made for charges -/

def Attends (l l' : Ledger) : Prop := ∃ new, l'.journal = new ++ l.journal ∧ Attended new

section
variable {l l' l'' : Ledger} {t : ThreadId} {α : Type} {f : Ledger → Ledger × α}

theorem Attends.trans (h : Attends l l') (h' : Attends l' l'') : Attends l l'' := by
  obtain ⟨new, hnew, hattended⟩ := h
  obtain ⟨newer, hnewer, hattended'⟩ := h'
  exact ⟨newer ++ new, by rw [hnewer, hnew, List.append_assoc], hattended'.append hattended⟩

theorem attends_of_grows (h : Grows (·.resolution? = none) l l') : Attends l l' := by
  obtain ⟨new, hnew, hn⟩ := h
  exact ⟨new, hnew, attended_of_idle hn⟩

theorem Idles.attends (h : Idles l l') : Attends l l' :=
  attends_of_grows (h.journal.mono fun _ => Entry.Idle.resolution?)

/-- A charge resolves the key of the active task, if there is one, and nothing else. -/
theorem attends_of_written {s : ServiceId} {after : List Entry} {v : Verdict} (ht : v.thread = t) (hs : v.service = s)
    (hn : ∀ e ∈ after, e.resolution? = none)
    (hj : l'.journal = after ++ .charged v :: (l.inquiry t s ++ l.journal)) : Attends l l' := by
  have hinquiry : Attended (.charged v :: l.inquiry t s) := by
    unfold inquiry
    cases l.activeTask t s with
    | none => exact .other rfl .nil
    | some k => exact .charge ht hs .nil
  exact ⟨after ++ .charged v :: l.inquiry t s, by rw [hj]; simp, (attended_of_idle hn).append hinquiry⟩

theorem Outer.attends (h : Outer t α f) (l : Ledger) : Attends l (f l).1 := by
  cases h with
  | basic h => exact (Basic.idles h l).attends
  | settle s => exact (idles_built (settle_built t s) l).attends
  | charge s d =>
    cases hn : l.inHook t with
    | true => exact attends_of_grows (grows_of_eq (congrArg (·.1.journal) (charge_of_inHook hn s d)))
    | false =>
      obtain ⟨after, v, hidle, ht, hs, hjournal⟩ := charge_journal (s := s) (d := d) hn
      exact attends_of_written ht hs (fun e he => (hidle e he).resolution?) hjournal

theorem Handling.attends (h : Handling t α f) (l : Ledger) : Attends l (f l).1 := by
  cases h with
  | outer h => exact Outer.attends h l
  | count s => exact (idles_modifyService s (fun _ => rfl) fun _ => rfl).attends
  | report r => exact (idles_post (e := .reported r) trivial).attends
  | blocks hf => exact (idles_aside hf l).attends

theorem Ending.attends (h : Ending t α f) (l : Ledger) : Attends l (f l).1 := by
  cases h with
  | outer h => exact Outer.attends h l
  | endHome => exact (idles_modifyThread t (fun _ => rfl) fun _ => rfl).attends

theorem attends_built {P : StepKind} (hP : ∀ {α : Type} {f : Ledger → Ledger × α}, P α f → ∀ l, Attends l (f l).1)
    (h : Built veil P f) (l : Ledger) : Attends l (f l).1 :=
  h.keeps (I := Attends l) (fun hf l' hl => hl.trans (hP hf l')) (fun _ j b hl => hl.trans (idles_setInHook j b).attends)
    l (Idles.refl l).attends

theorem attends_exit : Attends l (l.exit t) := by
  have hunwind : Attends l (l.unwind t (l.depth t)) := attends_built Outer.attends (unwind_built t (l.depth t)) l
  have hunguard : Attends l (((l.unwind t (l.depth t)).unbindWorker t).1.unguardThread t).1 :=
    (hunwind.trans (attends_of_grows grows_unbindWorker)).trans idles_unguardThread.attends
  exact hunguard.trans (attends_built Ending.attends (destroys_built t) _)

theorem attends_perform (a : Action) : Attends l (l.perform t a).1 := by
  cases hs : a.special with
  | false => exact attends_built Handling.attends (perform_built t hs) l
  | true =>
    cases a with
    | exit => exact attends_exit
    | guard => exact idles_guardThread.attends
    | unguard => exact idles_unguardThread.attends
    | bindWorker s => exact (toldOr_fst .bind .bound (l.bindWorker t s)).symm ▸ attends_of_grows grows_bindWorker
    | unbindWorker => exact attends_of_grows grows_unbindWorker
    | forgetBinding => exact idles_forgetBinding.attends
    | chargeBare s d =>
      obtain ⟨after, ⟨hjournal, -⟩, hafter⟩ := chargeBare_written (l := l) (t := t) (s := s) (d := d)
      exact attends_of_written rfl rfl (fun e he => (hafter e he).idle.resolution?) hjournal
    | describe => exact (Idles.refl l).attends
    | _ => cases hs

theorem lookups_perform {a : Action} (ha : a.binds = true) (j : ServiceId) :
    ((l.perform t a).1.service j).lookups = (l.service j).lookups := by
  cases a with
  | bindWorker s => exact (toldOr_fst .bind .bound (l.bindWorker t s)).symm ▸ lookups_bindWorker j
  | unbindWorker => exact lookups_unbindWorker j
  | forgetBinding => rfl
  | _ => cases ha

theorem lookups_countSkip (s j : ServiceId) : ((l.countSkip s).service j).lookups = (l.service j).lookups :=
  Table.get_modify_of_eq _ s j Service.lookups fun _ => rfl

theorem idles_newThread : Idles l l.newThread.1 :=
  { Idles.refl l with
    threads_size := Nat.le_trans (Nat.le_succ _) (Nat.le_of_eq (Table.size_add ..).symm)
    worker := fun j => congrArg Thread.worker (thread_newThread l j)
    recent := fun j => congrArg Thread.recent (thread_newThread l j) }

theorem recollects_empty : Recollects {} where
  recalls := rfl
  bound _ _ h := by cases h
  slot _ _ h := by cases h
  recent _ := rfl
  sourced := trivial

end

end Ledger

/-! ## Runs -/

section
variable {h₀ h : Holdings} {l₀ l : Ledger}

theorem Ledger.Recollects.follows (hl : Recollects l) (he : Exclusive l) {t : ThreadId} (ht : t < l.threads.size) :
    Follows l t l := ⟨he, ht, hl, .refl l⟩

theorem Run.recollects (hr : Run h l) : Recollects l := by
  induction hr with
  | nil => exact recollects_empty
  | start _ ih => exact ih.idles idles_newThread
  | act hr ht _ _ ih => exact ((ih.follows hr.exclusive ht).perform _).recollects

theorem Since.run (hr : Run h₀ l₀) (hs : Since h₀ l₀ h l) : Run h l := by
  induction hs with
  | here => exact hr
  | start _ ih => exact .start ih
  | act _ ht he ha ih => exact .act ih ht he ha

theorem Since.advances (hr : Run h₀ l₀) (hs : Since h₀ l₀ h l) : Advances l₀ l := by
  induction hs with
  | here => exact .refl l₀
  | start _ ih => exact ih.trans idles_newThread.advances
  | act hs ht _ _ ih =>
    have hrun := hs.run hr
    exact ih.trans ((hrun.recollects.follows hrun.exclusive ht).perform _).advances

theorem Since.attends (hs : Since h₀ l₀ h l) : Attends l₀ l := by
  induction hs with
  | here => exact (Idles.refl l₀).attends
  | start _ ih => exact ih.trans idles_newThread.attends
  | act _ _ _ _ ih => exact ih.trans (attends_perform _)

/-- Each source is asked as often as the journal tells, and whatever the journal tells of that is made for charges. -/
theorem Since.asks (hr : Run h₀ l₀) (hs : Since h₀ l₀ h l) : ∃ since, l.journal = since ++ l₀.journal ∧ Attended since ∧
    Sourced (since ++ l₀.journal) ∧ ∀ s < l₀.services.size,
      (l.service s).lookups = (l₀.service s).lookups + asked (·.service = s) l₀.journal since := by
  obtain ⟨since, hsince, hlookups⟩ := (hs.advances hr).lookups
  obtain ⟨new, hnew, hattended⟩ := hs.attends
  obtain rfl : new = since := List.append_cancel_right (hnew.symm.trans hsince)
  exact ⟨new, hsince, hattended, hsince ▸ (hs.run hr).recollects.sourced, hlookups⟩

end

/-- From any point of a run on, a source is asked once for each resolution of a key that does not repeat what was resolved
before, and every resolution is made for a charge of the service on the thread. A charge outside of the hook that comes
to an active task asks once or not at all: not if the thread is bound to a slot of the service, be the binding held or
forgotten, and what the service has resolved on it last since then was the same key and had a context, or if the thread
is not bound, and what was found last on it outside of slots was the same key of the same service. A charge of the
thread itself, one that is refused inside the hook, binding, unbinding and entering a scope ask nobody, nor does
anything in the course of which nothing is charged through the service. So while a worker resolves one key only, its
service asks once at most on this thread if the source has a context, and if it has none and none is remembered, as often
as it resolves the key. -/
theorem lookups_exact {h₀ : Holdings} {l₀ : Ledger} (hr : Run h₀ l₀) :
    (∀ t < l₀.threads.size, ∀ s d,
      Consults l₀ t s (l₀.chargeBare t s d).1 ∧
      (l₀.inHook t = false → Consults l₀ t s (l₀.charge t s d).1) ∧
      (l₀.inHook t = true → ∀ j, ((l₀.charge t s d).1.service j).lookups = (l₀.service j).lookups)) ∧
    (∀ t w, (l₀.thread t).worker = some w → BoundLast t w l₀.journal) ∧
    (∀ t a, (a.binds = true ∨ ∃ account, a = .enter account) → ∀ s,
      ((l₀.perform t a).1.service s).lookups = (l₀.service s).lookups) ∧
    ∀ h l, Since h₀ l₀ h l → ∃ since, l.journal = since ++ l₀.journal ∧ Attended since ∧
      ∀ s < l₀.services.size,
        (l.service s).lookups = (l₀.service s).lookups + asked (·.service = s) l₀.journal since ∧
        ((∀ v, .charged v ∈ since → v.service ≠ s) → (l.service s).lookups = (l₀.service s).lookups) ∧
        ∀ t k, Stays t s k since →
          ((∀ r, .resolved r ∈ since → r.At t s → r.known.isSome) →
            ∃ n ≤ 1, (l.service s).lookups = (l₀.service s).lookups +
              (n + asked (fun r => r.service = s ∧ r.thread ≠ t) l₀.journal since)) ∧
          ((∀ r, .resolved r ∈ since → r.At t s → r.known = none) →
            (¬ ∃ p ∈ lastSince t s l₀.journal, p.key = k ∧ p.context.isSome) →
            (l.service s).lookups = (l₀.service s).lookups +
              ((resolutions since).countP (·.At t s) +
                asked (fun r => r.service = s ∧ r.thread ≠ t) l₀.journal since)) := by
  have hrecollects := hr.recollects
  refine ⟨fun t ht s d => ?_, hrecollects.bound, fun t a ha s => ?_, fun h l hs => ?_⟩
  · have hfollows := hrecollects.follows hr.exclusive ht
    refine ⟨hfollows.consults_chargeBare, hfollows.consults, fun hn j => ?_⟩
    rw [charge_of_inHook hn]
    exact lookups_countSkip s j
  · rcases ha with hb | ⟨account, rfl⟩
    · exact lookups_perform hb s
    · rfl
  · obtain ⟨since, hsince, hattended, hsourced, hlookups⟩ := hs.asks hr
    refine ⟨since, hsince, hattended, fun s hlt => ⟨hlookups s hlt, fun hn => ?_, fun t k hstays => ?_⟩⟩
    · rw [hlookups s hlt, hattended.asked_eq_zero hn, Nat.add_zero]
    · rw [hlookups s hlt, asked_split (t := t)]
      refine ⟨fun hk => ⟨asked (·.At t s) l₀.journal since, ?_, rfl⟩, fun hk ho => ?_⟩
      · rcases asked_of_present hsourced hstays hk with hzero | ⟨hone, -⟩
        · rw [hzero]
          exact Nat.zero_le 1
        · exact Nat.le_of_eq hone
      · rw [(asked_of_absent hsourced hstays hk ho).1]

/-! ## A worker at work -/

def seated : Ledger := (entered.perform 0 (.bindWorker 0)).1

theorem run_seated : Run { accounts := [⟨⟨1⟩, 0⟩] } seated :=
  run_entered.act (t := 0) (a := .bindWorker 0) (by decide) (by decide) (show 0 < Table.size _ by decide)

def laboring : Ledger := ((seated.perform 0 (.charge 0 2)).1.perform 0 (.charge 0 1)).1

theorem since_laboring : Since { accounts := [⟨⟨1⟩, 0⟩] } seated { accounts := [⟨⟨1⟩, 0⟩] } laboring := by
  have hfirst : Since { accounts := [⟨⟨1⟩, 0⟩] } seated { accounts := [⟨⟨1⟩, 0⟩] } (seated.perform 0 (.charge 0 2)).1 :=
    Since.act (t := 0) (a := .charge 0 2) .here (by decide) (by decide) (show 0 < Table.size _ by decide)
  exact hfirst.act (t := 0) (a := .charge 0 1) (by decide) (by decide) (show 0 < Table.size _ by decide)

theorem lookups_exact_seated :
    Run { accounts := [⟨⟨1⟩, 0⟩] } seated ∧ (seated.service 0).lookups = 1 ∧
    ((seated.charge 0 0 2).1.service 0).lookups = 1 + 1 ∧ (laboring.service 0).lookups = 1 + 1 := by
  obtain ⟨hcharge, -, -, hsince⟩ := lookups_exact run_seated
  have hbefore : (seated.service 0).lookups = 1 := by decide +kernel
  have hfirst := ((hcharge 0 (by decide) 0 2).2.1 (by decide)).task ⟨1⟩ (by decide +kernel) 0 (by decide)
  obtain ⟨since, hjournal, -, hall⟩ := hsince _ _ since_laboring
  obtain rfl : since = laboring.journal.take (laboring.journal.length - seated.journal.length) := by
    rw [hjournal]
    simp
  have hboth := (hall 0 (by decide)).1
  rw [if_pos (by decide +kernel), hbefore] at hfirst
  have hasked : asked (·.service = 0) seated.journal
      (laboring.journal.take (laboring.journal.length - seated.journal.length)) = 1 := by decide +kernel
  rw [hasked, hbefore] at hboth
  exact ⟨run_seated, hbefore, hfirst, hboth⟩

end HeapLedger
