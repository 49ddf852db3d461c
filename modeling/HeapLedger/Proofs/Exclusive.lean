import HeapLedger.Proofs.Crew

/-!
# Slots stay exclusive

A binding that is made or given back at once is made or given back in single steps. Whatever else a thread does comes
to no slot but its own. So slots stay exclusive, whoever does what, and a service may be dropped as soon as nobody
needs it.
-/

namespace HeapLedger

open Ledger

namespace Crew

section
variable {c c' : Crew} {t : ThreadId} {r r' : Option Worker}

theorem Exclusive.anchored (h : c.Exclusive) (t : ThreadId) : c.ledger.Anchored t := fun w hw => by
  obtain ⟨hworker, hs⟩ := h.held t w hw
  exact ⟨hworker, lt_of_bound (h.bound_of_refers (.inl hworker) hs)⟩

/-! ## Many steps at once -/

theorem Exclusive.ask (h : c.Exclusive) (hi : c.stage t = none) (ht : t < c.ledger.threads.size) {s : ServiceId}
    (hs : s ∉ c.gone) : (c.put t (c.ledger, some (c.ledger.firstStage t s))).Exclusive := by
  have hn : ∀ w, c.stage t ≠ some (.leavingKeyless w) := fun w hw => (by cases hi.symm.trans hw)
  have hkept : (c.stage t).bind Stage.kept = none := by rw [hi]; rfl
  unfold firstStage
  cases hw : (c.ledger.thread t).worker with
  | some w =>
    refine h.stay hkept.symm hn nofun (fun g w hg hb => ?_) fun g hg => ?_
    · obtain rfl := Option.some.inj hg
      cases hb
    · obtain rfl := Option.some.inj hg
      exact ⟨ht, nofun, congrArg Option.isSome hw⟩
  | none =>
    refine h.stay hkept.symm hn nofun (fun g w hg hb => ?_) fun g hg => ?_
    · obtain rfl := Option.some.inj hg
      cases hb
    · obtain rfl := Option.some.inj hg
      exact ⟨ht, fun s' hs' => Option.some.inj hs' ▸ hs, hw⟩

theorem Exclusive.give (h : c.Exclusive) (hi : c.stage t = none) {w : Worker}
    (hw : (c.ledger.thread t).binding = some w) : (c.put t (c.ledger, some (.leaving w))).Exclusive := by
  have hn : ∀ w, c.stage t ≠ some (.leavingKeyless w) := fun w hw => (by cases hi.symm.trans hw)
  have hkept : (c.stage t).bind Stage.kept = none := by rw [hi]; rfl
  refine h.stay hkept.symm hn nofun (fun g w hg hb => ?_) fun g hg => ?_
  · obtain rfl := Option.some.inj hg
    cases hb
  · obtain rfl := Option.some.inj hg
    exact ⟨lt_of_binding hw, fun s hs => Option.some.inj hs ▸ (h.held t w hw).2, hw⟩

theorem Exclusive.bindWorker (h : c.Exclusive) (hi : c.stage t = none) (ht : t < c.ledger.threads.size)
    {s : ServiceId} (hs : s ∉ c.gone) : Exclusive { c with ledger := (c.ledger.bindWorker t s).1 } := by
  obtain ⟨n, hn⟩ := strides_firstStage c.ledger t s
  have hdone := (h.ask hi ht hs).strides n stage_put
  rw [put_put, show (c.put t (c.ledger, some (c.ledger.firstStage t s))).ledger = c.ledger from rfl, hn] at hdone
  have hback := hdone.stride stage_put
  rwa [put_put, show ∀ l : Ledger, l.stride t (.told s (c.ledger.bindWorker t s).2) = (l, none) from fun _ => rfl,
    put_none hi] at hback

theorem Exclusive.unbindWorker (h : c.Exclusive) (hi : c.stage t = none) :
    Exclusive { c with ledger := (c.ledger.unbindWorker t).1 } := by
  cases hw : (c.ledger.thread t).binding with
  | none => rwa [unbindWorker_of_none hw]
  | some w =>
    have hdone := (h.give hi hw).strides 4 stage_put
    rwa [put_put, show (c.put t (c.ledger, some (.leaving w))).ledger = c.ledger from rfl, strides_leaving hw,
      put_none hi] at hdone

/-- A thread that is not at any stage refers to the slot it sits in. -/
theorem refers_of_idle (hi : c.stage t = none) (w : Worker) : c.Refers t w ↔ (c.ledger.thread t).worker = some w := by
  unfold Refers
  simp [hi]

/-- A thread does something by which nobody gets up or sits down, and comes to no slot but its own. -/
theorem Exclusive.quiet (h : c.Exclusive) (hi : c.stage t = none) {l : Ledger}
    (hworker : ∀ j, (l.thread j).worker = (c.ledger.thread j).worker)
    (hbinding : ∀ j ≠ t, (l.thread j).binding = (c.ledger.thread j).binding)
    (hheld : ∀ w, (l.thread t).binding = some w → (c.ledger.thread t).binding = some w)
    (hsize : c.ledger.threads.size ≤ l.threads.size)
    (hbound : ∀ s i, (l.slot s i).bound = (c.ledger.slot s i).bound)
    (hpaired : ∀ s i, (c.ledger.slot s i).Paired → (l.slot s i).Paired)
    (hslot : ∀ s i, (c.ledger.thread t).worker ≠ some ⟨s, i⟩ → l.slot s i = c.ledger.slot s i) :
    Exclusive { c with ledger := l } := by
  refine Turn.exclusive t (c.ledger.thread t).worker (c.ledger.thread t).worker ?_ h
  exact {
    gone := rfl
    size := hsize
    worker := fun j _ => hworker j
    binding := hbinding
    stage := fun _ _ => rfl
    before := refers_of_idle hi
    after := fun w => by
      rw [← hworker t]
      exact refers_of_idle (c := { c with ledger := l }) hi w
    slot := fun s i hne _ => hslot s i hne
    taken := fun _ hw => .inl hw
    freed := fun _ hw => .inl hw
    bound := fun w hw hs => (hbound _ _).trans (h.bound_of_refers (.inl hw) hs)
    held := fun w hw => by
      obtain ⟨hworker', hs⟩ := h.held t w (hheld w hw)
      exact ⟨(hworker t).trans hworker', hs⟩
    blank := fun g w hg => (by cases hi.symm.trans hg)
    keyless := fun w hg => (by cases hi.symm.trans hg)
    paired := fun s i hw => by
      refine .inl (hpaired s i ((h.paired s i).resolve_right ?_))
      rintro ⟨j, hj⟩
      have hfits : (c.ledger.thread j).binding = some ⟨s, i⟩ := (h.poised j _ hj).fits
      obtain rfl := h.alone t j _ (.inl hw) (.inl (h.held j _ hfits).1)
      cases hi.symm.trans hj
    poised := fun g hg => (by cases hi.symm.trans hg) }

theorem Exclusive.steady (h : c.Exclusive) (hi : c.stage t = none) {l : Ledger} (hs : Steady c.ledger l)
    (hslot : ∀ s i, (c.ledger.thread t).worker ≠ some ⟨s, i⟩ → l.slot s i = c.ledger.slot s i) :
    Exclusive { c with ledger := l } :=
  h.quiet hi hs.worker (fun j _ => hs.binding j) (fun _ hw => hs.binding t ▸ hw) hs.threads_size hs.bound hs.paired hslot

theorem Exclusive.spares {α : Type} {S : ServiceId → Prop} {f : Ledger → Ledger × α} (h : c.Exclusive)
    (hi : c.stage t = none) (hf : Spares t S f) : Exclusive { c with ledger := (f c.ledger).1 } :=
  h.steady hi (hf.steady _) fun _ _ hne => hf.slot fun _ => hne

/-- A binding that is forgotten is not held any more, but the thread sits in its slot still. -/
theorem Exclusive.forgetBinding (h : c.Exclusive) (hi : c.stage t = none) :
    Exclusive { c with ledger := (c.ledger.forgetBinding t).1 } := by
  have hthread : ∀ j, (c.ledger.forgetBinding t).1.thread j =
      if t = j ∧ t < c.ledger.threads.size then { c.ledger.thread j with binding := none } else c.ledger.thread j :=
    fun j => thread_modifyThread ..
  refine h.quiet hi (fun j => ?_) (fun j hj => ?_) (fun w hw => ?_) ?_ (fun _ _ => rfl) (fun _ _ => id) fun _ _ _ => rfl
  · rw [hthread]
    split <;> rfl
  · rw [hthread, if_neg fun he => hj he.1.symm]
  · rw [hthread] at hw
    split at hw
    · cases hw
    · exact hw
  · exact Nat.le_of_eq (threads_size_modifyThread ..).symm

theorem Exclusive.exit (h : c.Exclusive) (hi : c.stage t = none) :
    Exclusive { c with ledger := c.ledger.exit t } := by
  have hunwind := h.spares hi (unwindAll_spares t)
  have hunbind := hunwind.unbindWorker hi
  exact hunbind.spares hi (spares_rest t)

theorem Exclusive.perform (h : c.Exclusive) (hi : c.stage t = none) (ht : t < c.ledger.threads.size) {a : Action}
    (hs : ∀ s, a = .bindWorker s → s ∉ c.gone) : Exclusive { c with ledger := (c.ledger.perform t a).1 } := by
  cases hb : a.binds with
  | true =>
    cases a with
    | bindWorker s =>
      exact (toldOr_fst .bind .bound (c.ledger.bindWorker t s)).symm ▸ h.bindWorker hi ht (hs s rfl)
    | unbindWorker => exact h.unbindWorker hi
    | forgetBinding => exact h.forgetBinding hi
    | _ => cases hb
  | false =>
    by_cases he : a = .exit
    · subst he
      exact h.exit hi
    · exact h.spares hi (perform_spares hb he)

theorem Exclusive.newThread (h : c.Exclusive) : Exclusive { c with ledger := c.ledger.newThread.1 } := by
  have hi : c.stage c.ledger.threads.size = none := by
    cases hg : c.stage c.ledger.threads.size with
    | none => rfl
    | some g => exact absurd (h.poised _ g hg).lt (Nat.lt_irrefl _)
  exact h.steady hi (steady_newThread _) fun _ _ _ => rfl

theorem slot_dropService {l : Ledger} {s j : ServiceId} {i : Nat} :
    (l.dropService s).slot j i = if s = j then {} else l.slot j i := by
  unfold Ledger.dropService slot
  rw [service_modifyService]
  by_cases hj : s = j
  · subst hj
    rw [if_pos rfl]
    split
    · rfl
    · rename_i hs
      have hlt : ¬ s < l.services.size := fun hlt => hs ⟨rfl, hlt⟩
      rw [service, Table.get_of_size_le (Nat.le_of_not_lt hlt)]
      rfl
  · rw [if_neg fun he => hj he.1, if_neg hj]

/-- A service is dropped that nobody has a binding of, takes a slot of, or gives one back to. -/
theorem Exclusive.drop (h : c.Exclusive) {s : ServiceId}
    (hb : ∀ t w, (c.ledger.thread t).binding = some w → w.service ≠ s)
    (hg : ∀ t g, c.stage t = some g → g.service? ≠ some s) :
    Exclusive { c with ledger := c.ledger.dropService s, gone := s :: c.gone } where
  bound j hj i := by
    rw [slot_dropService, if_neg (List.ne_of_not_mem_cons hj).symm]
    exact h.bound j (List.not_mem_of_not_mem_cons hj) i
  alone := h.alone
  single := h.single
  held t w hw := by
    obtain ⟨hworker, hs⟩ := h.held t w hw
    exact ⟨hworker, List.not_mem_cons_of_ne_of_not_mem (hb t w hw) hs⟩
  free j hj i := by
    rw [slot_dropService, if_neg (List.ne_of_not_mem_cons hj).symm]
    exact h.free j (List.not_mem_of_not_mem_cons hj) i
  blank t g w hg' hw := by
    rw [slot_dropService]
    split
    · exact ⟨rfl, rfl⟩
    · exact h.blank t g w hg' hw
  keyless t w hg' := by
    rw [slot_dropService]
    split
    · rfl
    · exact h.keyless t w hg'
  paired j i := by
    rw [slot_dropService]
    split
    · exact .inl rfl
    · exact h.paired j i
  poised t g hg' := by
    have hpoised := h.poised t g hg'
    refine ⟨hpoised.lt, fun j hj => ?_, hpoised.fits.congr rfl rfl⟩
    have hne : j ≠ s := fun he => hg t g hg' (he ▸ hj)
    exact List.not_mem_cons_of_ne_of_not_mem hne (hpoised.served j hj)

end

theorem exclusive_empty : Exclusive {} where
  bound s _ i := ⟨fun h => (by cases h), fun ⟨_, h⟩ => (by rcases h with h | ⟨_, h, _⟩ <;> cases h)⟩
  alone _ _ _ h := by rcases h with h | ⟨_, h, _⟩ <;> cases h
  single _ _ _ h := by rcases h with h | ⟨_, h, _⟩ <;> cases h
  held _ _ h := by cases h
  free _ _ _ _ := ⟨rfl, rfl⟩
  blank _ _ _ h := by cases h
  keyless _ _ h := by cases h
  paired _ _ := .inl rfl
  poised _ _ h := by cases h

end Crew

/-! ## One action after the other -/

namespace Ledger

/-- Slots are exclusive, and no thread is taking one or giving one back. -/
def Exclusive (l : Ledger) : Prop := Crew.Exclusive { ledger := l }

section
variable {l l' : Ledger} {t : ThreadId}

theorem refers_iff {w : Worker} : Crew.Refers { ledger := l } t w ↔ (l.thread t).worker = some w :=
  Crew.refers_of_idle rfl w

theorem Exclusive.bound (h : Exclusive l) (s : ServiceId) (i : Nat) :
    (l.slot s i).bound = true ↔ ∃ t, (l.thread t).worker = some ⟨s, i⟩ :=
  (Crew.Exclusive.bound h s List.not_mem_nil i).trans (exists_congr fun _ => refers_iff)

theorem Exclusive.alone (h : Exclusive l) (t t' : ThreadId) (w : Worker) (hw : (l.thread t).worker = some w)
    (hw' : (l.thread t').worker = some w) : t = t' :=
  Crew.Exclusive.alone h t t' w (.inl hw) (.inl hw')

theorem Exclusive.held (h : Exclusive l) (t : ThreadId) (w : Worker) (hw : (l.thread t).binding = some w) :
    (l.thread t).worker = some w :=
  (Crew.Exclusive.held h t w hw).1

theorem Exclusive.lt (h : Exclusive l) {w : Worker} (hw : (l.thread t).worker = some w) :
    w.service < l.services.size ∧ w.slot < (l.service w.service).slots.size :=
  lt_of_bound ((h.bound w.service w.slot).mpr ⟨t, hw⟩)

theorem Exclusive.steady (h : Exclusive l) (hs : Steady l l')
    (hc : ∀ s i, (l.thread t).worker ≠ some ⟨s, i⟩ → l'.slot s i = l.slot s i) : Exclusive l' :=
  Crew.Exclusive.steady (t := t) h rfl hs hc

theorem Exclusive.spares {α : Type} {S : ServiceId → Prop} {f : Ledger → Ledger × α} (hf : Spares t S f)
    (h : Exclusive l) : Exclusive (f l).1 :=
  Crew.Exclusive.spares h rfl hf

theorem Exclusive.bindWorker (h : Exclusive l) (ht : t < l.threads.size) (s : ServiceId) :
    Exclusive (l.bindWorker t s).1 :=
  Crew.Exclusive.bindWorker h rfl ht List.not_mem_nil

theorem Exclusive.unbindWorker (h : Exclusive l) : Exclusive (l.unbindWorker t).1 := Crew.Exclusive.unbindWorker h rfl

theorem Exclusive.forgetBinding (h : Exclusive l) : Exclusive (l.forgetBinding t).1 :=
  Crew.Exclusive.forgetBinding h rfl

end

end Ledger

end HeapLedger
