import HeapLedger.Proofs.Erasure

/-!
# Resolutions in the journal

What is remembered of resolved tasks can be read off the journal. A slot remembers what was resolved last in it since the
thread was bound to it, if that had a context. A thread outside of its slot remembers the last resolution that had
a context, by whatever service it was. A resolution that repeats what is remembered asks nobody, any other one asks once.
-/

namespace HeapLedger

/-! ## What was resolved last -/

def Entry.Idle : Entry → Prop
  | resolved _ | bound .. => False
  | _ => True

/-- What a service has resolved last on a thread, since the thread was bound to a slot of the service. -/
def lastSince (t : ThreadId) (s : ServiceId) : List Entry → Option Resolution
  | [] => none
  | .bound t' s' _ :: older => if t' = t ∧ s' = s then none else lastSince t s older
  | .resolved r :: older => if r.thread = t ∧ r.service = s then some r else lastSince t s older
  | _ :: older => lastSince t s older

/-- A thread was bound to a slot, and was not bound again since. -/
def BoundLast (t : ThreadId) (w : Worker) (entries : List Entry) : Prop :=
  ∃ newer older, entries = newer ++ .bound t w.service w.slot :: older ∧ ∀ s i, .bound t s i ∉ newer

/-- What was resolved on a thread outside of a slot, and had a context. -/
def Entry.found? (t : ThreadId) : Entry → Option Resolution
  | resolved r => if r.thread = t ∧ r.slot = none ∧ r.context.isSome then some r else none
  | _ => none

/-- The last of these. -/
def lastFound (t : ThreadId) (older : List Entry) : Option Resolution := older.findSome? (Entry.found? t)

/-- A key is resolved to a context that is remembered: in a slot, if that is what was resolved there last, and outside
of it, if that is what was found last. -/
def Repeats (t : ThreadId) (s : ServiceId) (slot : Option Nat) (k : TaskKey) (older : List Entry) : Prop :=
  match slot with
  | some _ => ∃ p ∈ lastSince t s older, p.key = k ∧ p.context.isSome
  | none => ∃ p ∈ lastFound t older, p.service = s ∧ p.key = k

instance decidableRepeats (t : ThreadId) (s : ServiceId) (slot : Option Nat) (k : TaskKey) (older : List Entry) :
    Decidable (Repeats t s slot k older) :=
  match slot with
  | some _ => inferInstanceAs (Decidable (∃ p ∈ lastSince t s older, p.key = k ∧ p.context.isSome))
  | none => inferInstanceAs (Decidable (∃ p ∈ lastFound t older, p.service = s ∧ p.key = k))

def recalled (t : ThreadId) (s : ServiceId) (slot : Option Nat) (k : TaskKey) (older : List Entry) : Option ContextId :=
  match slot with
  | some _ => (lastSince t s older).bind fun p => if p.key = k then p.context else none
  | none => (lastFound t older).bind fun p => if p.service = s ∧ p.key = k then p.context else none

namespace Resolution

def Repeated (r : Resolution) (older : List Entry) : Prop := Repeats r.thread r.service r.slot r.key older

instance (r : Resolution) (older : List Entry) : Decidable (r.Repeated older) :=
  inferInstanceAs (Decidable (Repeats ..))

def answer? (r : Resolution) : Option (TaskKey × ContextId) := r.context.map (r.key, ·)

def At (r : Resolution) (t : ThreadId) (s : ServiceId) : Prop := r.thread = t ∧ r.service = s

instance (t : ThreadId) (s : ServiceId) : DecidablePred fun r : Resolution => r.At t s :=
  fun r => inferInstanceAs (Decidable (r.thread = t ∧ r.service = s))

end Resolution

section
variable {t : ThreadId} {s : ServiceId} {k : TaskKey} {slot : Option Nat} {e : Entry} {older : List Entry}

theorem BoundLast.append {w : Worker} {new : List Entry} (h : BoundLast t w older) (hn : ∀ s i, .bound t s i ∉ new) :
    BoundLast t w (new ++ older) := by
  obtain ⟨newer, first, hold, hnewer⟩ := h
  refine ⟨new ++ newer, first, by rw [hold, List.append_assoc], fun s i hm => ?_⟩
  rcases List.mem_append.mp hm with hm | hm
  · exact hn s i hm
  · exact hnewer s i hm

theorem lastSince_idle (h : e.Idle) : lastSince t s (e :: older) = lastSince t s older := by
  cases e <;> first | rfl | cases h

theorem lastFound_idle (h : e.Idle) : lastFound t (e :: older) = lastFound t older := by
  cases e <;> first | rfl | cases h

theorem lastSince_append {new : List Entry} (h : ∀ e ∈ new, e.Idle) :
    lastSince t s (new ++ older) = lastSince t s older := by
  induction new with
  | nil => rfl
  | cons e new ih =>
    exact (lastSince_idle (h e (List.mem_cons_self ..))).trans (ih fun e he => h e (List.mem_cons_of_mem _ he))

theorem lastFound_append {new : List Entry} (h : ∀ e ∈ new, e.Idle) :
    lastFound t (new ++ older) = lastFound t older := by
  induction new with
  | nil => rfl
  | cons e new ih =>
    exact (lastFound_idle (h e (List.mem_cons_self ..))).trans (ih fun e he => h e (List.mem_cons_of_mem _ he))

theorem lastFound_resolved (r : Resolution) : lastFound t (.resolved r :: older) =
    if r.thread = t ∧ r.slot = none ∧ r.context.isSome then some r else lastFound t older := by
  unfold lastFound
  rw [List.findSome?_cons]
  by_cases hr : r.thread = t ∧ r.slot = none ∧ r.context.isSome <;> simp [Entry.found?, hr]

theorem isSome_of_lastFound {p : Resolution} (h : lastFound t older = some p) : p.context.isSome := by
  obtain ⟨e, -, he⟩ := List.exists_of_findSome?_eq_some h
  unfold Entry.found? at he
  split at he
  · split at he
    · rename_i hr
      exact Option.some.inj he ▸ hr.2.2
    · cases he
  · cases he

theorem repeats_iff : Repeats t s slot k older ↔ (recalled t s slot k older).isSome := by
  unfold Repeats recalled
  cases slot with
  | some i =>
    cases lastSince t s older with
    | none => simp
    | some p => by_cases hp : p.key = k <;> simp [hp]
  | none =>
    cases hf : lastFound t older with
    | none => simp
    | some p =>
      have hp := isSome_of_lastFound hf
      by_cases hk : p.service = s ∧ p.key = k <;> simp [hk, hp]

end

/-! ## Lookups -/

def Entry.asks (q : Resolution → Prop) [DecidablePred q] (older : List Entry) : Entry → Nat
  | resolved r => if q r ∧ ¬ r.Repeated older then 1 else 0
  | _ => 0

/-- How often sources are asked for resolutions of some kind, each of which does not repeat what is remembered. -/
def asked (q : Resolution → Prop) [DecidablePred q] (older : List Entry) : List Entry → Nat
  | [] => 0
  | e :: new => e.asks q (new ++ older) + asked q older new

/-- Every resolution comes to what is remembered, and to what the source knows if nothing is. -/
def Sourced : List Entry → Prop
  | [] => True
  | e :: older => (∀ r ∈ e.resolution?, r.context = (recalled r.thread r.service r.slot r.key older).or r.known) ∧
    Sourced older

section
variable {q : Resolution → Prop} [DecidablePred q] {t : ThreadId} {s : ServiceId} {k : TaskKey}
  {e : Entry} {older new newer since : List Entry}

theorem asked_append : asked q older (newer ++ new) = asked q (new ++ older) newer + asked q older new := by
  induction newer with
  | nil => exact (Nat.zero_add _).symm
  | cons e newer ih =>
    show e.asks q (newer ++ new ++ older) + asked q older (newer ++ new) =
      e.asks q (newer ++ (new ++ older)) + asked q (new ++ older) newer + asked q older new
    rw [ih, List.append_assoc, Nat.add_assoc]

theorem asked_eq_zero (h : ∀ r, .resolved r ∈ new → ¬ q r) : asked q older new = 0 := by
  induction new with
  | nil => rfl
  | cons e new ih =>
    have hrest := ih fun r hr => h r (List.mem_cons_of_mem _ hr)
    have hfirst : e.asks q (new ++ older) = 0 := by
      cases e with
      | resolved r => exact if_neg fun hq => h r (List.mem_cons_self ..) hq.1
      | _ => rfl
    show e.asks q (new ++ older) + asked q older new = 0
    rw [hfirst, hrest]

theorem asked_split : asked (·.service = s) older new =
    asked (·.At t s) older new + asked (fun r => r.service = s ∧ r.thread ≠ t) older new := by
  induction new with
  | nil => rfl
  | cons e new ih =>
    have hfirst : e.asks (·.service = s) (new ++ older) =
        e.asks (·.At t s) (new ++ older) + e.asks (fun r => r.service = s ∧ r.thread ≠ t) (new ++ older) := by
      cases e with
      | resolved r =>
        unfold Entry.asks Resolution.At
        by_cases hs : r.service = s <;> by_cases ht : r.thread = t <;> simp [hs, ht]
      | _ => rfl
    unfold asked
    rw [hfirst, ih]
    omega

theorem sourced_idle (h : Sourced older) (hn : ∀ e ∈ new, e.resolution? = none) : Sourced (new ++ older) := by
  induction new with
  | nil => exact h
  | cons e new ih =>
    refine ⟨fun r hr => ?_, ih fun e he => hn e (List.mem_cons_of_mem _ he)⟩
    rw [hn e (List.mem_cons_self ..)] at hr
    cases hr

/-! ## Charges -/

/-- Every resolution is made for the charge that is written down next. -/
inductive Attended : List Entry → Prop
  | nil : Attended []
  | other {e : Entry} {older : List Entry} (he : e.resolution? = none) (h : Attended older) : Attended (e :: older)
  | charge {v : Verdict} {r : Resolution} {older : List Entry} (ht : v.thread = r.thread) (hs : v.service = r.service)
      (h : Attended older) : Attended (.charged v :: .resolved r :: older)

theorem Attended.append (h : Attended newer) (h' : Attended older) : Attended (newer ++ older) := by
  induction h with
  | nil => exact h'
  | other he _ ih => exact .other he ih
  | charge ht hs _ ih => exact .charge ht hs ih

theorem attended_of_idle (h : ∀ e ∈ new, e.resolution? = none) : Attended new := by
  induction new with
  | nil => exact .nil
  | cons e new ih =>
    exact .other (h e (List.mem_cons_self ..)) (ih fun e he => h e (List.mem_cons_of_mem _ he))

/-- Nothing is resolved where no charge is made. -/
theorem Attended.charged (h : Attended new) {r : Resolution} (hr : .resolved r ∈ new) :
    ∃ v, .charged v ∈ new ∧ v.thread = r.thread ∧ v.service = r.service := by
  induction h with
  | nil => cases hr
  | other he _ ih =>
    rcases List.mem_cons.mp hr with rfl | hr
    · cases he
    · obtain ⟨v, hv, h⟩ := ih hr
      exact ⟨v, List.mem_cons_of_mem _ hv, h⟩
  | @charge v _ _ ht hs _ ih =>
    rcases List.mem_cons.mp hr with hr | hr
    · cases hr
    · rcases List.mem_cons.mp hr with hr | hr
      · obtain rfl := Entry.resolved.inj hr
        exact ⟨v, List.mem_cons_self .., ht, hs⟩
      · obtain ⟨v, hv, h⟩ := ih hr
        exact ⟨v, List.mem_cons_of_mem _ (List.mem_cons_of_mem _ hv), h⟩

theorem Attended.asked_eq_zero (h : Attended new) (hn : ∀ v, .charged v ∈ new → v.service ≠ s) :
    asked (·.service = s) older new = 0 := by
  refine HeapLedger.asked_eq_zero fun r hm => ?_
  obtain ⟨v, hv, -, hservice⟩ := h.charged hm
  exact hservice ▸ hn v hv

/-! ## Between two switches -/

/-- A service resolves nothing on a thread but one key, always in a slot, and the thread is not bound anew. -/
structure Stays (t : ThreadId) (s : ServiceId) (k : TaskKey) (since : List Entry) : Prop where
  unbound : ∀ i, .bound t s i ∉ since
  only : ∀ r, .resolved r ∈ since → r.At t s → r.slot.isSome ∧ r.key = k

theorem Stays.tail (h : Stays t s k (e :: since)) : Stays t s k since where
  unbound i hi := h.unbound i (List.mem_cons_of_mem _ hi)
  only r hr := h.only r (List.mem_cons_of_mem _ hr)

theorem lastSince_cons (h : Stays t s k (e :: since)) (hr : ∀ r, e = .resolved r → ¬ r.At t s) :
    lastSince t s (e :: (since ++ older)) = lastSince t s (since ++ older) := by
  cases e with
  | resolved r => exact if_neg (hr r rfl)
  | bound t' s' i =>
    refine if_neg ?_
    rintro ⟨rfl, rfl⟩
    exact h.unbound i (List.mem_cons_self ..)
  | _ => rfl

theorem repeated_of_slot {r : Resolution} (hr : r.At t s) (hi : r.slot.isSome) :
    r.Repeated older ↔ ∃ p ∈ lastSince t s older, p.key = r.key ∧ p.context.isSome := by
  obtain ⟨rfl, rfl⟩ := hr
  obtain ⟨i, hi⟩ := Option.isSome_iff_exists.mp hi
  unfold Resolution.Repeated Repeats
  rw [hi]

theorem asks_of_not_at (h : ∀ r, e = .resolved r → ¬ r.At t s) : e.asks (·.At t s) older = 0 := by
  cases e with
  | resolved r => exact if_neg fun hr => h r rfl hr.1
  | _ => rfl

/-- As long as the source knows a context for the key, it is asked at most once. -/
theorem asked_of_present (hf : Sourced (since ++ older)) (hs : Stays t s k since)
    (hk : ∀ r, .resolved r ∈ since → r.At t s → r.known.isSome) :
    asked (·.At t s) older since = 0 ∨ asked (·.At t s) older since = 1 ∧
      ∃ p ∈ lastSince t s (since ++ older), p.key = k ∧ p.context.isSome := by
  -- once asked, the key is what the slot remembers, and every later resolution repeats it
  induction since with
  | nil => exact .inl rfl
  | cons e since ih =>
    have ih := ih hf.2 hs.tail fun r hr => hk r (List.mem_cons_of_mem _ hr)
    have hsum : asked (·.At t s) older (e :: since) = e.asks (·.At t s) (since ++ older) + asked (·.At t s) older since :=
      rfl
    by_cases hat : ∃ r, e = .resolved r ∧ r.At t s
    · obtain ⟨r, rfl, hr⟩ := hat
      obtain ⟨hslot, hkey⟩ := hs.only r (List.mem_cons_self ..) hr
      have hknown := hk r (List.mem_cons_self ..) hr
      have hcontext : r.context.isSome := by
        rw [hf.1 r rfl, Option.isSome_or, hknown, Bool.or_true]
      have hlast : ∃ p ∈ lastSince t s (.resolved r :: since ++ older), p.key = k ∧ p.context.isSome :=
        ⟨r, if_pos hr, hkey, hcontext⟩
      by_cases hrep : r.Repeated (since ++ older)
      · have hnone : (Entry.resolved r).asks (·.At t s) (since ++ older) = 0 := if_neg fun hq => hq.2 hrep
        rw [hsum, hnone, Nat.zero_add]
        exact ih.imp_right fun h => ⟨h.1, hlast⟩
      · have hone : (Entry.resolved r).asks (·.At t s) (since ++ older) = 1 := if_pos ⟨hr, hrep⟩
        -- nothing was asked before, or the key would repeat
        have hzero := ih.resolve_right fun h => hrep ((repeated_of_slot hr hslot).mpr (hkey ▸ h.2))
        rw [hsum, hone, hzero]
        exact .inr ⟨rfl, hlast⟩
    · have hnot : ∀ r, e = .resolved r → ¬ r.At t s := fun r he hr => hat ⟨r, he, hr⟩
      rw [hsum, asks_of_not_at hnot, Nat.zero_add, List.cons_append, lastSince_cons hs hnot]
      exact ih

/-- As long as the source knows none, and none is remembered from before, it is asked every time. -/
theorem asked_of_absent (hf : Sourced (since ++ older)) (hs : Stays t s k since)
    (hk : ∀ r, .resolved r ∈ since → r.At t s → r.known = none)
    (ho : ¬ ∃ p ∈ lastSince t s older, p.key = k ∧ p.context.isSome) :
    asked (·.At t s) older since = (resolutions since).countP (·.At t s) ∧
      ¬ ∃ p ∈ lastSince t s (since ++ older), p.key = k ∧ p.context.isSome := by
  induction since with
  | nil => exact ⟨rfl, ho⟩
  | cons e since ih =>
    obtain ⟨hcount, hlast⟩ := ih hf.2 hs.tail fun r hr => hk r (List.mem_cons_of_mem _ hr)
    have hsum : asked (·.At t s) older (e :: since) = e.asks (·.At t s) (since ++ older) + asked (·.At t s) older since :=
      rfl
    by_cases hat : ∃ r, e = .resolved r ∧ r.At t s
    · obtain ⟨r, rfl, hr⟩ := hat
      obtain ⟨hslot, hkey⟩ := hs.only r (List.mem_cons_self ..) hr
      have hrep : ¬ r.Repeated (since ++ older) := fun hrep => hlast (hkey ▸ (repeated_of_slot hr hslot).mp hrep)
      have hone : (Entry.resolved r).asks (·.At t s) (since ++ older) = 1 := if_pos ⟨hr, hrep⟩
      have hnone : r.context = none := by
        have hrecalled : recalled r.thread r.service r.slot r.key (since ++ older) = none :=
          Option.not_isSome_iff_eq_none.mp fun h => hrep (repeats_iff.mpr h)
        refine (hf.1 r rfl).trans ?_
        show (recalled r.thread r.service r.slot r.key (since ++ older)).or r.known = none
        rw [hrecalled, hk r (List.mem_cons_self ..) hr]
        rfl
      refine ⟨?_, ?_⟩
      · rw [hsum, hone, hcount, Nat.add_comm]
        exact (List.countP_cons_of_pos (p := fun r : Resolution => r.At t s) (decide_eq_true hr)).symm
      · rintro ⟨p, hp, -, hcontext⟩
        obtain rfl : r = p := Option.some.inj ((if_pos hr).symm.trans hp)
        rw [hnone] at hcontext
        cases hcontext
    · have hnot : ∀ r, e = .resolved r → ¬ r.At t s := fun r he hr => hat ⟨r, he, hr⟩
      refine ⟨?_, ?_⟩
      · rw [hsum, asks_of_not_at hnot, Nat.zero_add, hcount]
        cases e with
        | resolved r => exact (List.countP_cons_of_neg (p := fun r : Resolution => r.At t s) (by simpa using hnot r rfl)).symm
        | _ => rfl
      · rw [List.cons_append, lastSince_cons hs hnot]
        exact hlast

end

end HeapLedger
