import HeapLedger.Proofs.Run
import HeapLedger.Proofs.Sound
import HeapLedger.Proofs.SlotFrame

/-!
# Binding and unbinding

What comes of a binding that is made, given back or forgotten, and what all other actions leave alone: bindings, and
the slots that their thread is not bound to.
-/

namespace HeapLedger

open Ledger

namespace Ledger

section
variable {l l' : Ledger} {t : ThreadId} {s : ServiceId} {i : Nat}

theorem lt_of_lt_slots (hi : i < (l.service s).slots.size) : s < l.services.size :=
  Table.lt_size_of_get (i < ·.slots.size) (Nat.not_lt_zero i) hi

theorem lt_of_bound (h : (l.slot s i).bound = true) : s < l.services.size ∧ i < (l.service s).slots.size :=
  have hi : i < (l.service s).slots.size := Table.lt_size_of_get (·.bound = true) Bool.false_ne_true h
  ⟨lt_of_lt_slots hi, hi⟩

/-- A binding that a thread holds is of the slot that it sits in, and that slot is there. -/
def Anchored (l : Ledger) (t : ThreadId) : Prop := ∀ w, (l.thread t).binding = some w →
  (l.thread t).worker = some w ∧ w.service < l.services.size ∧ w.slot < (l.service w.service).slots.size

theorem Steady.anchored (hs : Steady l l') (h : l.Anchored t) : l'.Anchored t := fun w hw => by
  obtain ⟨hworker, hlt, hi⟩ := h w (hs.binding t ▸ hw)
  exact ⟨(hs.worker t).trans hworker, Nat.lt_of_lt_of_le hlt hs.services_size, lt_of_lt_of_eq hi (hs.slots_size _ hlt).symm⟩

/-! ## Binding -/

theorem slot_modifySlot (hs : s < l.services.size) (hi : i < (l.service s).slots.size) (f : Slot → Slot)
    (j : ServiceId) (n : Nat) :
    (l.modifySlot s i f).slot j n = if s = j ∧ i = n then f (l.slot j n) else l.slot j n := by
  unfold modifySlot slot
  rw [service_modifyService]
  by_cases hj : s = j
  · subst hj
    rw [if_pos ⟨rfl, hs⟩, Table.get_modify]
    simp [hi]
  · rw [if_neg fun he => hj he.1, if_neg fun he => hj he.1]

theorem freeSlot?_eq_some_iff {svc : Service} : svc.freeSlot? = some i ↔
    i < svc.slots.size ∧ (svc.slots.get i).bound = false ∧ ∀ j < i, (svc.slots.get j).bound = true := by
  unfold Service.freeSlot?
  rw [List.find?_range_eq_some]
  simp only [List.mem_range, Bool.not_eq_eq_eq_not, Bool.not_true, Bool.not_false, and_left_comm]

theorem lt_of_freeSlot {i : Nat} (h : (l.service s).freeSlot? = some i) :
    s < l.services.size ∧ i < (l.service s).slots.size :=
  have hi := (freeSlot?_eq_some_iff.mp h).1
  ⟨lt_of_lt_slots hi, hi⟩

theorem thread_modifyThread_of_lt (ht : t < l.threads.size) (f : Thread → Thread) (j : ThreadId) :
    (l.modifyThread t f).thread j = if t = j then f (l.thread j) else l.thread j := by
  rw [thread_modifyThread]
  simp [ht]

theorem thread_bindSlot (ht : t < l.threads.size) (j : ThreadId) : (l.bindSlot t s i).thread j =
    if t = j then { l.thread j with worker := some ⟨s, i⟩, binding := some ⟨s, i⟩ } else l.thread j :=
  thread_modifyThread_of_lt ht _ j

theorem slot_bindSlot (hs : s < l.services.size) (hi : i < (l.service s).slots.size) (j : ServiceId) (n : Nat) :
    (l.bindSlot t s i).slot j n = if s = j ∧ i = n then { bound := true } else l.slot j n :=
  slot_modifySlot hs hi _ j n

theorem unbindWorker_of_none (h : (l.thread t).binding = none) : l.unbindWorker t = (l, false) := by
  simp only [unbindWorker_eq, h]

theorem unbindWorker_of_some {w : Worker} (h : (l.thread t).binding = some w) :
    l.unbindWorker t = (l.unbindSlot t w, true) := by
  simp only [unbindWorker_eq, h]

theorem lt_of_binding {w : Worker} (h : (l.thread t).binding = some w) : t < l.threads.size :=
  Table.lt_size_of_get (·.binding = some w) (Option.some_ne_none w).symm h

theorem thread_unbindSlot {w : Worker} (ht : t < l.threads.size) (j : ThreadId) : (l.unbindSlot t w).thread j =
    if t = j then { l.thread j with worker := none, binding := none } else l.thread j :=
  thread_modifyThread_of_lt ht _ j

theorem slot_unbindSlot {w : Worker} (hs : w.service < l.services.size)
    (hi : w.slot < (l.service w.service).slots.size) (j : ServiceId) (n : Nat) :
    (l.unbindSlot t w).slot j n = if w = ⟨j, n⟩ then {} else l.slot j n := by
  refine (slot_modifySlot hs hi _ j n).trans ?_
  cases w
  simp

theorem services_size_unbindWorker : (l.unbindWorker t).1.services.size = l.services.size := by
  rw [unbindWorker_eq]
  split
  · rfl
  · exact services_size_modifyService ..

theorem threads_size_unbindWorker : (l.unbindWorker t).1.threads.size = l.threads.size := by
  rw [unbindWorker_eq]
  split
  · rfl
  · exact threads_size_modifyThread ..

theorem thread_unbindWorker (j : ThreadId) : (l.unbindWorker t).1.thread j =
    if t = j ∧ (l.thread t).binding.isSome then { l.thread j with worker := none, binding := none }
    else l.thread j := by
  cases hb : (l.thread t).binding with
  | none =>
    rw [unbindWorker_of_none hb]
    simp
  | some w =>
    rw [unbindWorker_of_some hb, thread_unbindSlot (lt_of_binding hb)]
    simp

theorem slot_unbindWorker (h : l.Anchored t) (j : ServiceId) (n : Nat) :
    (l.unbindWorker t).1.slot j n = if (l.thread t).binding = some ⟨j, n⟩ then {} else l.slot j n := by
  cases hb : (l.thread t).binding with
  | none =>
    rw [unbindWorker_of_none hb]
    simp
  | some w =>
    obtain ⟨-, hs, hi⟩ := h w hb
    rw [unbindWorker_of_some hb, slot_unbindSlot hs hi]
    simp

theorem slots_size_modifySlot (f : Slot → Slot) (j : ServiceId) :
    ((l.modifySlot s i f).service j).slots.size = (l.service j).slots.size :=
  Table.get_modify_of_eq _ s j (fun svc : Service => svc.slots.size) fun _ => Table.size_modify ..

theorem slots_size_bindWorker (j : ServiceId) :
    ((l.bindWorker t s).1.service j).slots.size = (l.service j).slots.size := by
  rw [bindWorker_eq]
  split
  · rfl
  · split
    · rfl
    · exact slots_size_modifySlot _ j

theorem slots_size_unbindWorker (j : ServiceId) :
    ((l.unbindWorker t).1.service j).slots.size = (l.service j).slots.size := by
  rw [unbindWorker_eq]
  split
  · rfl
  · exact slots_size_modifySlot _ j

/-- Unbinding a thread is the same in ledgers with the same bindings. -/
theorem Steady.unbindWorker (h : l.Anchored t) (hs : Steady l l') :
    Steady (l.unbindWorker t).1 (l'.unbindWorker t).1 where
  worker j := by
    rw [thread_unbindWorker, thread_unbindWorker, hs.binding]
    split
    · rfl
    · exact hs.worker j
  binding j := by
    rw [thread_unbindWorker, thread_unbindWorker, hs.binding]
    split
    · rfl
    · exact hs.binding j
  bound j n := by
    rw [slot_unbindWorker h, slot_unbindWorker (hs.anchored h), hs.binding]
    split
    · rfl
    · exact hs.bound j n
  paired j n := by
    rw [slot_unbindWorker h, slot_unbindWorker (hs.anchored h), hs.binding]
    split
    · exact id
    · exact hs.paired j n
  threads_size := by
    rw [threads_size_unbindWorker, threads_size_unbindWorker]
    exact hs.threads_size
  services_size := by
    rw [services_size_unbindWorker, services_size_unbindWorker]
    exact hs.services_size
  slots_size j hj := by
    rw [slots_size_unbindWorker, slots_size_unbindWorker]
    exact hs.slots_size j (by rwa [services_size_unbindWorker] at hj)

end

/-! ## The hook, and the end of a thread -/

variable {S : ServiceId → Prop} (t : ThreadId)

theorem guardThread_spares : Spares t S fun l => l.guardThread t := by
  have hguard : ∀ inHook : Bool, Spares t S fun l =>
      if inHook then (l, false)
      else (l.modifyThread t fun th => { th with inHook := true, holdsGuard := true }, true) := by
    intro inHook
    cases inHook with
    | true => exact .done false
    | false =>
      exact spares_modifyThread (f := fun th => { th with inHook := true, holdsGuard := true }) t (fun _ => rfl)
        (fun _ => rfl) true
  exact (Spares.read (t := t) (S := S) (·.inHook t) (inHook_veil · t) hguard :)

theorem unguardThread_spares : Spares t S fun l => l.unguardThread t := by
  have hguard : ∀ holds : Bool, Spares t S fun l =>
      if holds then (l.modifyThread t fun th => { th with inHook := false, holdsGuard := false }, true)
      else (l, false) := by
    intro holds
    cases holds with
    | true =>
      exact spares_modifyThread (f := fun th => { th with inHook := false, holdsGuard := false }) t (fun _ => rfl)
        (fun _ => rfl) true
    | false => exact .done false
  exact (Spares.read (t := t) (S := S) (fun l => (l.thread t).holdsGuard) (fun l => by rw [thread_veil]; rfl) hguard :)

theorem unwindAll_spares : Spares t (fun _ => True) fun l => (l.unwind t (l.depth t), ()) :=
  (Spares.read (t := t) (·.depth t) (fun l => by rw [depth, scopes_veil]; rfl) fun depth =>
    (unwind_built t depth).spares_outer :)

theorem destroys_spares : Spares t (fun _ => True) fun l => ((l.thread t).destructors.foldl (destroy t) l, ()) :=
  (destroys_core t).spares Core.spares

/-- What a thread leaves behind when it ends, but for what it is bound to. -/
theorem spares_rest : Spares t (fun _ => True) fun l =>
    ((((l.unguardThread t).1.thread t).destructors.foldl (destroy t) (l.unguardThread t).1), ()) :=
  (unguardThread_spares t).bind fun _ => destroys_spares t

section
variable {l : Ledger} {t : ThreadId}

/-- A thread that ends gives its binding back, and nobody else is bound or unbound. -/
theorem steady_exit (h : l.Anchored t) : Steady (l.unbindWorker t).1 (l.exit t) :=
  (((unwindAll_spares t).steady l).unbindWorker h).trans ((spares_rest t).steady _)

/-! ## Actions -/

/-- Only some actions are about bindings. -/
theorem perform_spares {a : Action} (hb : a.binds = false) (he : a ≠ .exit) :
    Spares t (fun _ => True) fun l => ((l.perform t a).1, ()) := by
  cases hs : a.special with
  | false => exact (perform_built t hs).quiet.spares Handling.spares
  | true =>
    cases a with
    | exit => exact absurd rfl he
    | guard => exact (guardThread_spares t).bind fun _ => .done ()
    | unguard => exact (unguardThread_spares t).bind fun _ => .done ()
    | chargeBare s d =>
      have hcharge : Spares t (fun _ => True) fun l => l.chargeBare t s d :=
        (chargeBare_built (S := fun _ => True) t trivial d).spares Core.spares
      exact hcharge.bind fun _ => .done ()
    | describe subject => exact .done ()
    | bindWorker | unbindWorker | forgetBinding => cases hb
    | _ => cases hs

/-- Whatever is done, services keep the slots that they have. -/
theorem slots_size_perform {s : ServiceId} (h : l.Anchored t) (hs : s < l.services.size) (a : Action) :
    ((l.perform t a).1.service s).slots.size = (l.service s).slots.size := by
  cases hb : a.binds with
  | true =>
    cases a with
    | bindWorker j =>
      have hfst : (toldOr .bind .bound (l.bindWorker t j)).1 = (l.bindWorker t j).1 := toldOr_fst ..
      exact (congrArg (fun l => (l.service s).slots.size) hfst).trans (slots_size_bindWorker s)
    | unbindWorker => exact slots_size_unbindWorker s
    | forgetBinding => rfl
    | _ => cases hb
  | false =>
    by_cases he : a = .exit
    · subst he
      refine ((steady_exit h).slots_size s ?_).trans (slots_size_unbindWorker s)
      rwa [services_size_unbindWorker]
    · exact (perform_spares hb he).steady l |>.slots_size s hs

/-- A thread that is started is bound to nothing. -/
theorem steady_newThread (l : Ledger) : Steady l l.newThread.1 :=
  { Steady.refl l with
    worker := fun j => congrArg Thread.worker (thread_newThread l j)
    binding := fun j => congrArg Thread.binding (thread_newThread l j)
    threads_size := Nat.le_trans (Nat.le_succ _) (Nat.le_of_eq (Table.size_add ..).symm) }

end

end Ledger

end HeapLedger
