import HeapLedger.Proofs.ActionBuilt
import HeapLedger.Proofs.ChargeMirrors

/-!
# Actions do not depend on what is remembered

Whatever is done on a thread does the same, and tells the same, whether or not use is made of what is
remembered. When the worker slots are forgotten, too, this leaves out only what is told of bindings.
-/

namespace HeapLedger

open Ledger

variable {w : Bool}

/-- What is told of the action may be about what is forgotten. -/
def Action.hushed (w : Bool) : Action → Bool
  | describe _ => true
  | a => a.binds && w

namespace Ledger

variable (t : ThreadId)

/-! ## Worker slots -/

structure Hidden (l l' : Ledger) : Prop where
  grows : l.journal <:+ l'.journal
  resolutions : resolutions l'.journal = resolutions l.journal
  forget : l'.forget true = l.forget true
  traced : Traced l → Traced l'

theorem Hidden.refl (l : Ledger) : Hidden l l := ⟨List.suffix_refl _, rfl, rfl, id⟩

theorem Hidden.mirrored {f : Ledger → Ledger} (h : ∀ l, Hidden l (f l)) : Mirrored true f :=
  .of_forget (fun l => (l, ())) (fun l => by rw [(h l).forget]) (fun l => (h l).grows)
    (fun l => (h l).resolutions) fun {l} => (h l).traced

section
variable {l : Ledger}

theorem Traced.modifySlot (h : Traced l) (s : ServiceId) (i : Nat) (slot : Slot) (hn : slot.cached = none) :
    Traced (l.modifySlot s i fun _ => slot) := by
  refine ⟨fun s' i' k c hc => ?_, h.recent⟩
  unfold Ledger.modifySlot at hc
  rw [service_modifyService] at hc
  split at hc
  · rw [Table.get_modify] at hc
    split at hc
    · rw [hn] at hc
      cases hc
    · exact h.slot s' i' k c hc
  · exact h.slot s' i' k c hc

theorem Hidden.trans {l' l'' : Ledger} (h : Hidden l l') (h' : Hidden l' l'') : Hidden l l'' where
  grows := h.grows.trans h'.grows
  resolutions := h'.resolutions.trans h.resolutions
  forget := h'.forget.trans h.forget
  traced := h'.traced ∘ h.traced

theorem hidden_modifySlot (s : ServiceId) (i : Nat) (slot : Slot) (hn : slot.cached = none) :
    Hidden l (l.modifySlot s i fun _ => slot) where
  grows := List.suffix_refl _
  resolutions := rfl
  forget := forget_modifyService_of_eq l s fun _ => rfl
  traced h := h.modifySlot s i slot hn

theorem hidden_modifyThread {f : Thread → Thread} (hf : ∀ th, (f th).forget true = th.forget true)
    (hr : ∀ th, (f th).recent = th.recent) : Hidden l (l.modifyThread t f) where
  grows := List.suffix_refl _
  resolutions := rfl
  forget := forget_modifyThread_of_eq l t hf
  traced h := h.modifyThread t hr

theorem hidden_post {e : Entry} (he : e.forget true = none) (hr : e.resolution? = none) : Hidden l (l.post e) where
  grows := List.suffix_cons ..
  resolutions := List.filterMap_cons_none hr
  forget := forget_post_of_none l he
  traced h := h.post e

theorem hidden_bindWorker (s : ServiceId) : Hidden l (l.bindWorker t s).1 := by
  have hbind : ∀ i : Nat, Hidden l (l.bindSlot t s i) := fun i =>
    (hidden_modifySlot s i { bound := true } rfl).trans
      ((hidden_modifyThread (f := fun th => { th with worker := some ⟨s, i⟩, binding := some ⟨s, i⟩ }) t
        (fun _ => rfl) fun _ => rfl).trans ((hidden_post (e := .bound t s i) rfl rfl).trans
          (hidden_post (e := .notice (.workerBound i)) rfl rfl)))
  rw [bindWorker_eq]
  split
  · exact .refl l
  · split
    · exact .refl l
    · exact hbind _

theorem hidden_unbindWorker : Hidden l (l.unbindWorker t).1 := by
  have hfree : ∀ b : Worker, Hidden l (((l.modifySlot b.service b.slot fun _ => {}).modifyThread t fun th =>
      { th with worker := none, binding := none }).notice (.workerUnbound b.slot)) := fun b =>
    (hidden_modifySlot b.service b.slot {} rfl).trans
      ((hidden_modifyThread (f := fun th => { th with worker := none, binding := none }) t
        (fun _ => rfl) fun _ => rfl).trans (hidden_post (e := .notice (.workerUnbound b.slot)) rfl rfl))
  rw [unbindWorker_eq]
  split
  · exact .refl l
  · exact hfree _

theorem hidden_forgetBinding : Hidden l (l.forgetBinding t).1 :=
  hidden_modifyThread t (fun _ => rfl) fun _ => rfl

end

theorem mirrored_modifySlot (s : ServiceId) (i : Nat) (slot : Slot) (hn : slot.cached = none) :
    Mirrored false (·.modifySlot s i fun _ => slot) :=
  .of_forget (fun l => (l.modifySlot s i fun _ => slot, ()))
    (fun l => congrArg (·, ()) (forget_modifyService l s (f := fun svc =>
      { svc with slots := svc.slots.modify i fun _ => slot }) fun _ => rfl).symm) (fun _ => List.suffix_refl _)
    (fun _ => rfl) fun h => h.modifySlot s i slot hn

theorem mirrored_bindSlot (s : ServiceId) (i : Nat) : Mirrored false (·.bindSlot t s i) :=
  (mirrored_modifySlot s i { bound := true } rfl).seq
    ((mirrored_modifyThread (f := fun th => { th with worker := some ⟨s, i⟩, binding := some ⟨s, i⟩ }) t
      (fun _ => rfl) fun _ => rfl).seq ((mirrored_post (e := .bound t s i) rfl rfl).seq
        (mirrored_post (e := .notice (.workerBound i)) rfl rfl)))

theorem mirrors_bindFree (s : ServiceId) : Mirrors false fun l =>
    match (l.service s).freeSlot? with
    | none => (l, Except.error (BindError.noFreeSlot (l.service s).slots.size))
    | some i => (l.bindSlot t s i, Except.ok i) := by
  refine .split (fun l => (l.service s).freeSlot?) (fun l => by rw [service_forget]; rfl) fun free => ?_
  cases free with
  | none =>
    have hfull := Mirrors.read (w := false) (fun l => (l.service s).slots.size)
      (fun l => by rw [service_forget]; rfl) fun n => .done (Except.error (BindError.noFreeSlot n) : Except BindError Nat)
    exact ⟨_, hfull, fun l h => by simp only [h]⟩
  | some i => exact ⟨_, (mirrored_bindSlot t s i).answer (Except.ok i), fun l h => by simp only [h]⟩

theorem mirrors_bindWorker (s : ServiceId) : Mirrors false fun l => l.bindWorker t s := by
  have hsteps : (fun l : Ledger => l.bindWorker t s) = _ := funext fun l => bindWorker_eq l t s
  rw [hsteps]
  exact Mirrors.read (w := false) (fun l => (l.thread t).worker.isSome) (fun l => by rw [thread_forget]; rfl)
    fun bound => .ite bound (.done (.error .threadAlreadyBound)) (mirrors_bindFree t s)

theorem mirrors_unbindWorker : Mirrors false fun l => l.unbindWorker t := by
  refine .split (fun l => (l.thread t).binding) (fun l => by rw [thread_forget]; rfl) fun binding => ?_
  cases binding with
  | none => exact ⟨_, .done false, fun l h => by simp only [unbindWorker_eq, h]⟩
  | some b =>
    have hfree := (mirrored_modifySlot b.service b.slot {} rfl).seq
      ((mirrored_modifyThread (f := fun th => { th with worker := none, binding := none }) t (fun _ => rfl)
        fun _ => rfl).seq ((mirrored_post (e := .notice (.workerUnbound b.slot)) rfl rfl).answer true))
    exact ⟨_, hfree, fun l h => by simp only [unbindWorker_eq, h]; rfl⟩

theorem mirrors_forgetBinding : Mirrors false fun l => l.forgetBinding t :=
  (Mirrors.read (w := false) (fun l => (l.thread t).binding.isSome) (fun l => by rw [thread_forget]; rfl) fun b =>
    (mirrored_modifyThread (f := fun th => { th with binding := none }) t (fun _ => rfl) fun _ => rfl).answer b :)

/-- Giving a binding back, without being told whether there was one. -/
theorem mirrored_unbindWorker : ∀ {w : Bool}, Mirrored w fun l => (l.unbindWorker t).1
  | true => Hidden.mirrored fun _ => hidden_unbindWorker t
  | false => (mirrors_unbindWorker t).quiet

/-! ## The hook, and the end of a thread -/

theorem mirrors_guardThread : Mirrors w fun l => l.guardThread t := by
  have hguard : Mirrored w (·.modifyThread t fun th => { th with inHook := true, holdsGuard := true }) :=
    mirrored_modifyThread t (fun _ => rfl) fun _ => rfl
  exact (Mirrors.read (w := w) (·.inHook t) (inHook_forget · t) fun inHook =>
    .ite inHook (.done false) (hguard.answer true) :)

theorem mirrors_unguardThread : Mirrors w fun l => l.unguardThread t := by
  have hguard : Mirrored w (·.modifyThread t fun th => { th with inHook := false, holdsGuard := false }) :=
    mirrored_modifyThread t (fun _ => rfl) fun _ => rfl
  exact (Mirrors.read (w := w) (fun l => (l.thread t).holdsGuard) (fun l => by rw [thread_forget]; rfl) fun holds =>
    .ite holds (hguard.answer true) (.done false) :)

theorem mirrored_exit : Mirrored w fun l => l.exit t := by
  have hunwind : Mirrored w fun l => l.unwind t (l.depth t) :=
    (Mirrors.read (w := w) (·.depth t) (fun l => by rw [depth, thread_forget]; rfl) fun depth =>
      (unwind_built t depth).mirrors_outer :)
  exact hunwind.seq ((mirrored_unbindWorker t).seq
    ((mirrors_unguardThread t).quiet.seq ((destroys_core t).mirrors Core.mirrors)))

/-! ## Actions -/

theorem mirrors_toldOr {ε α : Type} {f : Ledger → Ledger × Except ε α} (hf : Mirrors w f) (refusal : ε → Refusal)
    (outcome : α → Outcome) : Mirrors w fun l => toldOr refusal outcome (f l) := by
  have htell : ∀ r, Mirrors w fun l => toldOr refusal outcome (l, r) := by
    intro r
    cases r <;> exact .done _
  exact hf.bind htell

theorem mirrors_perform {a : Action} (ha : a.hushed w = false) : Mirrors w fun l => l.perform t a := by
  cases hs : a.special with
  | false => exact (perform_built t hs).mirrors Handling.mirrors
  | true =>
    cases a with
    | exit => exact (mirrored_exit t).answer _
    | guard => exact (mirrors_guardThread t).map _
    | unguard => exact (mirrors_unguardThread t).map _
    | bindWorker s =>
      obtain rfl : w = false := ha
      exact mirrors_toldOr (mirrors_bindWorker t s) _ _
    | unbindWorker =>
      obtain rfl : w = false := ha
      exact (mirrors_unbindWorker t).map _
    | forgetBinding =>
      obtain rfl : w = false := ha
      exact (mirrors_forgetBinding t).map _
    | chargeBare s d => exact ((chargeBare_built t (S := fun _ => True) trivial d).mirrors Core.mirrors).map _
    | describe subject => cases ha
    | _ => cases hs

theorem hidden_perform {l : Ledger} {a : Action} (ha : a.binds = true) : Hidden l (l.perform t a).1 := by
  cases a with
  | bindWorker s => exact (toldOr_fst .bind .bound (l.bindWorker t s)).symm ▸ hidden_bindWorker t (l := l) s
  | unbindWorker => exact hidden_unbindWorker t
  | forgetBinding => exact hidden_forgetBinding t
  | _ => cases ha

/-- What an action does, whatever is told of it. -/
theorem mirrored_perform (a : Action) : Mirrored w fun l => (l.perform t a).1 := by
  cases ha : a.hushed w with
  | false => exact (mirrors_perform t ha).quiet
  | true =>
    cases a with
    | describe => exact .done ()
    | bindWorker | unbindWorker | forgetBinding =>
      obtain rfl : w = true := ha
      exact Hidden.mirrored fun _ => hidden_perform t rfl
    | _ => cases ha

end Ledger

end HeapLedger
