import HeapLedger.Proofs.ActionBuilt

/-!
# Who is inside the hook

Whatever is done on a thread enters the hook only from outside, and leaves it again. So it leaves every thread
inside or outside of the hook as it was, also where it is done inside the hook and refused. A thread stays inside only
by keeping the hook closed itself, and is let out only by itself, or when it ends.
-/

namespace HeapLedger

open Ledger

variable {α β : Type}

def Ledger.flags (l : Ledger) (t : ThreadId) : Bool × Bool := (l.inHook t, (l.thread t).holdsGuard)

def KeepsHooks (f : Ledger → Ledger × α) : Prop := ∀ l j, (f l).1.flags j = l.flags j

namespace Ledger

variable {l l' : Ledger}

theorem flags_veil (l : Ledger) (t : ThreadId) : l.veil.flags t = l.flags t := by
  rw [flags, inHook_veil, thread_veil]
  rfl

theorem flags_of_veil (h : l'.veil = l.veil) (t : ThreadId) : l'.flags t = l.flags t := by
  rw [← flags_veil, h, flags_veil]

theorem flags_of_threads (h : l'.threads = l.threads) (t : ThreadId) : l'.flags t = l.flags t := by
  rw [flags, inHook, thread, h]
  rfl

theorem flags_modifyThread (t : ThreadId) {f : Thread → Thread} (hf : ∀ th, (f th).inHook = th.inHook)
    (hg : ∀ th, (f th).holdsGuard = th.holdsGuard) (j : ThreadId) : (l.modifyThread t f).flags j = l.flags j :=
  Table.get_modify_of_eq l.threads t j (fun th => (th.inHook, th.holdsGuard)) fun th => by rw [hf, hg]

theorem flags_setInHook {t : ThreadId} (b : Bool) {j : ThreadId} (h : t = j → l.flags j = (b, (l.thread j).holdsGuard)) :
    (l.setInHook t b).flags j = l.flags j := by
  show (((l.setInHook t b).thread j).inHook, ((l.setInHook t b).thread j).holdsGuard) = _
  rw [setInHook, thread_modifyThread]
  split
  · rename_i hj
    exact (h hj.1).symm
  · rfl

end Ledger

/-! ## Steps in a row -/

namespace KeepsHooks

theorem done (a : α) : KeepsHooks fun l => (l, a) := fun _ _ => rfl

theorem bind {f : Ledger → Ledger × α} {g : α → Ledger → Ledger × β} (hf : KeepsHooks f)
    (hg : ∀ a, KeepsHooks (g a)) : KeepsHooks fun l => g (f l).2 (f l).1 :=
  fun l j => (hg _ _ j).trans (hf l j)

/-- A thread that is outside of the hook is outside again after a section inside of it. -/
theorem guarded (t : ThreadId) {f g : Ledger → Ledger × α} (hf : KeepsHooks f) (hg : KeepsHooks g) :
    KeepsHooks fun l => if l.inHook t then g l else l.guarded t f := by
  intro l j
  dsimp only
  cases ht : l.inHook t with
  | true =>
    rw [if_pos rfl]
    exact hg l j
  | false =>
    rw [if_neg Bool.false_ne_true]
    show (((f (l.setInHook t true)).1.setInHook t false).flags j) = _
    have hinside := hf (l.setInHook t true) j
    have hholds : ∀ l b, ((setInHook l t b).thread j).holdsGuard = (l.thread j).holdsGuard := fun l b =>
      Table.get_modify_of_eq l.threads t j Thread.holdsGuard fun _ => rfl
    by_cases hj : t = j
    · subst hj
      have hheld : ((f (l.setInHook t true)).1.thread t).holdsGuard = (l.thread t).holdsGuard :=
        (congrArg Prod.snd hinside).trans (hholds l true)
      refine Prod.ext ?_ ((hholds _ false).trans hheld)
      have hfalse : ((f (l.setInHook t true)).1.setInHook t false).inHook t = false := by
        show ((setInHook _ t false).thread t).inHook = false
        rw [setInHook, thread_modifyThread]
        split
        · rfl
        · rename_i hlt
          rw [thread, Table.get_of_size_le (Nat.not_lt.mp fun hlt' => hlt ⟨rfl, hlt'⟩)]
          rfl
      exact hfalse.trans ht.symm
    · exact (flags_setInHook false fun h => absurd h hj).trans
        (hinside.trans (flags_setInHook true fun h => absurd h hj))

end KeepsHooks

theorem Core.keepsHooks {t : ThreadId} {S : ServiceId → Prop} {f : Ledger → Ledger × α} (h : Core t S α f) :
    KeepsHooks f := by
  intro l j
  cases h with
  | basic h =>
    cases h with
    | post => rfl
    | thread hf => exact flags_modifyThread t hf.inHook hf.holdsGuard j
    | addService source slots i threshold =>
      refine flags_of_threads ?_ j
      unfold addService
      dsimp only
      split <;> rfl
    | aside hf => exact flags_of_threads (hf.threads l) j
  | charged | carried => rfl
  | thread hf => exact flags_modifyThread t hf.inHook hf.holdsGuard j
  | skip s => exact flags_of_veil (veil_countSkip l s) j
  | carry carry => exact flags_modifyThread (f := fun th => { th with carry }) t (fun _ => rfl) (fun _ => rfl) j
  | resolve hs k => exact flags_of_veil (veil_resolve l t _ k) j

theorem Built.keepsHooks {u : Ledger → Ledger} {P : StepKind}
    (hP : ∀ {α : Type} {f : Ledger → Ledger × α}, P α f → KeepsHooks f) {f : Ledger → Ledger × α}
    (h : Built u P f) : KeepsHooks f := by
  induction h with
  | step h => exact hP h
  | done a => exact .done a
  | bind hf hg ihf ihg => exact ihf.bind ihg
  | read v hv hg ih => exact fun l => ih (v l) l
  | guarded t hf hg ihf ihg => exact .guarded t ihf ihg

theorem Built.keepsHooks_outer {t : ThreadId} {f : Ledger → Ledger × α} (h : Built veil (Outer t) f) :
    KeepsHooks f :=
  (h.mono veil_veil Outer.built).keepsHooks Core.keepsHooks

theorem Handling.keepsHooks {t : ThreadId} {f : Ledger → Ledger × α} (h : Handling t α f) : KeepsHooks f := by
  cases h with
  | outer h => exact (Outer.built h).keepsHooks Core.keepsHooks
  | count | report => exact fun _ _ => rfl
  | blocks hf => exact fun l j => flags_of_threads (hf.threads l) j

namespace Ledger

variable (t : ThreadId)

/-! ## Actions -/

theorem flags_unbindWorker (l : Ledger) (j : ThreadId) : (l.unbindWorker t).1.flags j = l.flags j := by
  rw [unbindWorker_eq]
  split
  · rfl
  · exact flags_modifyThread (f := fun th => { th with worker := none, binding := none }) t (fun _ => rfl)
      (fun _ => rfl) j

theorem flags_bindWorker (l : Ledger) (s : ServiceId) (j : ThreadId) : (l.bindWorker t s).1.flags j = l.flags j := by
  rw [bindWorker_eq]
  split
  · rfl
  · split
    · rfl
    · rename_i i _
      exact flags_modifyThread (f := fun th => { th with worker := some ⟨s, i⟩, binding := some ⟨s, i⟩ }) t
        (fun _ => rfl) (fun _ => rfl) j

/-- No action lets a thread into the hook or out of it, but for those that are meant to, and the end of the thread. -/
theorem perform_keepsHooks {a : Action} (he : a ≠ .exit) (hg : a ≠ .guard) (hu : a ≠ .unguard) :
    KeepsHooks fun l => l.perform t a := by
  cases hs : a.special with
  | false => exact (perform_built t hs).keepsHooks Handling.keepsHooks
  | true =>
    cases a with
    | exit => exact absurd rfl he
    | guard => exact absurd rfl hg
    | unguard => exact absurd rfl hu
    | bindWorker s =>
      intro l j
      show (toldOr .bind .bound (l.bindWorker t s)).1.flags j = l.flags j
      rw [toldOr_fst]
      exact flags_bindWorker t l s j
    | unbindWorker => exact flags_unbindWorker t
    | forgetBinding =>
      exact fun l j => flags_modifyThread (f := fun th => { th with binding := none }) t (fun _ => rfl) (fun _ => rfl) j
    | chargeBare s d =>
      have hcharge : KeepsHooks fun l => l.chargeBare t s d :=
        (chargeBare_built (S := fun _ => True) t trivial d).keepsHooks Core.keepsHooks
      exact hcharge.bind fun _ => .done _
    | describe subject => exact fun _ _ => rfl
    | _ => cases hs

theorem flags_unguardThread (l : Ledger) (j : ThreadId) : (l.unguardThread t).1.flags j =
    if j = t ∧ (l.thread t).holdsGuard then (false, false) else l.flags j := by
  unfold unguardThread
  cases hg : (l.thread t).holdsGuard with
  | false => simp
  | true =>
    have ht : t < l.threads.size := Table.lt_size_of_get (·.holdsGuard = true) Bool.false_ne_true hg
    show (((l.modifyThread t _).thread j).inHook, ((l.modifyThread t _).thread j).holdsGuard) = _
    rw [thread_modifyThread]
    by_cases hj : t = j
    · simp [hj, hj ▸ ht]
    · simp [hj, Ne.symm hj, flags, inHook]

/-- A thread that ends lets go of the hook, if it keeps itself there, and all other threads stay where they are. -/
theorem flags_exit (l : Ledger) (j : ThreadId) : (l.exit t).flags j =
    if j = t ∧ (l.thread t).holdsGuard then (false, false) else l.flags j := by
  let l₁ := ((l.unwind t (l.depth t)).unbindWorker t).1
  have hbefore : ∀ j, l₁.flags j = l.flags j := fun j =>
    (flags_unbindWorker t _ j).trans ((unwind_built t (l.depth t)).keepsHooks_outer l j)
  have hafter : (l.exit t).flags j = (l₁.unguardThread t).1.flags j :=
    (destroys_core t).keepsHooks Core.keepsHooks (l₁.unguardThread t).1 j
  have hheld : (l₁.thread t).holdsGuard = (l.thread t).holdsGuard := congrArg Prod.snd (hbefore t)
  rw [hafter, flags_unguardThread, hbefore, hheld]

end Ledger

end HeapLedger
