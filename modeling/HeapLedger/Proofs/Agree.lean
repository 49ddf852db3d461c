import HeapLedger.Proofs.Recall

/-!
# Two ledgers side by side

Two steps agree, with regard to a relation between ledgers, if they lead from related ledgers to related
ledgers and answer the same. Steps that are put together alike from steps that agree do agree.
-/

namespace HeapLedger

open Ledger

variable {α β γ : Type} {R : Ledger → Ledger → Prop}

def Agree (R : Ledger → Ledger → Prop) (f g : Ledger → Ledger × α) : Prop :=
  ∀ ⦃l l' : Ledger⦄, R l l' → R (f l).1 (g l').1 ∧ (f l).2 = (g l').2

abbrev AgreeOnly (R : Ledger → Ledger → Prop) (f g : Ledger → Ledger) : Prop :=
  Agree R (fun l => (f l, ())) fun l => (g l, ())

/-! ## Steps in a row -/

section
variable {f g : Ledger → Ledger × α}

theorem AgreeOnly.of_keeps {f g : Ledger → Ledger} (h : ∀ ⦃l l'⦄, R l l' → R (f l) (g l')) : AgreeOnly R f g :=
  fun _ _ hr => ⟨h hr, rfl⟩

theorem AgreeOnly.keeps {f g : Ledger → Ledger} (h : AgreeOnly R f g) {l l' : Ledger} (hr : R l l') : R (f l) (g l') :=
  (h hr).1

theorem Agree.done (a : α) : Agree R (fun l => (l, a)) fun l => (l, a) := fun _ _ hr => ⟨hr, rfl⟩

theorem Agree.bind {u v : α → Ledger → Ledger × β} (hf : Agree R f g) (hu : ∀ a, Agree R (u a) (v a)) :
    Agree R (fun l => u (f l).2 (f l).1) fun l => v (g l).2 (g l).1 := by
  intro l l' hr
  obtain ⟨hmid, heq⟩ := hf hr
  dsimp only
  rw [← heq]
  exact hu _ hmid

theorem Agree.read {u v : β → Ledger → Ledger × α} (see see' : Ledger → β) (hs : ∀ ⦃l l'⦄, R l l' → see l = see' l')
    (hu : ∀ b, Agree R (u b) (v b)) : Agree R (fun l => u (see l) l) fun l => v (see' l) l := by
  intro l l' hr
  dsimp only
  rw [← hs hr]
  exact hu _ hr

theorem Agree.map (hf : Agree R f g) (v : α → β) :
    Agree R (fun l => ((f l).1, v (f l).2)) fun l => ((g l).1, v (g l).2) :=
  hf.bind fun a => .done (v a)

theorem Agree.quiet (hf : Agree R f g) : AgreeOnly R (fun l => (f l).1) fun l => (g l).1 := hf.map fun _ => ()

theorem AgreeOnly.answer {f g : Ledger → Ledger} (hf : AgreeOnly R f g) (a : α) :
    Agree R (fun l => (f l, a)) fun l => (g l, a) :=
  hf.map fun _ => a

theorem AgreeOnly.seq {f g : Ledger → Ledger} {u v : Ledger → Ledger × α} (hf : AgreeOnly R f g) (hu : Agree R u v) :
    Agree R (fun l => u (f l)) fun l => v (g l) :=
  hf.bind fun _ => hu

theorem Agree.ite {u v : Ledger → Ledger × α} (b : Prop) [Decidable b] (hf : Agree R f g) (hu : Agree R u v) :
    Agree R (fun l => if b then f l else u l) fun l => if b then g l else v l := by
  by_cases hb : b <;> simpa [hb]

theorem AgreeOnly.foldl {f g : Ledger → α → Ledger} (hf : ∀ a, AgreeOnly R (f · a) (g · a)) :
    ∀ as : List α, AgreeOnly R (fun l => as.foldl f l) fun l => as.foldl g l
  | [] => .done ()
  | a :: as => (hf a).seq (foldl hf as)

theorem Agree.toldOr {ε : Type} {f g : Ledger → Ledger × Except ε α} (hf : Agree R f g) (refusal : ε → Refusal)
    (outcome : α → Outcome) :
    Agree R (fun l => Ledger.toldOr refusal outcome (f l)) fun l => Ledger.toldOr refusal outcome (g l) := by
  have htell : ∀ r, Agree R (fun l => Ledger.toldOr refusal outcome (l, r)) fun l => Ledger.toldOr refusal outcome (l, r) := by
    intro r
    cases r <;> exact .done _
  exact hf.bind htell

theorem Agree.guarded {t : ThreadId} (hook : ∀ b, AgreeOnly R (·.setInHook t b) (·.setInHook t b)) (hf : Agree R f g) :
    Agree R (fun l => l.guarded t f) fun l => l.guarded t g :=
  (hook true).seq (hf.bind fun a => (hook false).answer a)

end

/-! ## What is built -/

/-- Whatever is built agrees with itself, if its steps do and related ledgers look the same behind the veil. -/
theorem Built.agree {u : Ledger → Ledger} {P : StepKind} (hsame : ∀ ⦃l l'⦄, R l l' → u l = u l')
    (hin : ∀ ⦃l l'⦄, R l l' → ∀ t, l.inHook t = l'.inHook t)
    (hook : ∀ t b, AgreeOnly R (·.setInHook t b) (·.setInHook t b))
    (hP : ∀ {α : Type} {f : Ledger → Ledger × α}, P α f → Agree R f f) {f : Ledger → Ledger × α} (h : Built u P f) :
    Agree R f f := by
  induction h with
  | step h => exact hP h
  | done a => exact .done a
  | bind hf hg ihf ihg => exact ihf.bind ihg
  | read v hv hg ih =>
    refine .read v v (fun l l' hr => ?_) ih
    rw [← hv l, hsame hr, hv l']
  | guarded t hf hg ihf ihg =>
    exact (Agree.read (R := R) (·.inHook t) (·.inHook t) (fun l l' hr => hin hr t) fun b =>
      .ite (b = true) ihg (.guarded (hook t) ihf) :)

/-! ## Histories -/

namespace Ledger

def outcomes (l : Ledger) : List Deed → List Outcome
  | [] => []
  | d :: ds => (l.follow d).2 :: (l.follow d).1.outcomes ds

end Ledger

theorem Agree.after (h : ∀ d, Agree R (·.follow d) (·.follow d)) :
    ∀ ds : List Deed, Agree R (fun l => (l.after ds, l.outcomes ds)) fun l => (l.after ds, l.outcomes ds)
  | [] => .done []
  | d :: ds => (h d).bind fun a => (after h ds).map (a :: ·)

end HeapLedger
