import HeapLedger.Proofs.Erasure

/-!
# Steps that do not look

A step mirrors if it does the same, and answers the same, in two ledgers that differ only in what is
forgotten, provided that sources have kept their promises by the end of it. Steps in a row mirror if each
of them does: the journal only grows, so the promises were kept after every one of them.
-/

namespace HeapLedger

open Ledger

variable {w : Bool} {α β : Type}

structure Mirrors (w : Bool) (f : Ledger → Ledger × α) : Prop where
  grows : ∀ l, l.journal <:+ (f l).1.journal
  twin : ∀ {l l'}, Twin w l l' → Kept (f l).1.journal → Twin w (f l).1 (f l').1 ∧ (f l).2 = (f l').2

abbrev Mirrored (w : Bool) (f : Ledger → Ledger) : Prop := Mirrors w fun l => (f l, ())

/-! ## Steps in a row -/

theorem Mirrors.done (a : α) : Mirrors w fun l => (l, a) where
  grows _ := List.suffix_refl _
  twin h _ := ⟨h, rfl⟩

theorem Mirrors.bind {f : Ledger → Ledger × α} {g : α → Ledger → Ledger × β} (hf : Mirrors w f)
    (hg : ∀ a, Mirrors w (g a)) : Mirrors w fun l => g (f l).2 (f l).1 where
  grows l := (hf.grows l).trans ((hg _).grows _)
  twin h hk := by
    obtain ⟨hmid, heq⟩ := hf.twin h (hk.older ((hg _).grows _))
    rw [← heq]
    exact (hg _).twin hmid hk

theorem Mirrors.read {g : α → Ledger → Ledger × β} (v : Ledger → α) (hv : ∀ l, v (l.forget w) = v l)
    (hg : ∀ a, Mirrors w (g a)) : Mirrors w fun l => g (v l) l where
  grows l := (hg _).grows l
  twin h hk := by
    rw [← h.read v hv]
    exact (hg _).twin h hk

theorem Mirrors.split {f : Ledger → Ledger × β} (v : Ledger → α) (hv : ∀ l, v (l.forget w) = v l)
    (h : ∀ a, ∃ g, Mirrors w g ∧ ∀ l, v l = a → f l = g l) : Mirrors w f where
  grows l := by
    obtain ⟨g, hg, heq⟩ := h (v l)
    rw [heq l rfl]
    exact hg.grows l
  twin {l l'} htwin hk := by
    obtain ⟨g, hg, heq⟩ := h (v l)
    rw [heq l rfl] at hk ⊢
    rw [heq l' (htwin.read v hv).symm]
    exact hg.twin htwin hk

theorem Mirrors.map {f : Ledger → Ledger × α} (hf : Mirrors w f) (v : α → β) :
    Mirrors w fun l => ((f l).1, v (f l).2) :=
  hf.bind fun a => .done (v a)

theorem Mirrors.quiet {f : Ledger → Ledger × α} (hf : Mirrors w f) : Mirrored w fun l => (f l).1 :=
  hf.map fun _ => ()

theorem Mirrored.answer {f : Ledger → Ledger} (hf : Mirrored w f) (a : α) : Mirrors w fun l => (f l, a) :=
  hf.map fun _ => a

theorem Mirrored.seq {f : Ledger → Ledger} {g : Ledger → Ledger × α} (hf : Mirrored w f) (hg : Mirrors w g) :
    Mirrors w fun l => g (f l) :=
  hf.bind fun _ => hg

theorem Mirrors.ite {f g : Ledger → Ledger × α} (b : Prop) [Decidable b] (hf : Mirrors w f) (hg : Mirrors w g) :
    Mirrors w fun l => if b then f l else g l := by
  by_cases hb : b <;> simpa [hb]

/-! ## Single steps -/

/-- A step all of whose effect that is not forgotten can be told from what is not forgotten, and which
resolves no key. -/
theorem Mirrors.of_forget {f : Ledger → Ledger × α} (g : Ledger → Ledger × α)
    (hf : ∀ l, g (l.forget w) = ((f l).1.forget w, (f l).2))
    (hj : ∀ l, l.journal <:+ (f l).1.journal)
    (hr : ∀ l, resolutions (f l).1.journal = resolutions l.journal)
    (ht : ∀ {l}, Traced l → Traced (f l).1) : Mirrors w f where
  grows := hj
  twin {l l'} h _ := by
    have heq : ((f l).1.forget w, (f l).2) = ((f l').1.forget w, (f l').2) := by rw [← hf, h.same, hf]
    obtain ⟨hsame, hanswer⟩ := Prod.ext_iff.mp heq
    exact ⟨⟨hsame, ht h.left, ht h.right, by rw [hr]; exact h.known⟩, hanswer⟩

theorem Mirrors.frame {f : Ledger → Ledger × α} (hf : ∀ l, f (l.forget w) = ((f l).1.forget w, (f l).2))
    (hs : ∀ l, (f l).1.services = l.services) (ht : ∀ l, (f l).1.threads = l.threads)
    (hj : ∀ l, (f l).1.journal = l.journal) : Mirrors w f := by
  have hgrows : ∀ l, l.journal <:+ (f l).1.journal := fun l => hj l ▸ List.suffix_refl _
  refine .of_forget f hf hgrows (fun l => by rw [hj]) fun {l} h => ?_
  refine h.mono (fun s i e he => ?_) (fun t e he => ?_) (hgrows l)
  · rwa [service, hs l] at he
  · rwa [thread, ht l] at he

namespace Ledger

variable {l : Ledger}

theorem Traced.post (h : Traced l) (e : Entry) : Traced (l.post e) :=
  h.mono (fun _ _ _ he => he) (fun _ _ he => he) (List.suffix_cons ..)

theorem Traced.modifyThread (h : Traced l) (t : ThreadId) {f : Thread → Thread}
    (hr : ∀ th, (f th).recent = th.recent) : Traced (l.modifyThread t f) :=
  h.mono (fun _ _ _ he => he)
    (fun j _ he => ((Table.get_modify_of_eq l.threads t j Thread.recent hr).symm.trans he :))
    (List.suffix_refl _)

theorem Traced.modifyService (h : Traced l) (s : ServiceId) {f : Service → Service}
    (hs : ∀ svc, (f svc).slots = svc.slots) : Traced (l.modifyService s f) := by
  refine h.mono (fun j i e he => ?_) (fun _ _ he => he) (List.suffix_refl _)
  have hslots : ((l.modifyService s f).service j).slots = (l.service j).slots :=
    Table.get_modify_of_eq l.services s j Service.slots hs
  rwa [hslots] at he

theorem mirrored_post {e : Entry} (he : e.forget w = some e) (hr : e.resolution? = none) : Mirrored w (·.post e) :=
  .of_forget (fun l => (l.post e, ())) (fun l => by rw [forget_post l he]) (fun _ => List.suffix_cons ..)
    (fun _ => List.filterMap_cons_none hr) fun h => h.post e

theorem mirrored_modifyThread {f : Thread → Thread} (t : ThreadId) (hf : ∀ th, (f th).forget w = f (th.forget w))
    (hr : ∀ th, (f th).recent = th.recent) : Mirrored w (·.modifyThread t f) :=
  .of_forget (fun l => (l.modifyThread t f, ())) (fun l => by rw [forget_modifyThread l t hf])
    (fun _ => List.suffix_refl _) (fun _ => rfl) fun h => h.modifyThread t hr

theorem mirrored_modifyService {f : Service → Service} (s : ServiceId)
    (hf : ∀ svc, (f svc).forget w = f (svc.forget w)) (hs : ∀ svc, (f svc).slots = svc.slots) :
    Mirrored w (·.modifyService s f) :=
  .of_forget (fun l => (l.modifyService s f, ())) (fun l => by rw [forget_modifyService l s hf])
    (fun _ => List.suffix_refl _) (fun _ => rfl) fun h => h.modifyService s hs

theorem inHook_forget (l : Ledger) (t : ThreadId) : (l.forget w).inHook t = l.inHook t := by
  rw [inHook, thread_forget]; rfl

end Ledger

end HeapLedger
