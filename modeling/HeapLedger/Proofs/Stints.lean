import HeapLedger.Proofs.Abreast
import HeapLedger.Proofs.Scan

/-!
# Stints

Threads do errands, one stint at a time. A thread that goes by accounts of its own does not notice the stints of
others, so two stints of different threads may change places: each thread is told the same, and the ledger ends up
with the same.
-/

namespace HeapLedger

open Ledger

/-- What a thread does with scopes and charges. -/
inductive Errand
  | charge (s : ServiceId) (d : Delta)
  | attach (s : ServiceId)
  | flushThread (s : ServiceId)
  | enter (a : Account)
  | leave
  | unwind (levels : Nat)
  | flush (a : Account)

namespace Errand

def action : Errand → Action
  | charge s d => .charge s d
  | attach s => .attach s
  | flushThread s => .flushThread s
  | enter a => .enter a
  | leave => .leave
  | unwind levels => .unwind levels
  | flush a => .flushContext a.context

def account? : Errand → Option Account
  | enter a => some a
  | flush a => some a
  | _ => none

end Errand

/-- Nothing is given out or taken back. -/
theorem Holdings.after_errand (h : Holdings) (t : ThreadId) (e : Errand) (o : Outcome) : h.after t e.action o = h := by
  cases e <;> rfl

abbrev Stint := ThreadId × Errand

def Stint.deed (d : Stint) : Deed := .act d.1 d.2.action

namespace Ledger

def afterStints (l : Ledger) (ds : List Stint) : Ledger := l.after (ds.map Stint.deed)

def replies (l : Ledger) (t : ThreadId) : List Stint → List Outcome
  | [] => []
  | d :: ds =>
    if d.1 = t then (l.follow d.deed).2 :: (l.follow d.deed).1.replies t ds else (l.follow d.deed).1.replies t ds

def Allows (l : Ledger) (h : Holdings) (e : Errand) : Prop :=
  l.Admits h e.action ∧ ∀ a ∈ e.account?, l.Opened a

def Uses (l : Ledger) (ds : List Stint) (t : ThreadId) (a : Account) : Prop :=
  (∃ sc ∈ (l.thread t).scopes, sc.account = a) ∨ ∃ e, (t, e) ∈ ds ∧ a ∈ e.account?

/-! ## One stint in two ledgers -/

variable {l l' l₀ l₀' m m' : Ledger} {t : ThreadId} {P : Account → Prop}

section
variable (h : Abreast t P l₀ l₀' l l')

include h

theorem Abreast.activeKey : l'.activeKey t = l.activeKey t :=
  h.same.read (fun th => th.active.map Account.key) fun _ _ => rfl

theorem Abreast.depth : l'.depth t = l.depth t := h.same.read (fun th => th.scopes.length) fun _ _ => rfl

theorem Abreast.toldActive : Abreast t P l₀ l₀' (l.toldActive t).1 (l'.toldActive t).1 ∧
    (l.toldActive t).2 = (l'.toldActive t).2 :=
  ⟨h, congrArg Outcome.active h.activeKey.symm⟩

theorem Abreast.insideScope {f : Ledger → Ledger × Outcome}
    (hf : Abreast t P l₀ l₀' (f l).1 (f l').1 ∧ (f l).2 = (f l').2) :
    Abreast t P l₀ l₀' (l.insideScope t f).1 (l'.insideScope t f).1 ∧
      (l.insideScope t f).2 = (l'.insideScope t f).2 := by
  unfold Ledger.insideScope
  rw [h.depth]
  split
  · exact ⟨h, rfl⟩
  · exact hf

theorem Abreast.perform (ht : t < l₀'.threads.size) (hs : ∀ s, (l.service s).source = .scopes)
    (hf : ∀ s, FindsOwn l t P s) {e : Errand} (he : ∀ a ∈ e.account?, P a) :
    Abreast t P l₀ l₀' (l.perform t e.action).1 (l'.perform t e.action).1 ∧
      (l.perform t e.action).2 = (l'.perform t e.action).2 := by
  cases e with
  | charge s d =>
    obtain ⟨hcharge, hsame⟩ := h.charge (hs s) (hf s) ht d
    exact ⟨hcharge, congrArg Outcome.charged hsame⟩
  | attach s =>
    obtain ⟨hsettle, hsame⟩ := h.settle ht s
    exact ⟨hsettle, congrArg Outcome.created hsame⟩
  | flushThread s =>
    obtain ⟨hflush, hsame⟩ := h.flushThread s
    exact ⟨hflush, congrArg Outcome.flushed hsame⟩
  | enter a => exact (h.enter (he a rfl)).toldActive
  | leave => exact h.insideScope h.leaveScope.toldActive
  | unwind levels =>
    refine h.insideScope ?_
    dsimp only
    rw [h.depth]
    have hunwind := (unwind_abreast (max 1 (min levels (l.depth t)))).keeps h
    exact ⟨hunwind, congrArg₂ Outcome.unwound hunwind.activeKey.symm hunwind.depth.symm⟩
  | flush a =>
    obtain ⟨hflush, hsame⟩ := h.flush Ledger.charge (.account (he a rfl))
    exact ⟨hflush, congrArg (Outcome.flushed ∘ some) hsame⟩

end

/-! ## Threads with accounts of their own -/

variable {uses : ThreadId → Account → Prop} {h : Holdings} {d x : Stint}

/-- No account is used by two threads. -/
structure Apportioned (uses : ThreadId → Account → Prop) (h : Holdings) (l : Ledger) : Prop where
  run : Run h l
  counts : l.Counts
  source : ∀ s, (l.service s).source = .scopes
  opened : ∀ t a, uses t a → l.Opened a
  apart : ∀ t t' a, uses t a → uses t' a → t = t'

structure Able (uses : ThreadId → Account → Prop) (h : Holdings) (l : Ledger) (d : Stint) : Prop where
  lt : d.1 < l.threads.size
  live : d.1 ∉ h.ended
  admits : l.Admits h d.2.action
  scopes : ∀ sc ∈ (l.thread d.1).scopes, uses d.1 sc.account
  account : ∀ a ∈ d.2.account?, uses d.1 a

theorem Frozen.holds (hf : Frozen l l') {c : ContextId} (hc : l.Holds h c) : l'.Holds h c := by
  cases hc with
  | context hc => exact .context hc
  | account ha => exact .account ha
  | @future f hf' =>
    have hfuture : l'.future f = l.future f := congrArg (Table.get · f) hf.futures
    rw [← hfuture]
    exact .future hf'

theorem Frozen.admits (hf : Frozen l l') {e : Errand} (ha : l.Admits h e.action) : l'.Admits h e.action := by
  cases e with
  | charge s d => exact lt_of_lt_of_eq ha hf.services_size.symm
  | attach s => exact lt_of_lt_of_eq ha hf.services_size.symm
  | flushThread s => exact lt_of_lt_of_eq ha hf.services_size.symm
  | enter a => exact ha
  | leave => exact ha
  | unwind levels => exact ha
  | flush a => exact hf.holds ha

theorem Able.mono (hd : Able uses h l d) (hf : Frozen l l')
    (hs : ∀ sc ∈ (l'.thread d.1).scopes, uses d.1 sc.account) : Able uses h l' d where
  lt := lt_of_lt_of_eq hd.lt hf.threads_size.symm
  live := hd.live
  admits := hf.admits hd.admits
  scopes := hs
  account := hd.account

section
variable (hl : Apportioned uses h l)

include hl

theorem Apportioned.placed (hs : ∀ sc ∈ (l.thread t).scopes, uses t sc.account) : Placed t (uses t) l := by
  have hsound := hl.run.reach.1
  exact {
    counts := hl.counts
    scopes := hs
    account := fun a ha => (hsound.opened a (hl.opened t a ha)).1.1
    home := fun s c hc => by
      obtain ⟨hown, -, hne⟩ := (hsound.thread t).home s c hc
      exact ⟨hown.1, fun a ha => hne a (hl.opened t a ha)⟩ }

/-- A service comes to the account of the innermost scope. -/
theorem Apportioned.findsOwn (hs : ∀ sc ∈ (l.thread t).scopes, uses t sc.account) (s : ServiceId) :
    FindsOwn l t (uses t) s := by
  intro k hk c hc
  have hsound := hl.run.reach.1
  obtain ⟨a, ha, rfl⟩ := innermost_of_active (hl.source s) hsound hk
  rw [resolved_of_scopes (hl.source s) hsound ha] at hc
  obtain ⟨sc, hsc, rfl⟩ := Option.map_eq_some_iff.mp ha
  exact ⟨sc.account, hs sc (List.mem_of_mem_head? hsc), Option.some.inj hc⟩

/-- What a thread leaves alone is all that another one knows. -/
theorem Apportioned.aside (hs : ∀ sc ∈ (l.thread t).scopes, uses t sc.account) (hk : KeepsTo t (uses t) l l')
    {j : ThreadId} (hj : j ≠ t) : SameTo j (uses j) l l' := by
  have hsound := hl.run.reach.1
  have hthread : l'.thread j = l.thread j := hk.thread j hj
  have hnot : ∀ a, uses j a → ¬ uses t a := fun a ha ha' => hj (hl.apart j t a ha ha')
  exact { hk.toFrozen with
    thread := by rw [hthread]
    home := by
      rw [hthread]
      refine (sameHome_refl l _).mono fun s c c' hc hc' _ => ?_
      obtain ⟨-, rfl⟩ := Home.settled.inj (hc.symm.trans hc')
      obtain ⟨hown, -, hne⟩ := (hsound.thread j).home s c hc
      have hnone : ¬ Belongs t (uses t) l c := by
        rintro (⟨a, ha, hac⟩ | ⟨s', hh⟩)
        · exact hne a (hl.opened t a ha) hac
        · exact hj (hsound.home_inj j t s s' c hc hh)
      rw [hk.context c hown.1 hnone]
      rfl
    context := fun a ha => by
      have hopened := hl.opened j a ha
      refine hk.context _ (hsound.opened a hopened).1.1 ?_
      rintro (⟨b, hb, hba⟩ | ⟨s, hh⟩)
      · exact hnot a ha (hsound.opened_inj b a (hl.opened t b hb) hopened (.inr hba) ▸ hb)
      · exact ((hsound.thread t).home s _ hh).2.2 a hopened rfl
    slot := fun s i hw => hk.slot s i fun hw' => hj (hl.run.exclusive.alone j t _ hw hw')
    orphans := fun a ha => hk.orphans a (hnot a ha)
    elsewhere := fun a ha j' _ => by
      by_cases ht : j' = t
      · have hnone : ∀ l : Ledger, (∀ sc ∈ (l.thread t).scopes, uses t sc.account) →
            (l.thread t).scopes.any (·.account = a) = false := by
          intro l hs
          refine List.any_eq_false.mpr fun sc hsc => ?_
          have hne : sc.account ≠ a := fun he => hnot a ha (he ▸ hs sc hsc)
          simp [hne]
        rw [ht, hnone l hs, hnone l' (hk.scopes hs)]
      · rw [hk.thread j' ht] }

/-- A stint in two ledgers that are the same to its thread. -/
theorem Apportioned.abreast (hl' : Apportioned uses h l') (hd : Able uses h l d) (hd' : Able uses h l' d)
    (hs : SameTo d.1 (uses d.1) l l') :
    Abreast d.1 (uses d.1) l l' (l.follow d.deed).1 (l'.follow d.deed).1 ∧
      (l.follow d.deed).2 = (l'.follow d.deed).2 := by
  have habreast : Abreast d.1 (uses d.1) l l' l l' :=
    ⟨hl.placed hd.scopes, hl'.placed hd'.scopes, hs, .refl .., .still rfl rfl⟩
  exact habreast.perform hd'.lt hl.source (hl.findsOwn hd.scopes) hd.account

theorem Apportioned.keeps (hd : Able uses h l d) : KeepsTo d.1 (uses d.1) l (l.follow d.deed).1 :=
  (hl.abreast hl hd hd (.refl ..)).1.kept

theorem Apportioned.follow (hd : Able uses h l d) : Apportioned uses h (l.follow d.deed).1 where
  run := by
    have hrun := hl.run.act hd.lt hd.live hd.admits
    rwa [Holdings.after_errand] at hrun
  counts := (hl.keeps hd).toFrozen.counts hl.counts
  source s := ((hl.keeps hd).toFrozen.source s).trans (hl.source s)
  opened t a ha := ((mirrored_follow (w := true) d.deed).grows l).subset (hl.opened t a ha)
  apart := hl.apart

/-- What a thread may do it may still do after a stint. -/
theorem Apportioned.able (hd : Able uses h l d) (hx : Able uses h l x) : Able uses h (l.follow d.deed).1 x := by
  have hk := hl.keeps hd
  refine hx.mono hk.toFrozen ?_
  by_cases ht : x.1 = d.1
  · rw [ht]
    exact hk.scopes hd.scopes
  · rw [hk.thread x.1 ht]
    exact hx.scopes

end

/-! ## Stints change places -/

/-- Two ledgers are the same to every thread, and what is shared is the same. -/
structure OnPar (uses : ThreadId → Account → Prop) (l l' : Ledger) : Prop where
  same : ∀ t, SameTo t (uses t) l l'
  books : l'.books = l.books

theorem OnPar.refl (uses : ThreadId → Account → Prop) (l : Ledger) : OnPar uses l l := ⟨fun _ => .refl .., rfl⟩

theorem OnPar.able (he : OnPar uses l l') (hd : Able uses h l d) : Able uses h l' d := by
  refine hd.mono (he.same d.1).toFrozen ?_
  rw [(he.same d.1).read Thread.scopes fun _ _ => rfl]
  exact hd.scopes

theorem OnPar.trans {l'' : Ledger} (h : OnPar uses l l') (h' : OnPar uses l' l'') : OnPar uses l l'' :=
  ⟨fun t => (h.same t).trans (h'.same t), h'.books.trans h.books⟩

section
variable (hl : Apportioned uses h l)

include hl

/-- The same stint leads from ledgers on a par to ledgers on a par. -/
theorem OnPar.follow (hl' : Apportioned uses h l') (he : OnPar uses l l') (hd : Able uses h l d) :
    OnPar uses (l.follow d.deed).1 (l'.follow d.deed).1 ∧ (l.follow d.deed).2 = (l'.follow d.deed).2 := by
  have hd' := he.able hd
  obtain ⟨habreast, hsame⟩ := hl.abreast hl' hd hd' (he.same d.1)
  refine ⟨⟨fun j => ?_, habreast.step.eq he.books⟩, hsame⟩
  by_cases hj : j = d.1
  · subst hj
    exact habreast.same
  · have haside := hl.aside hd.scopes (hl.keeps hd) hj
    have haside' := hl'.aside hd'.scopes (hl'.keeps hd') hj
    exact (haside.symm.trans (he.same j)).trans haside'

/-- Stints of two threads may be taken in either order. -/
theorem Apportioned.commute (hd : Able uses h l d) (hx : Able uses h l x) (hne : d.1 ≠ x.1) :
    OnPar uses ((l.follow d.deed).1.follow x.deed).1 ((l.follow x.deed).1.follow d.deed).1 ∧
      (l.follow d.deed).2 = ((l.follow x.deed).1.follow d.deed).2 ∧
      ((l.follow d.deed).1.follow x.deed).2 = (l.follow x.deed).2 := by
  have hld := hl.follow hd
  have hlx := hl.follow hx
  have hdx := hl.able hd hx
  have hxd := hl.able hx hd
  have hasidex := hl.aside hd.scopes (hl.keeps hd) hne.symm
  have hasided := hl.aside hx.scopes (hl.keeps hx) hne
  obtain ⟨hsecondx, hsamex⟩ := hl.abreast hld hx hdx hasidex
  obtain ⟨hsecondd, hsamed⟩ := hl.abreast hlx hd hxd hasided
  refine ⟨⟨fun j => ?_, hsecondx.step.unique hsecondd.step.swap⟩, hsamed, hsamex.symm⟩
  by_cases hjd : j = d.1
  · subst hjd
    exact (hld.aside hdx.scopes hsecondx.kept hne).symm.trans hsecondd.same
  · by_cases hjx : j = x.1
    · subst hjx
      exact hsecondx.same.symm.trans (hlx.aside hxd.scopes hsecondd.kept hne.symm)
    · have hleft := (hl.aside hd.scopes (hl.keeps hd) hjd).trans (hld.aside hdx.scopes hsecondx.kept hjx)
      have hright := (hl.aside hx.scopes (hl.keeps hx) hjx).trans (hlx.aside hxd.scopes hsecondd.kept hjd)
      exact hleft.symm.trans hright

end

/-- Stints that lead from ledgers on a par to ledgers on a par, with every thread being told the same. -/
def Interchangeable (uses : ThreadId → Account → Prop) (h : Holdings) (ds ds' : List Stint) : Prop :=
  ∀ ⦃l l' : Ledger⦄, Apportioned uses h l → Apportioned uses h l' → OnPar uses l l' →
    (∀ d ∈ ds, Able uses h l d) →
    OnPar uses (l.afterStints ds) (l'.afterStints ds') ∧ ∀ t, l.replies t ds = l'.replies t ds'

variable {ds ds' : List Stint}

theorem Interchangeable.cons (hi : Interchangeable uses h ds ds') (d : Stint) :
    Interchangeable uses h (d :: ds) (d :: ds') := by
  intro l l' hl hl' he ha
  have hd := ha d (List.mem_cons_self ..)
  obtain ⟨hnext, hsame⟩ := he.follow hl hl' hd
  obtain ⟨hafter, hreplies⟩ := hi (hl.follow hd) (hl'.follow (he.able hd)) hnext fun x hx =>
    hl.able hd (ha x (List.mem_cons_of_mem _ hx))
  refine ⟨hafter, fun t => ?_⟩
  simp only [replies, hsame, hreplies]

theorem Interchangeable.refl : ∀ ds : List Stint, Interchangeable uses h ds ds
  | [] => fun _ _ _ _ he _ => ⟨he, fun _ => rfl⟩
  | d :: ds => (refl ds).cons d

theorem Interchangeable.swap (hne : d.1 ≠ x.1) (ds : List Stint) :
    Interchangeable uses h (d :: x :: ds) (x :: d :: ds) := by
  intro l l' hl hl' he ha
  have hd := ha d (List.mem_cons_self ..)
  have hx := ha x (List.mem_cons_of_mem _ (List.mem_cons_self ..))
  have hds : ∀ y ∈ ds, Able uses h l y := fun y hy => ha y (List.mem_cons_of_mem _ (List.mem_cons_of_mem _ hy))
  have hdx := hl.able hd hx
  obtain ⟨hcommute, hsamed, hsamex⟩ := hl.commute hd hx hne
  obtain ⟨hex, htoldx⟩ := he.follow hl hl' hx
  obtain ⟨hexd, htoldd⟩ := hex.follow (hl.follow hx) (hl'.follow (he.able hx)) (hl.able hx hd)
  obtain ⟨hafter, hreplies⟩ := refl ds ((hl.follow hd).follow hdx)
    ((hl'.follow (he.able hx)).follow (hex.able (hl.able hx hd))) (hcommute.trans hexd)
    fun y hy => (hl.follow hd).able hdx (hl.able hd (hds y hy))
  refine ⟨hafter, fun t => ?_⟩
  simp only [replies, hreplies, hsamed, hsamex, htoldx, htoldd]
  by_cases hdt : d.1 = t
  · have hxt : x.1 ≠ t := fun he => hne (hdt.trans he.symm)
    simp only [hdt, hxt, if_true, if_false]
  · simp only [hdt, if_false]

theorem Interchangeable.trans {ds'' : List Stint} (hi : Interchangeable uses h ds ds')
    (hi' : Interchangeable uses h ds' ds'') (hp : ∀ d ∈ ds', d ∈ ds) : Interchangeable uses h ds ds'' := by
  intro l l' hl hl' he ha
  obtain ⟨hfirst, htold⟩ := hi hl hl (.refl uses l) ha
  obtain ⟨hsecond, htold'⟩ := hi' hl hl' he fun d hd => ha d (hp d hd)
  exact ⟨hfirst.trans hsecond, fun t => (htold t).trans (htold' t)⟩

end Ledger

end HeapLedger
