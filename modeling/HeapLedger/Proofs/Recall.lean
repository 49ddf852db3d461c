import HeapLedger.Proofs.ActionMirrors

/-!
# What is remembered is not seen

Of two histories, one in a ledger that makes use of what it remembers and one in a ledger that does not,
or of two that differ in what is done about bindings, nothing is told that would tell them apart, as long
as the sources keep their promises.
-/

namespace HeapLedger

open Ledger

variable {w : Bool}

/-! ## Histories -/

inductive Deed
  | start
  | act (t : ThreadId) (a : Action)

namespace Deed

def binds : Deed → Bool
  | start => false
  | act _ a => a.binds

def hushed (w : Bool) : Deed → Bool
  | start => false
  | act _ a => a.hushed w

end Deed

namespace Ledger

def follow (l : Ledger) : Deed → Ledger × Outcome
  | .start => (l.newThread.1, .done)
  | .act t a => l.perform t a

def after (l : Ledger) : List Deed → Ledger
  | [] => l
  | d :: ds => (l.follow d).1.after ds

/-- What is told in the course of a history, except where it may be about what is forgotten. -/
def tale (w : Bool) (l : Ledger) : List Deed → List Outcome
  | [] => []
  | d :: ds => if d.hushed w then (l.follow d).1.tale w ds else (l.follow d).2 :: (l.follow d).1.tale w ds

end Ledger

/-- Two histories with the same deeds, up to those that are about bindings, if these are forgotten. -/
inductive Rebound (w : Bool) : List Deed → List Deed → Prop
  | nil : Rebound w [] []
  | both {ds ds'} (d : Deed) (h : Rebound w ds ds') : Rebound w (d :: ds) (d :: ds')
  | left {d ds ds'} (hw : w = true) (hd : d.binds = true) (h : Rebound w ds ds') : Rebound w (d :: ds) ds'
  | right {d ds ds'} (hw : w = true) (hd : d.binds = true) (h : Rebound w ds ds') : Rebound w ds (d :: ds')

theorem Rebound.refl : ∀ ds : List Deed, Rebound w ds ds
  | [] => .nil
  | d :: ds => .both d (refl ds)

theorem hushed_of_binds {d : Deed} (h : d.binds = true) : d.hushed true = true := by
  cases d with
  | start => cases h
  | act t a => cases a <;> first | rfl | cases h

/-! ## Two histories at once -/

namespace Ledger

theorem mirrored_newThread : Mirrored w fun l => l.newThread.1 := by
  refine .of_forget (fun l => (l.newThread.1, ())) (fun l => ?_) (fun _ => List.suffix_refl _) (fun _ => rfl)
    fun {l} h => ⟨h.slot, fun t e he => ?_⟩
  · have hthreads : (l.threads.add {}).map (·.forget w) = (l.threads.map (·.forget w)).add {} := by
      rw [Table.map_add]
      exact congrArg (Table.add _) Thread.forget_default
    exact congrArg (fun threads => (({ l.forget w with threads } : Ledger), ())) hthreads.symm
  · have he : ((l.threads.add {}).get t).recent = some e := he
    rw [Table.get_add] at he
    split at he
    · cases he
    · exact h.recent t e he

theorem mirrors_follow {d : Deed} (hd : d.hushed w = false) : Mirrors w fun l => l.follow d := by
  cases d with
  | start => exact mirrored_newThread.answer Outcome.done
  | act t a => exact mirrors_perform t hd

theorem mirrored_follow (d : Deed) : Mirrored w fun l => (l.follow d).1 := by
  cases d with
  | start => exact mirrored_newThread
  | act t a => exact mirrored_perform t a

theorem hidden_follow {l : Ledger} {d : Deed} (hd : d.binds = true) : Hidden l (l.follow d).1 := by
  cases d with
  | start => cases hd
  | act t a => exact hidden_perform t hd

theorem after_append (l : Ledger) (ds ds' : List Deed) : l.after (ds ++ ds') = (l.after ds).after ds' := by
  induction ds generalizing l with
  | nil => rfl
  | cons d ds ih => exact ih _

theorem after_grows (l : Ledger) (ds : List Deed) : l.journal <:+ (l.after ds).journal := by
  induction ds generalizing l with
  | nil => exact List.suffix_refl _
  | cons d ds ih => exact ((mirrored_follow (w := true) d).grows l).trans (ih _)

end Ledger

/-- Histories that differ only in what is forgotten lead from twins to twins, and tell the same. -/
theorem Rebound.twin {ds ds' : List Deed} (h : Rebound w ds ds') : ∀ {l l' : Ledger}, Twin w l l' →
    Kept (l.after ds).journal → Twin w (l.after ds) (l'.after ds') ∧ l.tale w ds = l'.tale w ds' := by
  induction h with
  | nil => exact fun ht _ => ⟨ht, rfl⟩
  | @both ds ds' d h ih =>
    intro l l' ht hk
    have hfirst : Kept (l.follow d).1.journal := hk.older (after_grows _ ds)
    obtain ⟨hafter, htale⟩ := ih ((mirrored_follow d).twin ht hfirst).1 hk
    refine ⟨hafter, ?_⟩
    unfold tale
    cases hd : d.hushed w with
    | true => simpa only [if_true] using htale
    | false =>
      have hsame : (l.follow d).2 = (l'.follow d).2 := ((mirrors_follow hd).twin ht hfirst).2
      simp only [Bool.false_eq_true, if_false, hsame, htale]
  | @left d ds ds' hw hd h ih =>
    intro l l' ht hk
    subst hw
    have hhidden : Hidden l (l.follow d).1 := hidden_follow hd
    have hfirst : Twin true (l.follow d).1 l' :=
      ⟨hhidden.forget.trans ht.same, hhidden.traced ht.left, ht.right, by rw [hhidden.resolutions]; exact ht.known⟩
    obtain ⟨hafter, htale⟩ := ih hfirst hk
    refine ⟨hafter, Eq.trans ?_ htale⟩
    rw [tale, hushed_of_binds hd, if_pos rfl]
  | @right d ds ds' hw hd h ih =>
    intro l l' ht hk
    subst hw
    have hhidden : Hidden l' (l'.follow d).1 := hidden_follow hd
    have hfirst : Twin true l (l'.follow d).1 :=
      ⟨ht.same.trans hhidden.forget.symm, ht.left, hhidden.traced ht.right, ht.known⟩
    obtain ⟨hafter, htale⟩ := ih hfirst hk
    refine ⟨hafter, htale.trans (Eq.symm ?_)⟩
    rw [tale, hushed_of_binds hd, if_pos rfl]

theorem traced_empty (recalls : Bool) : Traced { recalls } where
  slot s i k c hc := by cases hc
  recent t e he := by cases he

theorem twin_empty (recalls : Bool) : Twin w {} { recalls } where
  same := rfl
  left := traced_empty true
  right := traced_empty recalls
  known r hr := by cases hr

/-! ## What is told of charges -/

def Entry.verdict? : Entry → Option Verdict
  | charged v => some v
  | _ => none

def verdicts (entries : List Entry) : List Verdict := entries.filterMap Entry.verdict?

theorem verdicts_forget (entries : List Entry) : verdicts (entries.filterMap (·.forget w)) = verdicts entries := by
  induction entries with
  | nil => rfl
  | cons e rest ih =>
    cases e with
    | charged v => exact congrArg (_ :: ·) ih
    | notice n => cases n <;> cases w <;> exact ih
    | bound => cases w <;> exact ih
    | _ => exact ih

/-- The same went to the same contexts and to the same trackers, and was skipped by the same services. -/
structure Ledger.Alike (l l' : Ledger) : Prop where
  verdicts : verdicts l'.journal = verdicts l.journal
  contexts : l'.contexts = l.contexts
  trackers : l'.trackers = l.trackers
  skipped : ∀ s, (l'.service s).skipped = (l.service s).skipped

theorem Ledger.Twin.alike {l l' : Ledger} (h : Twin w l l') : Alike l l' where
  verdicts := by
    have hj : l'.journal.filterMap (·.forget w) = l.journal.filterMap (·.forget w) :=
      congrArg Ledger.journal h.same.symm
    rw [← verdicts_forget (w := w), hj, verdicts_forget]
  contexts := (h.read Ledger.contexts fun _ => rfl).symm
  trackers := (h.read Ledger.trackers fun _ => rfl).symm
  skipped s := (h.read (fun l => (l.service s).skipped) fun l => by rw [service_forget]; rfl).symm

/-- As long as sources keep their promises, no history tells whether use is made of what is remembered, at any
point of it. A key is always resolved to what the source has under it, so a context that has gone is never
charged in the place of another, and one that is published is found at once. What was resolved before
is resolved to the same context as long as that is alive. Only the counts of questions to the sources differ.
Nor does any history tell who was bound to which worker slot, except where it is about just that. -/
theorem recall_invisible (ds : List Deed) (hk : Kept (({} : Ledger).after ds).journal) :
    (resolutions (({} : Ledger).after ds).journal).Pairwise (fun r older =>
      older.service = r.service → older.key = r.key → ∀ c ∈ older.context, r.context = some c ∧ r.live = true) ∧
    ∀ pre, pre <+: ds → ∀ recalls : Bool,
      (∀ r ∈ resolutions (({} : Ledger).after pre).journal, r.context = r.known) ∧
      (({ recalls } : Ledger).after pre).forget false = (({} : Ledger).after pre).forget false ∧
      Alike (({} : Ledger).after pre) (({ recalls } : Ledger).after pre) ∧
      ({ recalls } : Ledger).tale false pre = ({} : Ledger).tale false pre ∧
      ∀ other, Rebound true pre other →
        Alike (({} : Ledger).after pre) (({ recalls } : Ledger).after other) ∧
        ({ recalls } : Ledger).tale true other = ({} : Ledger).tale true pre := by
  have hearlier : ∀ pre, pre <+: ds → Kept (({} : Ledger).after pre).journal := by
    rintro pre ⟨rest, rfl⟩
    rw [after_append] at hk
    exact hk.older (after_grows _ rest)
  refine ⟨?_, fun pre hpre recalls => ?_⟩
  · have hknown := ((Rebound.refl ds).twin (twin_empty (w := false) true) hk).1.known
    refine hk.imp_of_mem fun {r older} hr _ h hs hkey c hc => ?_
    obtain ⟨hc', hlive⟩ := h hs hkey c hc
    exact ⟨(hknown r hr).trans hc', hlive⟩
  · obtain ⟨htwin, htale⟩ := (Rebound.refl pre).twin (twin_empty (w := false) recalls) (hearlier pre hpre)
    refine ⟨htwin.known, htwin.same.symm, htwin.alike, htale.symm, fun other hother => ?_⟩
    obtain ⟨htwin', htale'⟩ := hother.twin (twin_empty recalls) (hearlier pre hpre)
    exact ⟨htwin'.alike, htale'.symm⟩

def migration : List Deed :=
  [.start, .start, .act 0 .newRoster, .act 0 (.newService { threshold := 10, source := .roster 0 }), .act 0 .newKey,
    .act 0 (.newContext ⟨1⟩ 0 0), .act 0 (.markInitialized 0), .act 0 (.publish ⟨1⟩ 0 0), .act 0 (.bindWorker 0),
    .act 0 (.activate 0 (some ⟨1⟩)), .act 0 (.charge 0 7), .act 0 (.charge 0 2), .act 0 (.activate 0 none),
    .act 1 (.activate 0 (some ⟨1⟩)), .act 1 (.charge 0 9), .act 1 (.charge 0 1)]

theorem recall_invisible_migration :
    Kept (({} : Ledger).after migration).journal ∧
    (({ recalls := false } : Ledger).after migration).contexts = (({} : Ledger).after migration).contexts ∧
    ((({} : Ledger).after migration).service 0).lookups = 2 ∧
    ((({ recalls := false } : Ledger).after migration).service 0).lookups = 4 := by
  have hk : Kept (({} : Ledger).after migration).journal := by decide
  obtain ⟨-, hsame⟩ := recall_invisible migration hk
  obtain ⟨-, -, halike, -⟩ := hsame migration (List.prefix_refl _) false
  exact ⟨hk, halike.contexts, by decide, by decide⟩

end HeapLedger
