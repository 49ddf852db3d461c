import HeapLedger.Proofs.Agree

/-!
# The journal is not read

Nothing that is done in a ledger goes by what is written down. So ledgers that differ only in how their journals
begin stay so for ever, write down the same from then on, and tell the same.
-/

namespace HeapLedger

open Ledger

variable {α : Type} {j j' : List Entry}

/-- Two ledgers whose journals begin with `j` and with `j'`. Nothing else is different. -/
def Parted (j j' : List Entry) (l l' : Ledger) : Prop :=
  ∃ new, l.journal = new ++ j ∧ l' = { l with journal := new ++ j' }

/-- A step that writes down the same, and does the same otherwise, whatever has been written down before. -/
theorem Agree.unread {f : Ledger → Ledger × α} (written : Ledger → List Entry)
    (hf : ∀ l journal, f { l with journal } = ({ (f l).1 with journal := written l ++ journal }, (f l).2)) :
    Agree (Parted j j') f f := by
  rintro l _ ⟨new, hl, rfl⟩
  have hjournal : (f l).1.journal = written l ++ l.journal := by
    have hself := congrArg (fun r => r.1.journal) (hf l l.journal)
    exact hself
  have hstep := hf l (new ++ j')
  rw [hstep]
  refine ⟨⟨written l ++ new, ?_, ?_⟩, rfl⟩
  · rw [hjournal, hl, List.append_assoc]
  · rw [List.append_assoc]

theorem Agree.silent {f : Ledger → Ledger × α} (hf : ∀ l journal, f { l with journal } = ({ (f l).1 with journal }, (f l).2)) :
    Agree (Parted j j') f f :=
  .unread (fun _ => []) hf

theorem AgreeOnly.silent {f : Ledger → Ledger} (hf : ∀ l journal, f { l with journal } = { f l with journal }) :
    AgreeOnly (Parted j j') f f :=
  .unread (fun _ => []) fun l journal => congrArg (·, ()) (hf l journal)

theorem agree_post (e : Entry) : AgreeOnly (Parted j j') (·.post e) (·.post e) :=
  .unread (fun _ => [e]) fun _ _ => rfl

theorem agree_modifyThread (t : ThreadId) (f : Thread → Thread) :
    AgreeOnly (Parted j j') (·.modifyThread t f) (·.modifyThread t f) := .silent fun _ _ => rfl

theorem agree_setInHook (t : ThreadId) (b : Bool) :
    AgreeOnly (Parted j j') (·.setInHook t b) (·.setInHook t b) := agree_modifyThread ..

theorem agree_modifyService (s : ServiceId) (f : Service → Service) :
    AgreeOnly (Parted j j') (·.modifyService s f) (·.modifyService s f) := .silent fun _ _ => rfl

theorem Aside.agree {f : Ledger → Ledger × α} (hf : Aside f) : Agree (Parted j j') f f :=
  .silent fun l journal => by
    have hother := hf l l.services l.threads l.recalls journal
    have hself := hf.fst_eq l
    rw [hother, hself]

theorem memorize_journal (l : Ledger) (t : ThreadId) (s : ServiceId) (k : TaskKey) (answer : Option ContextId)
    (journal : List Entry) :
    ({ l with journal } : Ledger).memorize t s k answer = { l.memorize t s k answer with journal } := by
  unfold memorize
  have hslot : ({ l with journal } : Ledger).boundSlot t s = l.boundSlot t s := rfl
  rw [hslot]
  cases l.boundSlot t s with
  | some i => rfl
  | none => cases answer <;> rfl

theorem seek_journal (l : Ledger) (t : ThreadId) (s : ServiceId) (k : TaskKey) (journal : List Entry) :
    ({ l with journal } : Ledger).seek t s k = ({ (l.seek t s k).1 with journal }, (l.seek t s k).2) := by
  unfold seek
  have hreused : ({ l with journal } : Ledger).reused t s k = l.reused t s k := rfl
  rw [hreused]
  cases l.reused t s k with
  | some c => rfl
  | none => exact congrArg (·, l.taskContext t s k) (memorize_journal (l.lookup t s k).1 ..)

theorem agree_resolve (t : ThreadId) (s : ServiceId) (k : TaskKey) :
    Agree (Parted j j') (·.resolve t s k) (·.resolve t s k) := by
  refine .unread (fun l => [.resolved
    { thread := t, service := s, source := (l.service s).source, slot := l.boundSlot t s, key := k
      known := l.taskContext t s k, live := (l.taskContext t s k).any fun c => !(l.context c).closed
      context := (l.seek t s k).2 }]) fun l journal => ?_
  unfold resolve
  rw [seek_journal]
  rfl

/-! ## Steps -/

section
variable {t : ThreadId} {f : Ledger → Ledger × α}

theorem Basic.agree (h : Basic t α f) : Agree (Parted j j') f f := by
  cases h with
  | post he => exact agree_post _
  | thread hf hh => exact agree_modifyThread ..
  | addService source slots i threshold =>
    refine .silent fun l journal => ?_
    unfold Ledger.addService
    dsimp only
    split <;> rfl
  | aside hf hb => exact hf.agree

theorem Core.agree {S : ServiceId → Prop} (h : Core t S α f) : Agree (Parted j j') f f := by
  cases h with
  | basic h => exact h.agree
  | charged v => exact agree_post _
  | carried i s c d => exact agree_post _
  | thread hf => exact agree_modifyThread ..
  | skip s => exact agree_modifyService ..
  | carry carry => exact agree_modifyThread ..
  | resolve hs k => exact agree_resolve ..

theorem Built.unread {P : StepKind}
    (hP : ∀ {α : Type} {f : Ledger → Ledger × α}, P α f → Agree (Parted j j') f f) (h : Built veil P f) :
    Agree (Parted j j') f f := by
  refine h.agree ?_ ?_ agree_setInHook hP
  · rintro l _ ⟨new, -, rfl⟩
    rfl
  · rintro l _ ⟨new, -, rfl⟩ t
    rfl

theorem Built.unread_core {S : ServiceId → Prop} (h : Built veil (Core t S) f) : Agree (Parted j j') f f :=
  h.unread Core.agree

theorem Outer.agree (h : Outer t α f) : Agree (Parted j j') f f := (Outer.built h).unread_core

theorem Handling.agree (h : Handling t α f) : Agree (Parted j j') f f := by
  cases h with
  | outer h => exact h.agree
  | count s => exact agree_modifyService ..
  | report r => exact agree_post _
  | blocks hf => exact hf.agree

end

/-! ## Whatever is done -/

namespace Ledger

variable (t : ThreadId)

theorem agree_bindWorker (s : ServiceId) : Agree (Parted j j') (·.bindWorker t s) (·.bindWorker t s) := by
  refine .unread (fun l => if (l.thread t).worker.isSome then [] else
    (l.service s).freeSlot?.elim [] fun i => [.notice (.workerBound i), .bound t s i]) fun l journal => ?_
  have hworker : ({ l with journal } : Ledger).thread t = l.thread t := rfl
  have hfree : (({ l with journal } : Ledger).service s).freeSlot? = (l.service s).freeSlot? := rfl
  rw [bindWorker_eq, bindWorker_eq, hworker, hfree]
  cases (l.thread t).worker.isSome with
  | true => rfl
  | false => cases (l.service s).freeSlot? <;> rfl

theorem agree_unbindWorker : Agree (Parted j j') (·.unbindWorker t) (·.unbindWorker t) := by
  refine .unread (fun l => (l.thread t).binding.elim [] fun w => [.notice (.workerUnbound w.slot)])
    fun l journal => ?_
  have hbinding : (({ l with journal } : Ledger).thread t).binding = (l.thread t).binding := rfl
  rw [unbindWorker_eq, unbindWorker_eq, hbinding]
  cases (l.thread t).binding <;> rfl

theorem agree_guardThread : Agree (Parted j j') (·.guardThread t) (·.guardThread t) := by
  refine .silent fun l journal => ?_
  unfold guardThread
  have hin : ({ l with journal } : Ledger).inHook t = l.inHook t := rfl
  rw [hin]
  cases l.inHook t <;> rfl

theorem agree_unguardThread : Agree (Parted j j') (·.unguardThread t) (·.unguardThread t) := by
  refine .silent fun l journal => ?_
  unfold unguardThread
  have hholds : (({ l with journal } : Ledger).thread t).holdsGuard = (l.thread t).holdsGuard := rfl
  rw [hholds]
  cases (l.thread t).holdsGuard <;> rfl

theorem agree_exit : AgreeOnly (Parted j j') (·.exit t) (·.exit t) := by
  have hunwind : AgreeOnly (Parted j j') (fun l => l.unwind t (l.depth t)) fun l => l.unwind t (l.depth t) := by
    refine (Agree.read (R := Parted j j') (·.depth t) (·.depth t) ?_ fun depth =>
      (unwind_built t depth).unread Outer.agree :)
    rintro l _ ⟨new, -, rfl⟩
    rfl
  exact hunwind.seq ((agree_unbindWorker t).quiet.seq
    ((agree_unguardThread t).quiet.seq (destroys_core t).unread_core))

theorem agree_perform (a : Action) : Agree (Parted j j') (·.perform t a) (·.perform t a) := by
  cases hs : a.special with
  | false => exact (perform_built t hs).unread Handling.agree
  | true =>
    cases a with
    | exit => exact (agree_exit t).answer Outcome.exited
    | guard => exact (agree_guardThread t).map Outcome.entered
    | unguard => exact (agree_unguardThread t).map Outcome.left
    | bindWorker s => exact (agree_bindWorker t s).toldOr .bind .bound
    | unbindWorker => exact (agree_unbindWorker t).map Outcome.unbound
    | forgetBinding =>
      have hforget : Agree (Parted j j') (·.forgetBinding t) (·.forgetBinding t) := .silent fun _ _ => rfl
      exact hforget.map Outcome.forgotten
    | chargeBare s d => exact (chargeBare_built t (S := fun _ => True) trivial d).unread_core.map Outcome.charged
    | describe subject => exact .silent fun l journal => by cases subject <;> rfl
    | _ => cases hs

theorem agree_follow (d : Deed) : Agree (Parted j j') (·.follow d) (·.follow d) := by
  cases d with
  | start => exact .silent fun _ _ => rfl
  | act t a => exact agree_perform t a

end Ledger

/-- No history tells how a journal began. -/
theorem Parted.history {l l' : Ledger} (h : Parted j j' l l') (ds : List Deed) :
    Parted j j' (l.after ds) (l'.after ds) ∧ l.outcomes ds = l'.outcomes ds :=
  Agree.after agree_follow ds h

end HeapLedger
