import HeapLedger.Proofs.Unbatched

/-!
# What actions are built from

Everything that is done in a ledger is put together from a few kinds of steps. A step may depend on the
answer to an earlier one, and on what it sees of the ledger, but it sees nothing that a veil hides: not
the journal, not what is remembered of resolved tasks, not the slots and who is bound to them, and not what
is merely counted. So what holds of the steps and is passed on along these ways holds of every action.
-/

namespace HeapLedger

variable {α β : Type}

abbrev StepKind := ∀ α : Type, (Ledger → Ledger × α) → Prop

/-! ## The veil -/

def Service.veil (svc : Service) : Service := { svc with lookups := 0, skipped := 0, slots := {} }

def Thread.veil (th : Thread) : Thread := { th with worker := none, binding := none, recent := none }

namespace Ledger

/-- Hides what no step goes by, but for the few that are about just that. -/
def veil (l : Ledger) : Ledger :=
  { l with
    services := l.services.map Service.veil
    threads := l.threads.map Thread.veil
    recalls := true
    journal := [] }

def shroud (l : Ledger) : Ledger := { l.veil with trackers := {} }

def cover (l : Ledger) : Ledger := l.unbatch.shroud

theorem thread_veil (l : Ledger) (t : ThreadId) : l.veil.thread t = (l.thread t).veil :=
  Table.get_map _ t rfl

theorem service_veil (l : Ledger) (s : ServiceId) : l.veil.service s = (l.service s).veil :=
  Table.get_map _ s rfl

theorem veil_veil (l : Ledger) : l.veil.veil = l.veil := by
  have hservices : (l.services.map Service.veil).map Service.veil = l.services.map Service.veil :=
    Table.map_map_of_eq _ fun _ => rfl
  have hthreads : (l.threads.map Thread.veil).map Thread.veil = l.threads.map Thread.veil :=
    Table.map_map_of_eq _ fun _ => rfl
  unfold veil
  simp only [hservices, hthreads]

theorem shroud_veil (l : Ledger) : l.veil.shroud = l.shroud :=
  congrArg (fun l : Ledger => { l with trackers := {} }) l.veil_veil

theorem cover_unbatch (l : Ledger) : l.unbatch.cover = l.cover := by
  have hcontexts : (l.contexts.map Context.unbatch).map Context.unbatch = l.contexts.map Context.unbatch :=
    Table.map_map_of_eq _ fun _ => rfl
  have hservices : (l.services.map Service.unbatch).map Service.unbatch = l.services.map Service.unbatch :=
    Table.map_map_of_eq _ fun _ => rfl
  simp only [cover, shroud, veil, unbatch, hcontexts, hservices]

theorem cover_veil (l : Ledger) : l.veil.cover = l.cover := by
  have hservices : ((l.services.map Service.veil).map Service.unbatch).map Service.veil =
      (l.services.map Service.unbatch).map Service.veil := by
    simp only [Table.map, List.map_map]
    rfl
  have hthreads : (l.threads.map Thread.veil).map Thread.veil = l.threads.map Thread.veil :=
    Table.map_map_of_eq _ fun _ => rfl
  simp only [cover, shroud, veil, unbatch, hservices, hthreads]

theorem cover_shroud (l : Ledger) : l.shroud.cover = l.cover := l.cover_veil

theorem cover_cover (l : Ledger) : l.cover.cover = l.cover := (cover_shroud l.unbatch).trans l.cover_unbatch

end Ledger

open Ledger

/-! ## Building -/

/-- A step that is built from steps of some kind. -/
inductive Built (u : Ledger → Ledger) (P : StepKind) : ∀ {α : Type}, (Ledger → Ledger × α) → Prop
  | step {α : Type} {f} (h : P α f) : Built u P f
  | done {α : Type} (a : α) : Built u P fun l => (l, a)
  /-- A step that depends on the answer to an earlier one. -/
  | bind {α β : Type} {f : Ledger → Ledger × α} {g : α → Ledger → Ledger × β} (hf : Built u P f)
      (hg : ∀ a, Built u P (g a)) : Built u P fun l => g (f l).2 (f l).1
  /-- A step that depends on what is seen behind the veil. -/
  | read {α β : Type} {g : α → Ledger → Ledger × β} (v : Ledger → α) (hv : ∀ l, v (u l) = v l)
      (hg : ∀ a, Built u P (g a)) : Built u P fun l => g (v l) l
  /-- A step that enters the hook, and another one for a thread that is inside it. -/
  | guarded {α : Type} (t : ThreadId) {f g : Ledger → Ledger × α} (hf : Built u P f) (hg : Built u P g) :
      Built u P fun l => if l.inHook t then g l else l.guarded t f

abbrev BuiltOnly (u : Ledger → Ledger) (P : StepKind) (f : Ledger → Ledger) : Prop := Built u P fun l => (f l, ())

section
variable {u : Ledger → Ledger} {P : StepKind}

theorem Built.congr {f g : Ledger → Ledger × α} (h : Built u P f) (he : ∀ l, g l = f l) : Built u P g :=
  (funext he : g = f) ▸ h

theorem Built.split {f : Ledger → Ledger × β} (v : Ledger → α) (hv : ∀ l, v (u l) = v l)
    (h : ∀ a, ∃ g, Built u P g ∧ ∀ l, v l = a → f l = g l) : Built u P f := by
  obtain ⟨g, hg⟩ := Classical.axiomOfChoice h
  exact (Built.read v hv fun a => (hg a).1).congr fun l => (hg (v l)).2 l rfl

theorem Built.branch {f : Ledger → Ledger × α} {h : Ledger → Ledger × β} (hf : Built u P f)
    (hg : ∀ a, ∃ g, Built u P g ∧ ∀ l, (f l).2 = a → h l = g (f l).1) : Built u P h := by
  obtain ⟨g, hg⟩ := Classical.axiomOfChoice hg
  exact (hf.bind fun a => (hg a).1).congr fun l => (hg (f l).2).2 l rfl

theorem Built.map {f : Ledger → Ledger × α} (hf : Built u P f) (v : α → β) :
    Built u P fun l => ((f l).1, v (f l).2) :=
  hf.bind fun a => .done (v a)

theorem Built.quiet {f : Ledger → Ledger × α} (hf : Built u P f) : BuiltOnly u P fun l => (f l).1 :=
  hf.map fun _ => ()

theorem BuiltOnly.answer {f : Ledger → Ledger} (hf : BuiltOnly u P f) (a : α) : Built u P fun l => (f l, a) :=
  hf.map fun _ => a

theorem BuiltOnly.seq {f : Ledger → Ledger} {g : Ledger → Ledger × α} (hf : BuiltOnly u P f)
    (hg : Built u P g) : Built u P fun l => g (f l) :=
  hf.bind fun _ => hg

theorem Built.ite {f g : Ledger → Ledger × α} (b : Prop) [Decidable b] (hf : Built u P f)
    (hg : Built u P g) : Built u P fun l => if b then f l else g l := by
  by_cases hb : b <;> simpa [hb]

theorem BuiltOnly.foldl {f : Ledger → α → Ledger} (hf : ∀ a, BuiltOnly u P (f · a)) :
    ∀ as : List α, BuiltOnly u P fun l => as.foldl f l
  | [] => .done ()
  | a :: as => (hf a).seq (foldl hf as)

/-- Steps that are built themselves may be taken apart. A thicker veil hides no less. -/
theorem Built.mono {u' : Ledger → Ledger} {Q : StepKind} (hv : ∀ l, u (u' l) = u l)
    (hP : ∀ {α : Type} {f : Ledger → Ledger × α}, P α f → Built u' Q f) {f : Ledger → Ledger × α}
    (h : Built u P f) : Built u' Q f := by
  induction h with
  | step h => exact hP h
  | done a => exact .done a
  | bind hf hg ihf ihg => exact ihf.bind ihg
  | read v hv' hg ih => exact .read v (fun l => by rw [← hv', hv, hv']) ih
  | guarded t hf hg ihf ihg => exact .guarded t ihf ihg

/-- What every step keeps, and what has nothing to do with the hook, is kept by whatever is built. -/
theorem Built.keeps {I : Ledger → Prop} (hP : ∀ {α : Type} {f : Ledger → Ledger × α}, P α f → ∀ l, I l → I (f l).1)
    (hI : ∀ l t b, I l → I (l.setInHook t b)) {f : Ledger → Ledger × α} (h : Built u P f) :
    ∀ l, I l → I (f l).1 := by
  induction h with
  | step h => exact hP h
  | done a => exact fun _ hl => hl
  | bind hf hg ihf ihg => exact fun l hl => ihg _ _ (ihf l hl)
  | read v hv hg ih => exact fun l hl => ih _ l hl
  | guarded t hf hg ihf ihg =>
    intro l hl
    dsimp only
    split
    · exact ihg l hl
    · exact hI _ t false (ihf _ (hI l t true hl))

end

/-! ## Kinds of steps -/

def Entry.Plain : Entry → Prop
  | resolved _ | bound .. | notice (.workerBound _) | notice (.workerUnbound _) | charged _ | carried ..
  | reported _ => False
  | _ => True

def Tame (f : Thread → Thread) : Prop :=
  ∀ th inHook holdsGuard carry worker binding recent,
    f { th with inHook, holdsGuard, carry, worker, binding, recent } =
      { f th with inHook, holdsGuard, carry, worker, binding, recent }

def Aside (f : Ledger → Ledger × α) : Prop :=
  ∀ (l : Ledger) services threads recalls journal, f { l with services, threads, recalls, journal } =
    ({ (f l).1 with services, threads, recalls, journal }, (f l).2)

def Apart (f : Ledger → Ledger × α) : Prop :=
  ∀ (l : Ledger) trackers contexts services threads recalls journal,
    f { l with trackers, contexts, services, threads, recalls, journal } =
      ({ (f l).1 with trackers, contexts, services, threads, recalls, journal }, (f l).2)

def Blockless (f : Ledger → Ledger × α) : Prop :=
  ∀ l : Ledger, (f l).1.heap = l.heap ∧ (f l).1.allocators = l.allocators

inductive Basic (t : ThreadId) : StepKind
  | post {e : Entry} (he : e.Plain) : Basic t Unit fun l => (l.post e, ())
  | thread {f : Thread → Thread} (hf : Tame f) (hh : ∀ th, (f th).home = th.home) :
      Basic t Unit fun l => (l.modifyThread t f, ())
  | addService (source : TaskSource) (slots : Nat) (i : TrackerId) (threshold : UInt64) :
      Basic t _ fun l => l.addService source slots i threshold
  | aside {α : Type} {f : Ledger → Ledger × α} (hf : Aside f) (hb : Blockless f) : Basic t α f

inductive Core (t : ThreadId) (S : ServiceId → Prop) : StepKind
  | basic {α : Type} {f : Ledger → Ledger × α} (h : Basic t α f) : Core t S α f
  | charged (v : Verdict) : Core t S Unit fun l => (l.post (.charged v), ())
  | carried (j : ThreadId) (s : ServiceId) (c : ContextId) (d : Delta) :
      Core t S Unit fun l => (l.post (.carried j s c d), ())
  | thread {f : Thread → Thread} (hf : Tame f) : Core t S Unit fun l => (l.modifyThread t f, ())
  | skip (s : ServiceId) : Core t S Unit fun l => (l.countSkip s, ())
  | carry (carry : Option Carry) : Core t S Unit fun l => (l.modifyThread t fun th => { th with carry }, ())
  | resolve {s : ServiceId} (hs : S s) (k : TaskKey) : Core t S _ fun l => l.resolve t s k

inductive Inner (t : ThreadId) (s : ServiceId) : StepKind
  | charged (v : Verdict) : Inner t s Unit fun l => (l.post (.charged v), ())
  | carry (carry : Option Carry) : Inner t s Unit fun l => (l.modifyThread t fun th => { th with carry }, ())
  | resolve (k : TaskKey) : Inner t s _ fun l => l.resolve t s k
  | absorb (c : ContextId) (d : Delta) : Inner t s Unit fun l => (l.absorb refuse t c d, ())

inductive Settling (t : ThreadId) (s : ServiceId) : StepKind
  | skip : Settling t s Unit fun l => (l.countSkip s, ())
  | newHome : Settling t s Unit fun l => (l.newHome t s, ())
  | carried (c : ContextId) (d : Delta) : Settling t s Unit fun l => (l.post (.carried t s c d), ())
  | absorb (c : ContextId) (d : Delta) : Settling t s Unit fun l => (l.absorb refuse t c d, ())

inductive Whole (t : ThreadId) (s : ServiceId) : StepKind
  | inner {α : Type} {f : Ledger → Ledger × α} (h : Inner t s α f) : Whole t s α f
  | settling {α : Type} {f : Ledger → Ledger × α} (h : Settling t s α f) : Whole t s α f

/-- Steps of a thread for which a whole charge is one. -/
inductive Outer (t : ThreadId) : StepKind
  | basic {α : Type} {f : Ledger → Ledger × α} (h : Basic t α f) : Outer t α f
  | charge (s : ServiceId) (d : Delta) : Outer t _ fun l => l.charge t s d
  | settle (s : ServiceId) : Outer t _ fun l => l.settle t s

/-- Steps of a thread for which a whole charge is one, and so is all that depends on when contexts commit. -/
inductive Part (t : ThreadId) : StepKind
  | post {e : Entry} (he : e.Plain) (hb : e.unbatch = some e) : Part t Unit fun l => (l.post e, ())
  | thread {f : Thread → Thread} (hf : Tame f) (hh : ∀ th, (f th).home = th.home) :
      Part t Unit fun l => (l.modifyThread t f, ())
  | context (c : ContextId) {f : Context → Context} (hf : ∀ ctx cache, f { ctx with cache } = { f ctx with cache }) :
      Part t Unit fun l => (l.modifyContext c f, ())
  | apart {α : Type} {f : Ledger → Ledger × α} (hf : Apart f) (hb : Blockless f) : Part t α f
  | charge (s : ServiceId) (d : Delta) : Part t _ fun l => l.charge t s d
  | settle (s : ServiceId) : Part t _ fun l => l.settle t s
  | flush (c : ContextId) : Part t Unit fun l => ((l.flush charge t c).1, ())
  | newContext (s : ServiceId) (k : TaskKey) (i : TrackerId) (initialized : Bool) :
      Part t _ fun l => l.newContext s k i initialized
  | newCounter (label : String) (parent : Option TrackerId) : Part t _ fun l => l.newTracker (.counter label {}) parent
  | closing (a : Account) :
      Part t Unit fun l => (l.notice (.accountClosed a.key (l.context a.context).pending), ())

inductive Handling (t : ThreadId) : StepKind
  | outer {α : Type} {f : Ledger → Ledger × α} (h : Outer t α f) : Handling t α f
  | count (s : ServiceId) : Handling t Unit fun l =>
      (l.modifyService s fun svc => { svc with registrations := svc.registrations + 1 }, ())
  | report (r : Report) : Handling t Unit fun l => (l.post (.reported r), ())
  | blocks {α : Type} {f : Ledger → Ledger × α} (hf : Aside f) : Handling t α f

inductive Ending (t : ThreadId) : StepKind
  | outer {α : Type} {f : Ledger → Ledger × α} (h : Outer t α f) : Ending t α f
  | endHome : Ending t Unit fun l => (l.modifyThread t fun th => { th with home := .closed }, ())

inductive LastPart (t : ThreadId) : StepKind
  | part {α : Type} {f : Ledger → Ledger × α} (h : Part t α f) : LastPart t α f
  | endHome : LastPart t Unit fun l => (l.modifyThread t fun th => { th with home := .closed }, ())

theorem Built.handling {t : ThreadId} {f : Ledger → Ledger × α} (h : Built veil (Outer t) f) :
    Built veil (Handling t) f :=
  h.mono veil_veil fun h => .step (.outer h)

theorem Built.ending {t : ThreadId} {f : Ledger → Ledger × α} (h : Built veil (Outer t) f) :
    Built veil (Ending t) f :=
  h.mono veil_veil fun h => .step (.outer h)

theorem Built.last {t : ThreadId} {f : Ledger → Ledger × α} (h : Built cover (Part t) f) :
    Built cover (LastPart t) f :=
  h.mono cover_cover fun h => .step (.part h)

namespace Tame

variable {f : Thread → Thread} (hf : Tame f) (th : Thread)

include hf

theorem eq_with : f th = { f th with
    inHook := th.inHook, holdsGuard := th.holdsGuard, carry := th.carry, worker := th.worker
    binding := th.binding, recent := th.recent } :=
  hf th th.inHook th.holdsGuard th.carry th.worker th.binding th.recent

theorem inHook : (f th).inHook = th.inHook := (congrArg Thread.inHook (hf.eq_with th) :)

theorem holdsGuard : (f th).holdsGuard = th.holdsGuard := (congrArg Thread.holdsGuard (hf.eq_with th) :)

theorem carry : (f th).carry = th.carry := (congrArg Thread.carry (hf.eq_with th) :)

theorem worker : (f th).worker = th.worker := (congrArg Thread.worker (hf.eq_with th) :)

theorem binding : (f th).binding = th.binding := (congrArg Thread.binding (hf.eq_with th) :)

theorem recent : (f th).recent = th.recent := (congrArg Thread.recent (hf.eq_with th) :)

end Tame

namespace Aside

variable {f : Ledger → Ledger × α} (hf : Aside f) (l : Ledger)

include hf

theorem fst_eq : (f l).1 = { (f l).1 with
    services := l.services, threads := l.threads, recalls := l.recalls, journal := l.journal } :=
  congrArg Prod.fst (hf l l.services l.threads l.recalls l.journal)

theorem services : (f l).1.services = l.services := (congrArg Ledger.services (hf.fst_eq l) :)

theorem threads : (f l).1.threads = l.threads := (congrArg Ledger.threads (hf.fst_eq l) :)

theorem journal : (f l).1.journal = l.journal := (congrArg Ledger.journal (hf.fst_eq l) :)

end Aside

namespace Apart

variable {f : Ledger → Ledger × α} (hf : Apart f) (l : Ledger)

include hf

theorem fst_eq : (f l).1 = { (f l).1 with
    trackers := l.trackers, contexts := l.contexts, services := l.services, threads := l.threads, recalls := l.recalls
    journal := l.journal } :=
  congrArg Prod.fst (hf l l.trackers l.contexts l.services l.threads l.recalls l.journal)

theorem trackers : (f l).1.trackers = l.trackers := (congrArg Ledger.trackers (hf.fst_eq l) :)

theorem contexts : (f l).1.contexts = l.contexts := (congrArg Ledger.contexts (hf.fst_eq l) :)

omit l in
theorem aside : Aside f := by
  intro l services threads recalls journal
  rw [hf l l.trackers l.contexts services threads recalls journal, ← hf.trackers l, ← hf.contexts l]

end Apart

end HeapLedger
