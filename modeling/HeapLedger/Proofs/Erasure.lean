import HeapLedger.Ledger.Perform

/-!
# What is remembered, taken out

`forget` takes out of a ledger how often its sources were asked and whether use is made of what is
remembered. With `w` it takes out the worker slots as well, the bindings to them, and everything that
is remembered.

Whatever is remembered of a key was once the answer to a question, which the journal still knows of.
-/

namespace HeapLedger

variable {w : Bool}

/-! ## Forgetting -/

def Service.forget (w : Bool) (svc : Service) : Service :=
  { svc with lookups := 0, slots := if w then {} else svc.slots }

def Thread.forget (w : Bool) (th : Thread) : Thread :=
  { th with
    worker := if w then none else th.worker
    binding := if w then none else th.binding
    recent := if w then none else th.recent }

def Entry.forget (w : Bool) : Entry → Option Entry
  | resolved r => some (.resolved { r with slot := if w then none else r.slot })
  | notice (.workerBound i) => if w then none else some (.notice (.workerBound i))
  | notice (.workerUnbound i) => if w then none else some (.notice (.workerUnbound i))
  | bound t s i => if w then none else some (.bound t s i)
  | e => some e

theorem Service.forget_default : (default : Service).forget w = default := by cases w <;> rfl

theorem Thread.forget_default : (default : Thread).forget w = default := by cases w <;> rfl

namespace Ledger

def forget (w : Bool) (l : Ledger) : Ledger :=
  { l with
    services := l.services.map (·.forget w)
    threads := l.threads.map (·.forget w)
    recalls := true
    journal := l.journal.filterMap (·.forget w) }

variable (l : Ledger)

theorem service_forget (s : ServiceId) : (l.forget w).service s = (l.service s).forget w :=
  Table.get_map _ s Service.forget_default

theorem thread_forget (t : ThreadId) : (l.forget w).thread t = (l.thread t).forget w :=
  Table.get_map _ t Thread.forget_default

theorem forget_modifyThread {f : Thread → Thread} (t : ThreadId)
    (hf : ∀ th, (f th).forget w = f (th.forget w)) :
    (l.modifyThread t f).forget w = (l.forget w).modifyThread t f :=
  congrArg (fun threads : Table Thread => { l.forget w with threads }) (Table.map_modify _ t hf)

theorem forget_modifyService {f : Service → Service} (s : ServiceId)
    (hf : ∀ svc, (f svc).forget w = f (svc.forget w)) :
    (l.modifyService s f).forget w = (l.forget w).modifyService s f :=
  congrArg (fun services : Table Service => { l.forget w with services }) (Table.map_modify _ s hf)

theorem forget_modifyThread_of_eq {f : Thread → Thread} (t : ThreadId)
    (hf : ∀ th, (f th).forget w = th.forget w) : (l.modifyThread t f).forget w = l.forget w :=
  congrArg (fun threads : Table Thread => { l.forget w with threads }) (Table.map_modify_of_eq _ t hf)

theorem forget_modifyService_of_eq {f : Service → Service} (s : ServiceId)
    (hf : ∀ svc, (f svc).forget w = svc.forget w) : (l.modifyService s f).forget w = l.forget w :=
  congrArg (fun services : Table Service => { l.forget w with services }) (Table.map_modify_of_eq _ s hf)

theorem forget_post {e e' : Entry} (h : e.forget w = some e') : (l.post e).forget w = (l.forget w).post e' :=
  congrArg (fun journal : List Entry => { l.forget w with journal }) (List.filterMap_cons_some h)

theorem forget_post_of_none {e : Entry} (h : e.forget w = none) : (l.post e).forget w = l.forget w :=
  congrArg (fun journal : List Entry => { l.forget w with journal }) (List.filterMap_cons_none h)

/-! ### What is seen all the same -/

theorem active_forget (t : ThreadId) : ((l.forget w).thread t).active = (l.thread t).active := by
  rw [thread_forget]; rfl

theorem source_forget (s : ServiceId) : ((l.forget w).service s).source = (l.service s).source := by
  rw [service_forget]; rfl

theorem taskContext_forget (t : ThreadId) (s : ServiceId) (k : TaskKey) :
    (l.forget w).taskContext t s k = l.taskContext t s k := by
  simp only [taskContext, scopedContext, active_forget, source_forget]
  rfl

end Ledger

/-! ## Answers -/

def Entry.resolution? : Entry → Option Resolution
  | resolved r => some r
  | _ => none

def resolutions (entries : List Entry) : List Resolution := entries.filterMap Entry.resolution?

/-- What a source promises: once a service has got a context for a key, the source keeps that context under
the key, alive, whenever the service comes across the key again. -/
def Resolution.Upholds (r older : Resolution) : Prop :=
  older.service = r.service → older.key = r.key → ∀ c ∈ older.context, r.known = some c ∧ r.live = true

instance : DecidableRel Resolution.Upholds := fun r older =>
  inferInstanceAs (Decidable (older.service = r.service → older.key = r.key →
    ∀ c ∈ older.context, r.known = some c ∧ r.live = true))

def Kept (entries : List Entry) : Prop := (resolutions entries).Pairwise Resolution.Upholds

instance (entries : List Entry) : Decidable (Kept entries) :=
  inferInstanceAs (Decidable ((resolutions entries).Pairwise Resolution.Upholds))

def Asked (s : ServiceId) (k : TaskKey) (c : ContextId) (entries : List Entry) : Prop :=
  ∃ r ∈ resolutions entries, r.service = s ∧ r.key = k ∧ r.context = some c

theorem resolutions_suffix {older entries : List Entry} (hj : older <:+ entries) :
    resolutions older <:+ resolutions entries := hj.filterMap _

theorem Asked.mono {s : ServiceId} {k : TaskKey} {c : ContextId} {older entries : List Entry}
    (hj : older <:+ entries) : Asked s k c older → Asked s k c entries
  | ⟨r, hr, h⟩ => ⟨r, (resolutions_suffix hj).subset hr, h⟩

theorem Kept.older {older entries : List Entry} (h : Kept entries) (hj : older <:+ entries) : Kept older :=
  h.sublist (resolutions_suffix hj).sublist

/-- Nothing but the slot is taken out of a resolution. -/
theorem resolutions_forget (entries : List Entry) :
    resolutions (entries.filterMap (·.forget w)) =
      (resolutions entries).map fun r => { r with slot := if w then none else r.slot } := by
  induction entries with
  | nil => rfl
  | cons e rest ih =>
    cases e with
    | resolved r => exact congrArg (_ :: ·) ih
    | notice n => cases n <;> cases w <;> exact ih
    | bound => cases w <;> exact ih
    | _ => exact ih

theorem asked_forget {s : ServiceId} {k : TaskKey} {c : ContextId} {entries : List Entry} :
    Asked s k c (entries.filterMap (·.forget w)) ↔ Asked s k c entries := by
  unfold Asked
  rw [resolutions_forget]
  constructor
  · rintro ⟨r, hr, h⟩
    obtain ⟨r', hr', rfl⟩ := List.mem_map.mp hr
    exact ⟨r', hr', h⟩
  · rintro ⟨r, hr, h⟩
    exact ⟨_, List.mem_map.mpr ⟨r, hr, rfl⟩, h⟩

namespace Ledger

structure Traced (l : Ledger) : Prop where
  slot : ∀ s i k c, ((l.service s).slots.get i).cached = some (k, c) → Asked s k c l.journal
  recent : ∀ t e, (l.thread t).recent = some e → Asked e.service e.key e.context l.journal

theorem Traced.mono {l l' : Ledger} (h : Traced l)
    (hs : ∀ s i e, ((l'.service s).slots.get i).cached = some e → ((l.service s).slots.get i).cached = some e)
    (ht : ∀ t e, (l'.thread t).recent = some e → (l.thread t).recent = some e)
    (hj : l.journal <:+ l'.journal) : Traced l' where
  slot s i k c hc := (h.slot s i k c (hs s i _ hc)).mono hj
  recent t e he := (h.recent t e (ht t e he)).mono hj

theorem Traced.remembered {l : Ledger} (h : Traced l) {t : ThreadId} {s : ServiceId} {k : TaskKey} {c : ContextId}
    (hc : l.remembered t s k = some c) : Asked s k c l.journal := by
  unfold Ledger.remembered at hc
  split at hc
  · exact h.slot _ _ _ _ (Slot.recall?_eq_some_iff.mp hc)
  · obtain ⟨e, he, hk⟩ := Option.bind_eq_some_iff.mp hc
    split at hk
    · rename_i hk'
      obtain ⟨rfl, rfl⟩ := hk'
      obtain rfl := Option.some.inj hk
      exact h.recent _ _ he
    · cases hk

/-- Two ledgers that differ only in what is forgotten. In the first, every key was resolved to what the
source had under it. -/
structure Twin (w : Bool) (l l' : Ledger) : Prop where
  same : l.forget w = l'.forget w
  left : Traced l
  right : Traced l'
  known : ∀ r ∈ resolutions l.journal, r.context = r.known

theorem Twin.asked {l l' : Ledger} (h : Twin w l l') {s : ServiceId} {k : TaskKey} {c : ContextId} :
    Asked s k c l'.journal ↔ Asked s k c l.journal := by
  have hj : l.journal.filterMap (·.forget w) = l'.journal.filterMap (·.forget w) :=
    congrArg Ledger.journal h.same
  rw [← asked_forget (w := w), ← hj, asked_forget]

theorem Twin.read {α : Type} {l l' : Ledger} (h : Twin w l l') (v : Ledger → α)
    (hv : ∀ l, v (l.forget w) = v l) : v l = v l' := by
  rw [← hv l, h.same, hv l']

end Ledger

end HeapLedger
