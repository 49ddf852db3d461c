import HeapLedger.Proofs.Stints

/-!
# Interleavings

However threads take turns that share no account, each of them is told the same, and the ledger ends up with the
same. As long as every single thread does its stints in the same order, one order of all stints comes from another
when stints that are next to each other change places.
-/

namespace HeapLedger

open Ledger

/-! ## Orders of stints -/

/-- Stints of different threads that are next to each other change places, any number of times. -/
inductive Reordered : List Stint → List Stint → Prop
  | nil : Reordered [] []
  | cons {ds ds'} (d : Stint) (h : Reordered ds ds') : Reordered (d :: ds) (d :: ds')
  | swap {d x : Stint} (hne : d.1 ≠ x.1) (ds : List Stint) : Reordered (d :: x :: ds) (x :: d :: ds)
  | trans {ds ds' ds''} (h : Reordered ds ds') (h' : Reordered ds' ds'') : Reordered ds ds''

theorem Reordered.refl : ∀ ds : List Stint, Reordered ds ds
  | [] => .nil
  | d :: ds => .cons d (refl ds)

theorem Reordered.perm {ds ds' : List Stint} (h : Reordered ds ds') : ds.Perm ds' := by
  induction h with
  | nil => exact .nil
  | cons d _ ih => exact .cons d ih
  | swap hne ds => exact .swap _ _ ds
  | trans _ _ ih ih' => exact ih.trans ih'

theorem Reordered.interchangeable {uses : ThreadId → Account → Prop} {h : Holdings} {ds ds' : List Stint}
    (hr : Reordered ds ds') : Interchangeable uses h ds ds' := by
  induction hr with
  | nil => exact .refl []
  | cons d _ ih => exact ih.cons d
  | swap hne ds => exact .swap hne ds
  | trans hr _ ih ih' => exact ih.trans ih' fun _ hd => hr.perm.mem_iff.mpr hd

/-- A stint may be done before those of other threads. -/
theorem reordered_front {d : Stint} (post : List Stint) : ∀ {pre : List Stint}, (∀ x ∈ pre, x.1 ≠ d.1) →
    Reordered (d :: (pre ++ post)) (pre ++ d :: post)
  | [], _ => .refl _
  | x :: pre, hne => by
    have hx : d.1 ≠ x.1 := (hne x (List.mem_cons_self ..)).symm
    have hrest := reordered_front post fun y hy => hne y (List.mem_cons_of_mem x hy)
    exact (Reordered.swap hx _).trans (hrest.cons x)

/-- Only the order in which every single thread does its stints matters. -/
theorem reordered_of_filter : ∀ {ds ds' : List Stint}, (∀ t, ds.filter (·.1 = t) = ds'.filter (·.1 = t)) →
    Reordered ds ds'
  | [], [], _ => .nil
  | [], d :: ds', hf => by
    have hnone := hf d.1
    simp at hnone
  | d :: ds, ds', hf => by
    have hown : ds'.filter (·.1 = d.1) = d :: ds.filter (·.1 = d.1) := by
      rw [← hf d.1]
      simp
    obtain ⟨pre, post, rfl, hpre, -, hpost⟩ := List.filter_eq_cons_iff.mp hown
    have hne : ∀ x ∈ pre, x.1 ≠ d.1 := fun x hx => by simpa using hpre x hx
    have hrest : Reordered ds (pre ++ post) := by
      refine reordered_of_filter fun t => ?_
      have ht := hf t
      rw [List.filter_append] at ht ⊢
      by_cases hdt : d.1 = t
      · subst hdt
        have hnone : pre.filter (·.1 = d.1) = [] := List.filter_eq_nil_iff.mpr fun x hx => by simpa using hne x hx
        rw [hnone, hpost]
        rfl
      · simpa [hdt] using ht
    exact (hrest.cons d).trans (reordered_front post hne)

/-! ## What becomes of a ledger -/

theorem Service.eq_of_plain {svc svc' : Service} (hp : svc'.plain = svc.plain) (hs : svc'.slots = svc.slots)
    (hl : svc'.lookups = svc.lookups) (hk : svc'.skipped = svc.skipped) : svc' = svc :=
  calc
    svc' = { svc'.plain with slots := svc'.slots, lookups := svc'.lookups, skipped := svc'.skipped } := rfl
    _ = { svc.plain with slots := svc.slots, lookups := svc.lookups, skipped := svc.skipped } := by rw [hp, hs, hl, hk]
    _ = svc := rfl

namespace Ledger

variable {uses : ThreadId → Account → Prop} {h : Holdings} {l l' m m' : Ledger} {ds : List Stint}

/-- From `l` to `m`, threads have left alone what is nobody's own. -/
structure Stems (uses : ThreadId → Account → Prop) (l m : Ledger) : Prop where
  contexts_size : l.contexts.size ≤ m.contexts.size
  identity : ∀ c < l.contexts.size, (m.context c).identity = (l.context c).identity
  worker : ∀ t, (m.thread t).worker = (l.thread t).worker
  stays : ∀ t s c, (l.thread t).home = .settled s c → (m.thread t).home = .settled s c
  home : ∀ t s c, (m.thread t).home = .settled s c → (l.thread t).home = .settled s c ∨ l.contexts.size ≤ c
  context : ∀ c < l.contexts.size, (∀ t, ¬ Belongs t (uses t) l c) → m.context c = l.context c
  fresh : ∀ c, l.contexts.size ≤ c → c < m.contexts.size → ∃ t s, (m.thread t).home = .settled s c
  slot : ∀ s i, (∀ t, (l.thread t).worker ≠ some ⟨s, i⟩) → m.slot s i = l.slot s i
  orphans : ∀ a, (∀ t, ¬ uses t a) → m.orphans.count a = l.orphans.count a

theorem Stems.refl (uses : ThreadId → Account → Prop) (l : Ledger) : Stems uses l l where
  contexts_size := Nat.le_refl _
  identity _ _ := rfl
  worker _ := rfl
  stays _ _ _ hh := hh
  home _ _ _ hh := .inl hh
  context _ _ _ := rfl
  fresh _ hge hlt := absurd hlt (Nat.not_lt.mpr hge)
  slot _ _ _ := rfl
  orphans _ _ := rfl

theorem Stems.keeps {t : ThreadId} (h : Stems uses l m) (hk : KeepsTo t (uses t) m m') : Stems uses l m' := by
  have hstays : ∀ j s c, (m.thread j).home = .settled s c → (m'.thread j).home = .settled s c := by
    intro j s c hh
    by_cases hj : j = t
    · subst hj
      exact hk.stays s c hh
    · rw [hk.thread j hj]
      exact hh
  exact {
    contexts_size := Nat.le_trans h.contexts_size hk.contexts_size
    identity := fun c hc => (hk.identity c (Nat.lt_of_lt_of_le hc h.contexts_size)).trans (h.identity c hc)
    worker := fun j => by
      rw [← h.worker]
      by_cases hj : j = t
      · subst hj
        exact hk.worker
      · rw [hk.thread j hj]
    stays := fun j s c hh => hstays j s c (h.stays j s c hh)
    home := fun j s c hh => by
      by_cases hj : j = t
      · subst hj
        rcases hk.home s c hh with hh | ⟨hge, -⟩
        · exact h.home j s c hh
        · exact .inr (Nat.le_trans h.contexts_size hge)
      · rw [hk.thread j hj] at hh
        exact h.home j s c hh
    context := fun c hc hn => by
      have hnone : ¬ Belongs t (uses t) m c := by
        rintro (ha | ⟨s, hh⟩)
        · exact hn t (.inl ha)
        · rcases h.home t s c hh with hh | hge
          · exact hn t (.inr ⟨s, hh⟩)
          · exact absurd hc (Nat.not_lt.mpr hge)
      rw [hk.context c (Nat.lt_of_lt_of_le hc h.contexts_size) hnone, h.context c hc hn]
    fresh := fun c hge hlt => by
      rcases Nat.lt_or_ge c m.contexts.size with hc | hc
      · obtain ⟨j, s, hh⟩ := h.fresh c hge hc
        exact ⟨j, s, hstays j s c hh⟩
      · obtain ⟨s, hh⟩ := hk.fresh c hc hlt
        exact ⟨t, s, hh⟩
    slot := fun s i hn => (hk.slot s i (h.worker t ▸ hn t)).trans (h.slot s i hn)
    orphans := fun a hn => (hk.orphans a (hn t)).trans (h.orphans a hn) }

theorem Apportioned.afterStints : ∀ {ds : List Stint} {m : Ledger}, Apportioned uses h m → Stems uses l m →
    (∀ d ∈ ds, Able uses h m d) → Apportioned uses h (m.afterStints ds) ∧ Stems uses l (m.afterStints ds)
  | [], _, hm, hs, _ => ⟨hm, hs⟩
  | d :: ds, m, hm, hs, ha => by
    have hd := ha d (List.mem_cons_self ..)
    have hnext : Stems uses l (m.follow d.deed).1 := hs.keeps (hm.keeps hd)
    exact (hm.follow hd).afterStints hnext fun x hx => hm.able hd (ha x (List.mem_cons_of_mem _ hx))

section
variable (hs : Stems uses l m) (hs' : Stems uses l m') (he : OnPar uses m m')

include hs hs' he

theorem OnPar.context {c : ContextId} (hc : c < l.contexts.size) : m'.context c = m.context c := by
  by_cases hn : ∃ t, Belongs t (uses t) l c
  · obtain ⟨t, ⟨a, ha, rfl⟩ | ⟨s, hh⟩⟩ := hn
    · exact (he.same t).context a ha
    · have hhome := (he.same t).home
      rw [hs.stays t s c hh, hs'.stays t s c hh] at hhome
      cases hhome with
      | settled hlike =>
        rw [Context.Like, hs'.identity c hc, ← hs.identity c hc] at hlike
        exact hlike
  · have hnone := not_exists.mp hn
    rw [hs.context c hc hnone, hs'.context c hc hnone]

theorem OnPar.slot (s : ServiceId) (i : Nat) : m'.slot s i = m.slot s i := by
  by_cases hn : ∃ t, (l.thread t).worker = some ⟨s, i⟩
  · obtain ⟨t, hw⟩ := hn
    exact (he.same t).slot s i ((hs.worker t).trans hw)
  · have hnone := not_exists.mp hn
    rw [hs.slot s i hnone, hs'.slot s i hnone]

theorem OnPar.service (s : ServiceId) : m'.service s = m.service s := by
  have hfrozen := (he.same 0).toFrozen
  refine Service.eq_of_plain (hfrozen.service s) ?_ (congrFun (congrArg Books.lookups he.books) s)
    (congrFun (congrArg Books.skipped he.books) s)
  refine congrArg Table.mk (List.ext_getElem (hfrozen.slots_size s) fun i hi hi' => ?_)
  rw [← Table.get_eq_getElem hi, ← Table.get_eq_getElem hi']
  exact he.slot hs hs' s i

theorem OnPar.orphans : m'.orphans.Perm m.orphans := by
  refine List.perm_iff_count.mpr fun a => ?_
  by_cases hn : ∃ t, uses t a
  · obtain ⟨t, ha⟩ := hn
    exact (he.same t).orphans a ha
  · have hnone := not_exists.mp hn
    rw [hs.orphans a hnone, hs'.orphans a hnone]

end

/-! ## Threads without an account in common -/

def Acting (l : Ledger) (ds : List Stint) (t : ThreadId) (a : Account) : Prop :=
  (∃ e, (t, e) ∈ ds) ∧ l.Uses ds t a

theorem apportioned_acting (hr : Run h l) (hc : l.Counts) (hs : ∀ s < l.services.size, (l.service s).source = .scopes)
    (ho : ∀ d ∈ ds, ∀ a ∈ d.2.account?, l.Opened a)
    (hu : ∀ d ∈ ds, ∀ d' ∈ ds, ∀ a, l.Uses ds d.1 a → l.Uses ds d'.1 a → d.1 = d'.1) :
    Apportioned (l.Acting ds) h l where
  run := hr
  counts := hc
  source s := by
    rcases Nat.lt_or_ge s l.services.size with hlt | hge
    · exact hs s hlt
    · rw [service, Table.get_of_size_le hge]
      rfl
  opened := by
    rintro t a ⟨-, ⟨sc, hsc, rfl⟩ | ⟨e, he, ha⟩⟩
    · exact ((hr.reach.1.thread t).scope sc hsc).1
    · exact ho (t, e) he a ha
  apart := by
    rintro t t' a ⟨⟨e, he⟩, ha⟩ ⟨⟨e', he'⟩, ha'⟩
    exact hu (t, e) he (t', e') he' a ha ha'

theorem able_acting {d : Stint} (hd : d ∈ ds) (ht : d.1 < l.threads.size) (he : d.1 ∉ h.ended)
    (ha : l.Admits h d.2.action) : Able (l.Acting ds) h l d where
  lt := ht
  live := he
  admits := ha
  scopes sc hsc := ⟨⟨d.2, hd⟩, .inl ⟨sc, hsc, rfl⟩⟩
  account _ hae := ⟨⟨d.2, hd⟩, .inr ⟨d.2, hd, hae⟩⟩

theorem Counts.totals?_eq (hc : l.Counts) (i : TrackerId) : (l.tracker i).totals? = some (l.totals i) := by
  obtain ⟨label, totals, hk⟩ := hc i
  rw [Ledger.totals, Tracker.totals?, hk]
  rfl

end Ledger

/-- Threads that make use of no account in common do not notice each other, wherever a run has led with counters
and with services that go by scopes. However they take turns in charging, flushing, and entering and leaving scopes,
each of them is told the same. Every context that was there is the same in the end. A context that was not there is a
thread's own, and is in the same state, whatever its number and its key. All counters have the same consumption and
as many commits, though perhaps not the same peak, and every service has asked and skipped as often. -/
theorem interleavings_agree {h : Holdings} {l : Ledger} (hr : Run h l) (hc : l.Counts)
    (hs : ∀ s < l.services.size, (l.service s).source = .scopes) {ds ds' : List Stint}
    (ha : ∀ d ∈ ds, d.1 < l.threads.size ∧ d.1 ∉ h.ended ∧ l.Allows h d.2)
    (hu : ∀ d ∈ ds, ∀ d' ∈ ds, ∀ a, l.Uses ds d.1 a → l.Uses ds d'.1 a → d.1 = d'.1)
    (hi : ∀ t, ds.filter (·.1 = t) = ds'.filter (·.1 = t)) :
    let m := l.afterStints ds
    let m' := l.afterStints ds'
    (∀ t, l.replies t ds = l.replies t ds') ∧
      (∀ c < l.contexts.size, m'.context c = m.context c) ∧
      m'.contexts.size = m.contexts.size ∧
      (∀ c, l.contexts.size ≤ c → (c < m.contexts.size → ∃ t s, (m.thread t).home = .settled s c) ∧
        (c < m'.contexts.size → ∃ t s, (m'.thread t).home = .settled s c)) ∧
      (∀ t, SameHome m m' (m.thread t).home (m'.thread t).home ∧
        m'.thread t = { m.thread t with home := (m'.thread t).home }) ∧
      (∀ i, ∃ totals totals', (m.tracker i).totals? = some totals ∧ (m'.tracker i).totals? = some totals' ∧
        totals'.consumption = totals.consumption ∧ totals'.commits = totals.commits) ∧
      (∀ s, m'.service s = m.service s) ∧
      m'.orphans.Perm m.orphans := by
  intro m m'
  have hl := apportioned_acting hr hc hs (fun d hd => (ha d hd).2.2.2) hu
  have hable : ∀ d ∈ ds, Able (l.Acting ds) h l d := fun d hd =>
    able_acting hd (ha d hd).1 (ha d hd).2.1 (ha d hd).2.2.1
  have hreordered := reordered_of_filter hi
  obtain ⟨hpar, hreplies⟩ := hreordered.interchangeable hl hl (.refl _ l) hable
  obtain ⟨hm, hstems⟩ := hl.afterStints (.refl _ l) hable
  obtain ⟨hm', hstems'⟩ := hl.afterStints (.refl _ l) fun d hd => hable d (hreordered.perm.mem_iff.mpr hd)
  refine ⟨hreplies, fun c => hpar.context hstems hstems', congrArg Books.contexts hpar.books,
    fun c hc => ⟨hstems.fresh c hc, hstems'.fresh c hc⟩,
    fun t => ⟨(hpar.same t).home, (hpar.same t).thread⟩, fun i => ?_, hpar.service hstems hstems',
    hpar.orphans hstems hstems'⟩
  exact ⟨m.totals i, m'.totals i, hm.counts.totals?_eq i, hm'.counts.totals?_eq i,
    congrFun (congrArg Books.consumption hpar.books) i, congrFun (congrArg Books.commits hpar.books) i⟩

def alternating : List Stint :=
  [(0, .charge 0 20), (1, .charge 0 (-30)), (0, .flush ⟨⟨1⟩, 0⟩), (1, .flushThread 0)]

def successive : List Stint :=
  [(1, .charge 0 (-30)), (1, .flushThread 0), (0, .charge 0 20), (0, .flush ⟨⟨1⟩, 0⟩)]

theorem interleavings_agree_alternating :
    let l := entered.newThread.1
    ((l.afterStints alternating).tracker 0).totals? = some ⟨-3, 27, 4⟩ ∧
      ((l.afterStints successive).tracker 0).totals? = some ⟨-3, 0, 4⟩ ∧
      (∀ t, l.replies t alternating = l.replies t successive) ∧
      (l.afterStints successive).context 0 = (l.afterStints alternating).context 0 := by
  intro l
  have hcounts : l.Counts := by
    rintro (_ | i)
    · exact ⟨"threads", _, rfl⟩
    · exact ⟨"", {}, congrArg Tracker.kind (Table.get_of_size_le (Nat.le_add_left 1 i))⟩
  have hscopes : ∀ t, ∀ sc ∈ (l.thread t).scopes, t = 0 := by
    rintro (_ | _ | t) sc hsc
    · rfl
    · cases hsc
    · have hnone : l.thread (t + 2) = default := Table.get_of_size_le (Nat.le_add_left 2 t)
      rw [hnone] at hsc
      cases hsc
  have huses : ∀ t a, l.Uses alternating t a → t = 0 := by
    rintro t a (⟨sc, hsc, -⟩ | ⟨e, he, ha⟩)
    · exact hscopes t sc hsc
    · simp only [alternating, List.mem_cons, Prod.mk.injEq, List.not_mem_nil, or_false] at he
      rcases he with ⟨rfl, rfl⟩ | ⟨rfl, rfl⟩ | ⟨rfl, rfl⟩ | ⟨rfl, rfl⟩
      · rfl
      · cases ha
      · rfl
      · cases ha
  have hallowed : ∀ d ∈ alternating, d.1 < l.threads.size ∧ d.1 ∉ ([] : List ThreadId) ∧
      l.Allows { accounts := [⟨⟨1⟩, 0⟩] } d.2 := by
    intro d hd
    simp only [alternating, List.mem_cons, List.not_mem_nil, or_false] at hd
    rcases hd with rfl | rfl | rfl | rfl
    · exact ⟨by decide, by simp, show 0 < Table.size _ by decide, fun _ ha => by cases ha⟩
    · exact ⟨by decide, by simp, show 0 < Table.size _ by decide, fun _ ha => by cases ha⟩
    · refine ⟨by decide, by simp, ?_, fun a ha => ?_⟩
      · exact .account (a := ⟨⟨1⟩, 0⟩) (List.mem_cons_self ..)
      · obtain rfl := Option.some.inj ha
        exact .tail _ (.tail _ (.head _))
    · exact ⟨by decide, by simp, show 0 < Table.size _ by decide, fun _ ha => by cases ha⟩
  have hsource : ∀ s < l.services.size, (l.service s).source = .scopes := by
    intro s hs
    obtain rfl := Nat.lt_one_iff.mp hs
    rfl
  have horder : ∀ t, alternating.filter (·.1 = t) = successive.filter (·.1 = t) := by rintro (_ | _ | t) <;> rfl
  obtain ⟨hreplies, hcontexts, -⟩ := interleavings_agree run_entered.start hcounts hsource hallowed
    (fun _ _ _ _ a ha ha' => (huses _ a ha).trans (huses _ a ha').symm) horder
  exact ⟨by decide +kernel, by decide +kernel, hreplies, hcontexts 0 (by decide)⟩

end HeapLedger
