import HeapLedger.Proofs.Run
import HeapLedger.Proofs.Stride
import Mathlib.Logic.Function.Basic

/-!
# Threads at work on slots

Between any two steps of a thread that takes a slot or gives one back, other threads may do whatever they do. A thread
refers to a slot from the moment it sets the flag to the moment it resets it, for good if the binding is forgotten.
`Exclusive` is what holds at every moment. A step of one thread is a `Turn`, which keeps it.
-/

namespace HeapLedger

open Ledger

/-- What threads have in hands, the ledger, and how far each thread is. -/
structure Crew where
  holdings : Holdings := {}
  ledger : Ledger := {}
  /-- The services that are dropped. -/
  gone : List ServiceId := []
  stage : ThreadId → Option Stage := fun _ => none

namespace Crew

def put (c : Crew) (t : ThreadId) (r : Ledger × Option Stage) : Crew :=
  { c with ledger := r.1, stage := Function.update c.stage t r.2 }

/-- A thread sits in a slot, or keeps its flag set. -/
def Refers (c : Crew) (t : ThreadId) (w : Worker) : Prop :=
  (c.ledger.thread t).worker = some w ∨ ∃ g, c.stage t = some g ∧ g.kept = some w

def Fits (c : Crew) (t : ThreadId) : Stage → Prop
  | .trying .. | .claimed _ | .keyless _ | .blank _ | .unseated _ | .told _ (.error (.noFreeSlot _)) =>
    (c.ledger.thread t).worker = none
  | .told s (.ok i) => (c.ledger.thread t).binding = some ⟨s, i⟩
  | .told _ (.error .threadAlreadyBound) => (c.ledger.thread t).worker.isSome
  | .leaving w | .leavingKeyless w | .leavingBlank w => (c.ledger.thread t).binding = some w

/-- What is so of a thread that takes a slot or gives it back. -/
structure Poised (c : Crew) (t : ThreadId) (g : Stage) : Prop where
  lt : t < c.ledger.threads.size
  served : ∀ s, g.service? = some s → s ∉ c.gone
  fits : c.Fits t g

/-- Slots are exclusive: no two threads refer to one, and no thread to more than one. The flag is set if and only
if a thread refers to the slot, what is free is empty, and both cells are set or none, unless the thread that sits
there has just cleared the first. -/
structure Exclusive (c : Crew) : Prop where
  bound : ∀ s ∉ c.gone, ∀ i, (c.ledger.slot s i).bound = true ↔ ∃ t, c.Refers t ⟨s, i⟩
  alone : ∀ t t' w, c.Refers t w → c.Refers t' w → t = t'
  single : ∀ t w w', c.Refers t w → c.Refers t w' → w = w'
  held : ∀ t w, (c.ledger.thread t).binding = some w → (c.ledger.thread t).worker = some w ∧ w.service ∉ c.gone
  free : ∀ s ∉ c.gone, ∀ i, (c.ledger.slot s i).bound = false → (c.ledger.slot s i).Blank
  blank : ∀ t g w, c.stage t = some g → g.blank? = some w → (c.ledger.slot w.service w.slot).Blank
  keyless : ∀ t w, c.stage t = some (.leavingKeyless w) → (c.ledger.slot w.service w.slot).key = none
  paired : ∀ s i, (c.ledger.slot s i).Paired ∨ ∃ t, c.stage t = some (.leavingKeyless ⟨s, i⟩)
  poised : ∀ t g, c.stage t = some g → c.Poised t g

section
variable {c c' : Crew} {t : ThreadId} {r r' : Option Worker}

theorem Fits.congr {g : Stage} (hw : (c'.ledger.thread t).worker = (c.ledger.thread t).worker)
    (hb : (c'.ledger.thread t).binding = (c.ledger.thread t).binding) (h : c.Fits t g) : c'.Fits t g := by
  cases g with
  | told s r =>
    cases r with
    | ok i => exact hb.trans h
    | error e =>
      cases e with
      | noFreeSlot n => exact hw.trans h
      | threadAlreadyBound => exact (congrArg Option.isSome hw).trans h
  | trying | claimed | keyless | blank | unseated => exact hw.trans h
  | leaving | leavingKeyless | leavingBlank => exact hb.trans h

/-- A thread at a stage where its slot is empty refers to that slot. -/
theorem Exclusive.refers_of_blank (h : c.Exclusive) {g : Stage} {w : Worker} (hg : c.stage t = some g)
    (hb : g.blank? = some w) : c.Refers t w := by
  have hfits := (h.poised t g hg).fits
  cases g with
  | told s r =>
    cases r with
    | ok i =>
      obtain rfl := Option.some.inj hb
      exact .inl (h.held t _ hfits).1
    | error e => cases hb
  | leavingBlank w' =>
    obtain rfl := Option.some.inj hb
    exact .inl (h.held t _ hfits).1
  | claimed | keyless | blank | unseated => exact .inr ⟨_, hg, hb⟩
  | trying | leaving | leavingKeyless => cases hb

/-- One thread takes a step. It refers to at most one slot before and after it, and leaves all others alone. -/
structure Turn (t : ThreadId) (r r' : Option Worker) (c c' : Crew) : Prop where
  gone : c'.gone = c.gone
  size : c.ledger.threads.size ≤ c'.ledger.threads.size
  worker : ∀ j ≠ t, (c'.ledger.thread j).worker = (c.ledger.thread j).worker
  binding : ∀ j ≠ t, (c'.ledger.thread j).binding = (c.ledger.thread j).binding
  stage : ∀ j ≠ t, c'.stage j = c.stage j
  before : ∀ w, c.Refers t w ↔ r = some w
  after : ∀ w, c'.Refers t w ↔ r' = some w
  slot : ∀ s i, r ≠ some ⟨s, i⟩ → r' ≠ some ⟨s, i⟩ → c'.ledger.slot s i = c.ledger.slot s i
  taken : ∀ w, r' = some w → r = some w ∨ w.service ∉ c.gone ∧ (c.ledger.slot w.service w.slot).bound = false
  freed : ∀ w, r = some w → r' = some w ∨
    (c'.ledger.slot w.service w.slot).bound = false ∧ (c'.ledger.slot w.service w.slot).Blank
  bound : ∀ w, r' = some w → w.service ∉ c.gone → (c'.ledger.slot w.service w.slot).bound = true
  held : ∀ w, (c'.ledger.thread t).binding = some w → (c'.ledger.thread t).worker = some w ∧ w.service ∉ c.gone
  blank : ∀ g w, c'.stage t = some g → g.blank? = some w → (c'.ledger.slot w.service w.slot).Blank
  keyless : ∀ w, c'.stage t = some (.leavingKeyless w) → (c'.ledger.slot w.service w.slot).key = none
  paired : ∀ s i, r' = some ⟨s, i⟩ → (c'.ledger.slot s i).Paired ∨ c'.stage t = some (.leavingKeyless ⟨s, i⟩)
  poised : ∀ g, c'.stage t = some g → c'.Poised t g

theorem Turn.refers (h : Turn t r r' c c') {j : ThreadId} (hj : j ≠ t) (w : Worker) :
    c'.Refers j w ↔ c.Refers j w := by
  unfold Refers
  rw [h.worker j hj, h.stage j hj]

/-- No other thread refers to the slot of the one that takes a step. -/
theorem Turn.others (h : Turn t r r' c c') (he : c.Exclusive) {j : ThreadId} (hj : j ≠ t) {w : Worker}
    (hw : c.Refers j w) : r ≠ some w ∧ r' ≠ some w := by
  have hbefore : r ≠ some w := fun hr => hj (he.alone j t w hw ((h.before w).mpr hr))
  refine ⟨hbefore, fun hr' => ?_⟩
  rcases h.taken w hr' with hr | ⟨hs, hfree⟩
  · exact hbefore hr
  · have hbound := (he.bound w.service hs w.slot).mpr ⟨j, hw⟩
    rw [hfree] at hbound
    cases hbound

theorem Turn.slot_of_other (h : Turn t r r' c c') (he : c.Exclusive) {j : ThreadId} (hj : j ≠ t) {w : Worker}
    (hw : c.Refers j w) : c'.ledger.slot w.service w.slot = c.ledger.slot w.service w.slot := by
  obtain ⟨hr, hr'⟩ := h.others he hj hw
  exact h.slot w.service w.slot hr hr'

/-- What becomes of a slot in a step. -/
theorem Turn.slot_cases (h : Turn t r r' c c') (s : ServiceId) (i : Nat) : r' = some ⟨s, i⟩ ∨
    (c'.ledger.slot s i).bound = false ∧ (c'.ledger.slot s i).Blank ∨
    ¬ c.Refers t ⟨s, i⟩ ∧ c'.ledger.slot s i = c.ledger.slot s i := by
  by_cases hr' : r' = some ⟨s, i⟩
  · exact .inl hr'
  · by_cases hr : r = some ⟨s, i⟩
    · exact .inr (.inl ((h.freed _ hr).resolve_left hr'))
    · exact .inr (.inr ⟨fun hw => hr ((h.before _).mp hw), h.slot s i hr hr'⟩)

theorem Turn.bound_iff (h : Turn t r r' c c') (he : c.Exclusive) {s : ServiceId} (hs : s ∉ c.gone) (i : Nat) :
    (c'.ledger.slot s i).bound = true ↔ ∃ j, c'.Refers j ⟨s, i⟩ := by
  constructor
  · intro hb
    rcases h.slot_cases s i with hr' | ⟨hfree, -⟩ | ⟨hn, hslot⟩
    · exact ⟨t, (h.after _).mpr hr'⟩
    · exact absurd (hfree.symm.trans hb) Bool.false_ne_true
    · rw [hslot] at hb
      obtain ⟨j, hj⟩ := (he.bound s hs i).mp hb
      have hne : j ≠ t := fun hjt => hn (hjt ▸ hj)
      exact ⟨j, (h.refers hne _).mpr hj⟩
  · rintro ⟨j, hj⟩
    by_cases hjt : j = t
    · subst hjt
      exact h.bound ⟨s, i⟩ ((h.after _).mp hj) hs
    · have hbefore := (h.refers hjt _).mp hj
      rw [h.slot_of_other he hjt hbefore]
      exact (he.bound s hs i).mpr ⟨j, hbefore⟩

theorem Turn.paired_or (h : Turn t r r' c c') (he : c.Exclusive) (s : ServiceId) (i : Nat) :
    (c'.ledger.slot s i).Paired ∨ ∃ j, c'.stage j = some (.leavingKeyless ⟨s, i⟩) := by
  rcases h.slot_cases s i with hr' | ⟨-, hblank⟩ | ⟨hn, hslot⟩
  · exact (h.paired s i hr').imp_right fun hg => ⟨t, hg⟩
  · exact .inl hblank.paired
  · rw [hslot]
    refine (he.paired s i).imp_right fun ⟨j, hj⟩ => ⟨j, ?_⟩
    have hne : j ≠ t := by
      rintro rfl
      have hfits : (c.ledger.thread j).binding = some ⟨s, i⟩ := (he.poised j _ hj).fits
      exact hn (.inl (he.held j _ hfits).1)
    rw [h.stage j hne]
    exact hj

theorem Turn.exclusive (t : ThreadId) (r r' : Option Worker) (h : Turn t r r' c c') (he : c.Exclusive) :
    c'.Exclusive where
  bound s hs i := h.bound_iff he (h.gone ▸ hs) i
  alone j j' w hj hj' := by
    by_cases hjt : j = t <;> by_cases hjt' : j' = t
    · exact hjt.trans hjt'.symm
    · exact absurd ((h.after w).mp (hjt ▸ hj)) (h.others he hjt' ((h.refers hjt' w).mp hj')).2
    · exact absurd ((h.after w).mp (hjt' ▸ hj')) (h.others he hjt ((h.refers hjt w).mp hj)).2
    · exact he.alone j j' w ((h.refers hjt w).mp hj) ((h.refers hjt' w).mp hj')
  single j w w' hw hw' := by
    by_cases hjt : j = t
    · subst hjt
      exact Option.some.inj (((h.after w).mp hw).symm.trans ((h.after w').mp hw'))
    · exact he.single j w w' ((h.refers hjt w).mp hw) ((h.refers hjt w').mp hw')
  held j w hj := by
    rw [h.gone]
    by_cases hjt : j = t
    · subst hjt
      exact h.held w hj
    · rw [h.binding j hjt] at hj
      rw [h.worker j hjt]
      exact he.held j w hj
  free s hs i hb := by
    rw [h.gone] at hs
    rcases h.slot_cases s i with hr' | ⟨-, hblank⟩ | ⟨-, hslot⟩
    · exact absurd (hb.symm.trans (h.bound ⟨s, i⟩ hr' hs)) Bool.false_ne_true
    · exact hblank
    · rw [hslot] at hb ⊢
      exact he.free s hs i hb
  blank j g w hg hw := by
    by_cases hjt : j = t
    · subst hjt
      exact h.blank g w hg hw
    · rw [h.stage j hjt] at hg
      rw [h.slot_of_other he hjt (he.refers_of_blank hg hw)]
      exact he.blank j g w hg hw
  keyless j w hg := by
    by_cases hjt : j = t
    · subst hjt
      exact h.keyless w hg
    · rw [h.stage j hjt] at hg
      have hfits : (c.ledger.thread j).binding = some w := (he.poised j _ hg).fits
      rw [h.slot_of_other he hjt (.inl (he.held j w hfits).1)]
      exact he.keyless j w hg
  paired s i := h.paired_or he s i
  poised j g hg := by
    by_cases hjt : j = t
    · subst hjt
      exact h.poised g hg
    · rw [h.stage j hjt] at hg
      have hpoised := he.poised j g hg
      exact {
        lt := Nat.lt_of_lt_of_le hpoised.lt h.size
        served := h.gone ▸ hpoised.served
        fits := hpoised.fits.congr (h.worker j hjt) (h.binding j hjt) }

/-! ## One step -/

theorem stage_put {x : Ledger × Option Stage} : (c.put t x).stage t = x.2 := Function.update_self ..

theorem stage_put_ne {x : Ledger × Option Stage} {j : ThreadId} (hj : j ≠ t) : (c.put t x).stage j = c.stage j :=
  Function.update_of_ne hj ..

theorem refers_put {x : Ledger × Option Stage} {w : Worker} : (c.put t x).Refers t w ↔
    (x.1.thread t).worker = some w ∨ ∃ g, x.2 = some g ∧ g.kept = some w := by
  unfold Refers
  rw [stage_put]
  rfl

theorem Exclusive.refers_iff_of_refers (h : c.Exclusive) {w : Worker} (hw : c.Refers t w) (w' : Worker) :
    c.Refers t w' ↔ some w = some w' :=
  ⟨fun hw' => congrArg some (h.single t w w' hw hw'), fun he => Option.some.inj he ▸ hw⟩

theorem Exclusive.refers_unique (h : c.Exclusive) (t : ThreadId) : ∃ r, ∀ w, c.Refers t w ↔ r = some w := by
  by_cases hw : ∃ w, c.Refers t w
  · obtain ⟨w, hw⟩ := hw
    exact ⟨some w, h.refers_iff_of_refers hw⟩
  · exact ⟨none, fun w => ⟨fun hw' => absurd ⟨w, hw'⟩ hw, fun he => (by cases he)⟩⟩

theorem Exclusive.bound_of_refers (h : c.Exclusive) {w : Worker} (hw : c.Refers t w) (hs : w.service ∉ c.gone) :
    (c.ledger.slot w.service w.slot).bound = true :=
  (h.bound w.service hs w.slot).mpr ⟨t, hw⟩

/-- A step that changes nothing but how far a thread is. -/
theorem Exclusive.stay (h : c.Exclusive) {g : Option Stage}
    (hkept : g.bind Stage.kept = (c.stage t).bind Stage.kept) (hn : ∀ w, c.stage t ≠ some (.leavingKeyless w))
    (hn' : ∀ w, g ≠ some (.leavingKeyless w))
    (hblank : ∀ g' w, g = some g' → g'.blank? = some w → (c.ledger.slot w.service w.slot).Blank)
    (hpoised : ∀ g', g = some g' → c.Poised t g') : (c.put t (c.ledger, g)).Exclusive := by
  obtain ⟨r, hr⟩ := h.refers_unique t
  have hrefers : ∀ w, (c.put t (c.ledger, g)).Refers t w ↔ c.Refers t w := by
    intro w
    have hiff : (∃ g', g = some g' ∧ g'.kept = some w) ↔ ∃ g', c.stage t = some g' ∧ g'.kept = some w := by
      rw [← Option.bind_eq_some_iff, ← Option.bind_eq_some_iff, hkept]
    rw [refers_put, hiff]
    rfl
  refine Turn.exclusive t r r ?_ h
  exact {
    gone := rfl
    size := Nat.le_refl _
    worker := fun _ _ => rfl
    binding := fun _ _ => rfl
    stage := fun _ hj => stage_put_ne hj
    before := hr
    after := fun w => (hrefers w).trans (hr w)
    slot := fun _ _ _ _ => rfl
    taken := fun _ hw => .inl hw
    freed := fun _ hw => .inl hw
    bound := fun w hw hs => h.bound_of_refers ((hr w).mpr hw) hs
    held := h.held t
    blank := fun g' w hg hw => hblank g' w (stage_put.symm.trans hg) hw
    keyless := fun w hg => absurd (stage_put.symm.trans hg) (hn' w)
    paired := fun s i hw => by
      refine (h.paired s i).imp_right fun ⟨j, hj⟩ => ?_
      have hfits : (c.ledger.thread j).binding = some ⟨s, i⟩ := (h.poised j _ hj).fits
      obtain rfl := h.alone t j _ ((hr _).mpr hw) (.inl (h.held j _ hfits).1)
      exact absurd hj (hn _)
    poised := fun g' hg => by
      have hpoised := hpoised g' (stage_put.symm.trans hg)
      exact ⟨hpoised.lt, hpoised.served, hpoised.fits.congr rfl rfl⟩ }

/-- A step that writes to a cell of the slot that a thread refers to. -/
theorem Exclusive.write (h : c.Exclusive) {g g' : Stage} {w : Worker} {f : Slot → Slot} (hg : c.stage t = some g)
    (hw : c.Refers t w) (hservice : g.service? = some w.service) (hservice' : g'.service? = some w.service)
    (hkept : g'.kept = g.kept) (hfits : c.Fits t g → c.Fits t g') (hf : ∀ slot, (f slot).bound = slot.bound)
    (hblank : ∀ w', g'.blank? = some w' → w' = w ∧ (f (c.ledger.slot w.service w.slot)).Blank)
    (hkeyless : ∀ w', g' = .leavingKeyless w' → w' = w ∧ (f (c.ledger.slot w.service w.slot)).key = none)
    (hpaired : (f (c.ledger.slot w.service w.slot)).Paired ∨ g' = .leavingKeyless w) :
    (c.put t (c.ledger.modifySlot w.service w.slot f, some g')).Exclusive := by
  have hpoised := h.poised t g hg
  have hserved := hpoised.served _ hservice
  have hbound := h.bound_of_refers hw hserved
  obtain ⟨hs, hi⟩ := lt_of_bound hbound
  have hr := h.refers_iff_of_refers hw
  have hself : (c.ledger.modifySlot w.service w.slot f).slot w.service w.slot = f (c.ledger.slot w.service w.slot) := by
    rw [slot_modifySlot hs hi, if_pos ⟨rfl, rfl⟩]
  refine Turn.exclusive t (some w) (some w) ?_ h
  exact {
    gone := rfl
    size := Nat.le_refl _
    worker := fun _ _ => rfl
    binding := fun _ _ => rfl
    stage := fun _ hj => stage_put_ne hj
    before := hr
    after := fun w' => by
      rw [← hr, refers_put]
      unfold Refers
      rw [hg]
      simp only [Option.some.injEq, exists_eq_left', hkept]
      rfl
    slot := fun s i hne _ => by
      show (c.ledger.modifySlot w.service w.slot f).slot s i = _
      rw [slot_modifySlot hs hi, if_neg]
      rintro ⟨rfl, rfl⟩
      exact hne rfl
    taken := fun _ hw' => .inl hw'
    freed := fun _ hw' => .inl hw'
    bound := fun w' hw' _ => by
      obtain rfl := Option.some.inj hw'
      exact (congrArg Slot.bound hself).trans ((hf _).trans hbound)
    held := h.held t
    blank := fun g'' w' hg'' hw' => by
      obtain rfl := Option.some.inj (stage_put.symm.trans hg'')
      obtain ⟨rfl, hb⟩ := hblank w' hw'
      exact hself ▸ hb
    keyless := fun w' hg'' => by
      obtain ⟨rfl, hk⟩ := hkeyless w' (Option.some.inj (stage_put.symm.trans hg''))
      exact hself ▸ hk
    paired := fun s i hw' => by
      obtain rfl := Option.some.inj hw'
      refine hpaired.imp (fun hp => ?_) fun hg' => stage_put.trans (congrArg some hg')
      exact hself ▸ hp
    poised := fun g'' hg'' => by
      obtain rfl := Option.some.inj (stage_put.symm.trans hg'')
      exact {
        lt := hpoised.lt
        served := fun s hs' => by
          rw [hservice'] at hs'
          exact Option.some.inj hs' ▸ hserved
        fits := (hfits hpoised.fits).congr rfl rfl } }

theorem Exclusive.claim (h : c.Exclusive) {s : ServiceId} {i : Nat} (hg : c.stage t = some (.trying s i))
    (hi : i < (c.ledger.service s).slots.size) (hfree : (c.ledger.slot s i).bound = false) :
    (c.put t (c.ledger.modifySlot s i fun slot => { slot with bound := true }, some (.claimed ⟨s, i⟩))).Exclusive := by
  have hpoised := h.poised t _ hg
  have hserved : s ∉ c.gone := hpoised.served s rfl
  have hs := lt_of_lt_slots hi
  have hself : (c.ledger.modifySlot s i fun slot => { slot with bound := true }).slot s i =
      { c.ledger.slot s i with bound := true } := by
    rw [slot_modifySlot hs hi, if_pos ⟨rfl, rfl⟩]
  have hnone : ∀ w, ¬ c.Refers t w := by
    rintro w (hw | ⟨g, hg', hw⟩)
    · exact absurd (Eq.trans (Eq.symm hpoised.fits) hw) (Option.some_ne_none w).symm
    · obtain rfl := Option.some.inj (hg.symm.trans hg')
      cases hw
  have hslot : (c.ledger.slot s i).Blank := h.free s hserved i hfree
  refine Turn.exclusive t none (some ⟨s, i⟩) ?_ h
  exact {
    gone := rfl
    size := Nat.le_refl _
    worker := fun _ _ => rfl
    binding := fun _ _ => rfl
    stage := fun _ hj => stage_put_ne hj
    before := fun w => ⟨fun hw => absurd hw (hnone w), fun hw => (by cases hw)⟩
    after := fun w => by
      have hworker : (c.ledger.thread t).worker ≠ some w := fun hw => hnone w (.inl hw)
      rw [refers_put]
      simp only [Option.some.injEq, exists_eq_left', Stage.kept]
      exact or_iff_right hworker
    slot := fun j n _ hne => by
      show (c.ledger.modifySlot s i _).slot j n = _
      rw [slot_modifySlot hs hi, if_neg]
      rintro ⟨rfl, rfl⟩
      exact hne rfl
    taken := fun w hw => by
      obtain rfl := Option.some.inj hw
      exact .inr ⟨hserved, hfree⟩
    freed := fun w hw => (by cases hw)
    bound := fun w hw _ => by
      obtain rfl := Option.some.inj hw
      exact congrArg Slot.bound hself
    held := h.held t
    blank := fun g w hg' hw => by
      obtain rfl := Option.some.inj (stage_put.symm.trans hg')
      obtain rfl := Option.some.inj hw
      exact (show Slot.Blank (Ledger.slot _ s i) from hself ▸ hslot)
    keyless := fun w hg' => (by cases Option.some.inj (stage_put.symm.trans hg'))
    paired := fun j n hw => by
      obtain ⟨rfl, rfl⟩ := Worker.mk.inj (Option.some.inj hw)
      exact .inl (show Slot.Paired (Ledger.slot _ s i) from hself ▸ hslot.paired)
    poised := fun g hg' => by
      obtain rfl := Option.some.inj (stage_put.symm.trans hg')
      exact ⟨hpoised.lt, hpoised.served, hpoised.fits⟩ }

/-- A thread sits down in the slot that it has cleared, or gets up from it. -/
theorem Exclusive.sit (h : c.Exclusive) {g g' : Stage} {w : Worker} {x : Option Worker} {l : Ledger}
    (hg : c.stage t = some g) (hw : g.blank? = some w) (hservice : g.service? = some w.service)
    (hl : ∀ j, l.thread j = if t = j then { c.ledger.thread j with worker := x, binding := x } else c.ledger.thread j)
    (hs : l.services = c.ledger.services) (hn : c.ledger.threads.size ≤ l.threads.size)
    (hrefers : x = some w ∧ g' = .told w.service (.ok w.slot) ∨ x = none ∧ g' = .unseated w) :
    (c.put t (l, some g')).Exclusive := by
  have hpoised := h.poised t g hg
  have hserved := hpoised.served _ hservice
  have hself := h.refers_of_blank hg hw
  have hslot : ∀ s i, (c.put t (l, some g')).ledger.slot s i = c.ledger.slot s i := fun s i => by
    show l.slot s i = _
    unfold slot service
    rw [hs]
  have hthread : l.thread t = { c.ledger.thread t with worker := x, binding := x } := (hl t).trans (if_pos rfl)
  have hother : ∀ j ≠ t, l.thread j = c.ledger.thread j := fun j hj => (hl j).trans (if_neg hj.symm)
  have hbound := h.bound_of_refers hself hserved
  have hblank := h.blank t g w hg hw
  refine Turn.exclusive t (some w) (some w) ?_ h
  exact {
    gone := rfl
    size := hn
    worker := fun j hj => congrArg Thread.worker (hother j hj)
    binding := fun j hj => congrArg Thread.binding (hother j hj)
    stage := fun _ hj => stage_put_ne hj
    before := h.refers_iff_of_refers hself
    after := fun w' => by
      rw [refers_put, hthread]
      simp only [Option.some.injEq, exists_eq_left']
      rcases hrefers with ⟨rfl, rfl⟩ | ⟨rfl, rfl⟩ <;> simp [Stage.kept]
    slot := fun s i _ _ => hslot s i
    taken := fun _ hw' => .inl hw'
    freed := fun _ hw' => .inl hw'
    bound := fun w' hw' _ => by
      obtain rfl := Option.some.inj hw'
      exact (congrArg Slot.bound (hslot _ _)).trans hbound
    held := fun w' hw' => by
      have hw' : (l.thread t).binding = some w' := hw'
      show (l.thread t).worker = some w' ∧ w'.service ∉ c.gone
      rw [hthread] at hw' ⊢
      rcases hrefers with ⟨rfl, -⟩ | ⟨rfl, -⟩
      · exact ⟨hw', Option.some.inj hw' ▸ hserved⟩
      · cases hw'
    blank := fun g'' w' hg'' hw' => by
      obtain rfl := Option.some.inj (stage_put.symm.trans hg'')
      rw [hslot]
      rcases hrefers with ⟨-, rfl⟩ | ⟨-, rfl⟩ <;> exact Option.some.inj hw' ▸ hblank
    keyless := fun w' hg'' => by
      have hg'' := Option.some.inj (stage_put.symm.trans hg'')
      rcases hrefers with ⟨-, rfl⟩ | ⟨-, rfl⟩ <;> cases hg''
    paired := fun s i hw' => by
      obtain rfl := Option.some.inj hw'
      rw [hslot]
      exact .inl hblank.paired
    poised := fun g'' hg'' => by
      obtain rfl := Option.some.inj (stage_put.symm.trans hg'')
      refine ⟨Nat.lt_of_lt_of_le hpoised.lt hn, fun s hs' => ?_, ?_⟩
      · rcases hrefers with ⟨-, rfl⟩ | ⟨-, rfl⟩
        · cases hs'
        · exact Option.some.inj hs' ▸ hserved
      · rcases hrefers with ⟨rfl, rfl⟩ | ⟨rfl, rfl⟩
        · exact congrArg Thread.binding hthread
        · exact congrArg Thread.worker hthread }

theorem Exclusive.vacate (h : c.Exclusive) {w : Worker} (hg : c.stage t = some (.unseated w)) :
    (c.put t (c.ledger.vacate w, none)).Exclusive := by
  have hpoised := h.poised t _ hg
  have hstanding : (c.ledger.thread t).worker = none := hpoised.fits
  have hself : c.Refers t w := .inr ⟨_, hg, rfl⟩
  have hbound := h.bound_of_refers hself (hpoised.served _ rfl)
  have hblank := h.blank t _ w hg rfl
  obtain ⟨hs, hi⟩ := lt_of_bound hbound
  have hslot : ∀ s i, (c.ledger.vacate w).slot s i =
      if w.service = s ∧ w.slot = i then { c.ledger.slot s i with bound := false } else c.ledger.slot s i :=
    slot_modifySlot hs hi _
  refine Turn.exclusive t (some w) none ?_ h
  exact {
    gone := rfl
    size := Nat.le_refl _
    worker := fun _ _ => rfl
    binding := fun _ _ => rfl
    stage := fun _ hj => stage_put_ne hj
    before := h.refers_iff_of_refers hself
    after := fun w' => by
      rw [refers_put]
      show (c.ledger.thread t).worker = some w' ∨ _ ↔ _
      simp [hstanding]
    slot := fun s i hne _ => by
      show (c.ledger.vacate w).slot s i = _
      rw [hslot, if_neg]
      rintro ⟨rfl, rfl⟩
      exact hne rfl
    taken := fun w' hw' => (by cases hw')
    freed := fun w' hw' => by
      obtain rfl := Option.some.inj hw'
      have hself : (c.ledger.vacate w).slot w.service w.slot =
          { c.ledger.slot w.service w.slot with bound := false } := by
        rw [hslot, if_pos ⟨rfl, rfl⟩]
      exact .inr ⟨congrArg Slot.bound hself, (show Slot.Blank (Ledger.slot _ _ _) from hself ▸ hblank)⟩
    bound := fun w' hw' => (by cases hw')
    held := h.held t
    blank := fun g w' hg' => (by cases stage_put.symm.trans hg')
    keyless := fun w' hg' => (by cases stage_put.symm.trans hg')
    paired := fun s i hw' => (by cases hw')
    poised := fun g hg' => (by cases stage_put.symm.trans hg') }

/-- Slots stay exclusive with every single step of taking one or giving one back. -/
theorem Exclusive.stride (h : c.Exclusive) {g : Stage} (hg : c.stage t = some g) :
    (c.put t (c.ledger.stride t g)).Exclusive := by
  have hpoised := h.poised t g hg
  cases g with
  | trying s i =>
    have hkept : (c.stage t).bind Stage.kept = none := by rw [hg]; rfl
    have hn : ∀ w, c.stage t ≠ some (.leavingKeyless w) := fun w hw => (by cases hg.symm.trans hw)
    by_cases hi : i < (c.ledger.service s).slots.size
    · cases hb : (c.ledger.slot s i).bound with
      | true =>
        rw [stride_of_taken hi hb]
        refine h.stay hkept.symm hn nofun (fun g' w hg' hw => ?_) fun g' hg' => ?_
        · obtain rfl := Option.some.inj hg'
          cases hw
        · obtain rfl := Option.some.inj hg'
          exact ⟨hpoised.lt, hpoised.served, hpoised.fits⟩
      | false =>
        rw [stride_of_free hi hb]
        exact h.claim hg hi hb
    · rw [stride_of_end hi]
      refine h.stay hkept.symm hn nofun (fun g' w hg' hw => ?_) fun g' hg' => ?_
      · obtain rfl := Option.some.inj hg'
        cases hw
      · obtain rfl := Option.some.inj hg'
        exact ⟨hpoised.lt, nofun, hpoised.fits⟩
  | claimed w =>
    have hblank := h.blank t _ w hg rfl
    exact h.write hg (.inr ⟨_, hg, rfl⟩) rfl rfl rfl id (fun _ => rfl)
      (fun w' hw' => ⟨(Option.some.inj hw').symm, rfl, hblank.2⟩) nofun (.inl (Slot.Blank.paired ⟨rfl, hblank.2⟩))
  | keyless w =>
    have hblank := h.blank t _ w hg rfl
    exact h.write hg (.inr ⟨_, hg, rfl⟩) rfl rfl rfl id (fun _ => rfl)
      (fun w' hw' => ⟨(Option.some.inj hw').symm, hblank.1, rfl⟩) nofun (.inl (Slot.Blank.paired ⟨hblank.1, rfl⟩))
  | blank w =>
    exact h.sit hg rfl rfl (thread_modifyThread_of_lt hpoised.lt _) rfl
      (Nat.le_of_eq (threads_size_modifyThread ..).symm) (.inl ⟨rfl, rfl⟩)
  | told s r =>
    have hkept : (c.stage t).bind Stage.kept = none := by rw [hg]; rfl
    exact h.stay hkept.symm (fun w hw => (by cases hg.symm.trans hw)) nofun nofun nofun
  | leaving w =>
    have hw := (h.held t w hpoised.fits).1
    exact h.write hg (.inl hw) rfl rfl rfl id (fun _ => rfl) nofun
      (fun w' hw' => ⟨(Stage.leavingKeyless.inj hw').symm, rfl⟩) (.inr rfl)
  | leavingKeyless w =>
    have hw := (h.held t w hpoised.fits).1
    have hblank : Slot.Blank { c.ledger.slot w.service w.slot with context := none } := ⟨h.keyless t w hg, rfl⟩
    exact h.write hg (.inl hw) rfl rfl rfl id (fun _ => rfl)
      (fun w' hw' => ⟨(Option.some.inj hw').symm, hblank⟩) nofun (.inl hblank.paired)
  | leavingBlank w =>
    exact h.sit hg rfl rfl (thread_modifyThread_of_lt hpoised.lt _) rfl
      (Nat.le_of_eq (threads_size_modifyThread ..).symm) (.inr ⟨rfl, rfl⟩)
  | unseated w => exact h.vacate hg

theorem put_stage (hg : c.stage t = g) : c.put t (c.ledger, g) = c := by
  unfold put
  rw [← hg, Function.update_eq_self]

theorem put_put (x y : Ledger × Option Stage) : (c.put t x).put t y = c.put t y := by
  unfold put
  rw [Function.update_idem]

theorem put_none (hi : c.stage t = none) (l : Ledger) : c.put t (l, none) = { c with ledger := l } := by
  unfold put
  rw [← hi, Function.update_eq_self]

theorem Exclusive.strides {g : Option Stage} (n : Nat) (h : c.Exclusive) (hg : c.stage t = g) :
    (c.put t (c.ledger.strides t n g)).Exclusive := by
  induction n generalizing c g with
  | zero => cases g <;> exact (put_stage hg).symm ▸ h
  | succ n ih =>
    cases g with
    | none => exact (put_stage hg).symm ▸ h
    | some g =>
      have hstep := ih (h.stride hg) stage_put
      rwa [put_put] at hstep

end

end Crew

end HeapLedger
