import HeapLedger.Proofs.Story
import HeapLedger.Proofs.Written
import HeapLedger.Proofs.Unread

/-!
# Carry-over

A thread without a context of its own holds what comes to it for the service that came first. Nobody else's charges are
held, and what is held is given to no context but one that the first service itself gives the thread.
-/

namespace HeapLedger

open Ledger

/-! ## Charges that come to a thread -/

/-- The charge came to the thread itself, and not to a task. -/
def Entry.visit? (t : ThreadId) : Entry → Option Verdict
  | charged v => if v.thread = t ∧ v.charge.resident = true then some v else none
  | _ => none

abbrev Visits := List Verdict

namespace Visits

def total (vs : Visits) (s : ServiceId) : Delta :=
  (vs.filter (·.service = s)).foldl (fun sum v => sum.addClamped v.delta) 0

/-- What is held after the charges, for the service that made the first one. -/
def held : Visits → Option Carry
  | [] => none
  | v :: vs => some ⟨v.service, total (v :: vs) v.service⟩

def answer (vs : Visits) (s : ServiceId) : Charge :=
  match vs with
  | [] => .parked
  | v :: _ => if v.service = s then .parked else .skipped .foreignThreadContext

/-- What a service has to get when it gives the thread a context. -/
def owed (vs : Visits) (s : ServiceId) : Delta :=
  match vs with
  | [] => 0
  | v :: _ => if v.service = s then vs.total s else 0

variable {vs : Visits} {v : Verdict} {s : ServiceId}

theorem total_append : total (vs ++ [v]) s = if v.service = s then (vs.total s).addClamped v.delta else vs.total s := by
  unfold total
  rw [List.filter_append, List.foldl_append]
  by_cases hv : v.service = s <;> simp [hv]

theorem addClamped_zero (d : Delta) : (0 : Delta).addClamped d = d := by
  simp [Delta.addClamped, Delta.clamp_toInt]

theorem held_append (vs : Visits) (v : Verdict) : held (vs ++ [v]) =
    if vs.answer v.service = .parked then some ⟨v.service, (vs.owed v.service).addClamped v.delta⟩ else vs.held := by
  cases vs with
  | nil =>
    have htotal : total [v] v.service = v.delta := by simp [total, addClamped_zero]
    simp [held, answer, owed, htotal, addClamped_zero]
  | cons u us =>
    show some (⟨u.service, total (u :: us ++ [v]) u.service⟩ : Carry) = _
    rw [total_append]
    by_cases hv : u.service = v.service
    · simp [answer, owed, hv]
    · simp [answer, held, hv, Ne.symm hv]

/-- The first charge decides about all that come later. -/
theorem answer_append (h : vs ≠ []) : answer (vs ++ [v]) s = vs.answer s := by
  cases vs with
  | nil => exact absurd rfl h
  | cons => rfl

theorem answer_eq_or (vs : Visits) (s : ServiceId) :
    vs.answer s = .parked ∨ vs.answer s = .skipped .foreignThreadContext := by
  unfold answer
  split
  · exact .inl rfl
  · split
    · exact .inl rfl
    · exact .inr rfl

theorem resident_answer (vs : Visits) (s : ServiceId) : (vs.answer s).resident = true := by
  rcases vs.answer_eq_or s with ha | ha <;> rw [ha] <;> rfl

theorem carriedFor_held {th : Thread} (h : th.carry = vs.held) : th.carriedFor s = vs.owed s := by
  unfold Thread.carriedFor
  rw [h]
  cases vs with
  | nil => rfl
  | cons u us =>
    show (if u.service = s then total (u :: us) u.service else 0) = if u.service = s then total (u :: us) s else 0
    split
    · rename_i hu
      rw [hu]
    · rfl

end Visits

namespace Ledger

def visits (l : Ledger) (t : ThreadId) : Visits := (l.journal.filterMap (Entry.visit? t)).reverse

def hosts (l : Ledger) (v : Verdict) : Ledger :=
  (l.modifyThread v.thread fun th => { th with carry := Visits.held (l.visits v.thread ++ [v]) }).post (.charged v)

/-- The same ledger if nobody but one service had parked anything on the thread, and whatever was written down. -/
def withoutOthers (l : Ledger) (t : ThreadId) (s : ServiceId) (journal : List Entry) : Ledger :=
  { l.modifyThread t fun th => { th with carry := th.carry.filter (·.owner = s) } with journal }

def Hoards (l : Ledger) (t : ThreadId) : Prop :=
  (l.thread t).home = .absent →
    (l.thread t).carry = (l.visits t).held ∧ ∀ v ∈ l.visits t, v.charge = (l.visits t).answer v.service

def Hushed (t : ThreadId) (l l' : Ledger) : Prop :=
  (l'.thread t).home = .absent →
    (l.thread t).home = .absent ∧ (l'.thread t).carry = (l.thread t).carry ∧ l'.visits t = l.visits t

/-! ## Where nothing comes -/

section
variable {l l' l'' : Ledger} {t j : ThreadId}

theorem hushed_of_eq (ht : l'.threads = l.threads) (hj : l'.journal = l.journal) : Hushed t l l' := by
  intro hh
  have hthread : l'.thread t = l.thread t := congrArg (·.get t) ht
  refine ⟨hthread ▸ hh, congrArg Thread.carry hthread, ?_⟩
  rw [visits, visits, hj]

theorem Hushed.trans (h : Hushed t l l') (h' : Hushed t l' l'') : Hushed t l l'' := by
  intro hh
  obtain ⟨hh', hcarry', hvisits'⟩ := h' hh
  obtain ⟨hh'', hcarry, hvisits⟩ := h hh'
  exact ⟨hh'', hcarry'.trans hcarry, hvisits'.trans hvisits⟩

theorem visits_post (e : Entry) : (l.post e).visits t = l.visits t ++ (e.visit? t).toList := by
  show (List.filterMap _ (e :: l.journal)).reverse = _
  rw [List.filterMap_cons]
  cases he : e.visit? t with
  | none => exact (List.append_nil _).symm
  | some v => exact List.reverse_cons ..

theorem hushed_post {e : Entry} (he : (l.thread t).home = .absent → e.visit? t = none) : Hushed t l (l.post e) := by
  intro hh
  refine ⟨hh, rfl, ?_⟩
  rw [visits_post, he hh]
  exact List.append_nil _

theorem hushed_modifyThread {f : Thread → Thread}
    (hf : ∀ th, (f th).home = .absent → th.home = .absent ∧ (f th).carry = th.carry) :
    Hushed t l (l.modifyThread j f) := by
  intro hh
  rw [thread_modifyThread] at hh ⊢
  split at hh
  · rename_i hj
    obtain ⟨habsent, hcarry⟩ := hf _ hh
    rw [if_pos hj]
    exact ⟨habsent, hcarry, rfl⟩
  · rename_i hj
    rw [if_neg hj]
    exact ⟨hh, rfl, rfl⟩

theorem hushed_resolve (s : ServiceId) (k : TaskKey) : Hushed t l (l.resolve j s k).1 := by
  obtain ⟨f, g, -, hg, heq⟩ := l.seek_eq j s k
  have hlookup : Hushed t l (l.modifyService s f) := hushed_of_eq rfl rfl
  have hseek : Hushed t l (l.seek j s k).1 :=
    heq ▸ hlookup.trans (hushed_modifyThread fun th hh =>
      ⟨(congrArg Thread.home (hg th) :).symm.trans hh, (congrArg Thread.carry (hg th) :)⟩)
  exact hseek.trans (hushed_post fun _ => rfl)

theorem hushed_decline {s : ServiceId} {d : Delta} {c : Option ContextId} {reason : SkipReason}
    (h : l.Declined j s c reason) : Hushed t l (l.conclude j s d c (.skipped reason)).1 := by
  refine hushed_post fun hh => ?_
  -- either a task has declined, or the thread's own context is there or was
  cases h with
  | absent | uninitialized | unset => exact if_neg fun hv => by cases hv.2
  | exiting hk hh' =>
    refine if_neg fun hv => ?_
    obtain rfl : j = t := hv.1
    rw [hh'] at hh
    cases hh
  | foreign hk hh' =>
    refine if_neg fun hv => ?_
    obtain rfl : j = t := hv.1
    rw [hh'] at hh
    cases hh

theorem hushed_takeIn {e : Entry} {c : ContextId} {d : Delta} (h : l.Intake j e c d) :
    Hushed t l (l.takeIn e c d).1 := by
  have hpost : Hushed t l (l.post e) := by
    refine hushed_post fun hh => ?_
    cases h with
    | task => exact if_neg fun hv => by cases hv.2
    | thread hk hh' =>
      refine if_neg fun hv => ?_
      obtain rfl : j = t := hv.1
      rw [hh'] at hh
      cases hh
    | carried | direct => rfl
  have htake : Hushed t l ((l.post e).modifyContext c fun ctx =>
      { ctx with cache := ((l.context c).cache.consume d).1 }) := hpost.trans (hushed_of_eq rfl rfl)
  exact takeIn_keeps htake fun _ _ h => h.trans (hushed_post fun _ => rfl)

theorem hushed_drain (c : ContextId) : Hushed t l (l.drain c) := by
  have hflush : Hushed t l (l.post (.flushed c)) := hushed_post fun _ => rfl
  have hempty : Hushed t (l.post (.flushed c)) ((l.post (.flushed c)).modifyContext c fun ctx =>
      { ctx with cache := (l.context c).cache.take.1 }) := hushed_of_eq rfl rfl
  exact (hflush.trans hempty).trans (hushed_post fun _ => rfl)

theorem hushed_shut (c : ContextId) : Hushed t l (l.shut c) := by
  have hclose : Hushed t l (l.modifyContext c fun ctx => { ctx with closed := true }) := hushed_of_eq rfl rfl
  exact hclose.trans (hushed_drain c)

theorem hushed_newHome (s : ServiceId) : Hushed t l (l.newHome j s) := by
  have hadd : Hushed t l { l with contexts := (l.newHome j s).contexts, nextThread := l.nextThread + 1 } :=
    hushed_of_eq rfl rfl
  exact hadd.trans (hushed_modifyThread fun _ hh => by cases hh)

/-! ## Where a charge comes -/

theorem Hoards.hushed (h : Hoards l t) (hs : Hushed t l l') : Hoards l' t := by
  intro hh
  obtain ⟨habsent, hcarry, hvisits⟩ := hs hh
  rw [hcarry, hvisits]
  exact h habsent

theorem verdict_carry (carry : Option Carry) (s : ServiceId) (d : Delta) (c : Option ContextId) (charge : Charge) :
    (l.modifyThread t fun th => { th with carry }).verdict t s d c charge = l.verdict t s d c charge := by
  have hscopes : ((l.modifyThread t fun th => { th with carry }).thread t).innermost = (l.thread t).innermost :=
    Table.get_modify_of_eq _ t t Thread.innermost fun _ => rfl
  unfold verdict
  rw [hscopes]
  rfl

section
variable (h : (l.thread t).carry = (l.visits t).held) {s : ServiceId} (d : Delta)

include h

theorem park_joins (ha : (l.visits t).answer s = .parked) : l.park t s d =
    (l.modifyThread t fun th => { th with carry := some ⟨s, ((l.visits t).owed s).addClamped d⟩ }).conclude t s d
      none .parked := by
  unfold park
  rw [h]
  cases hvisits : l.visits t with
  | nil => simp [Visits.held, Visits.owed, Visits.addClamped_zero]
  | cons u us =>
    have hu : u.service = s := by
      by_contra hu
      simp [hvisits, Visits.answer, hu] at ha
    subst hu
    simp [Visits.held, Visits.owed]

theorem park_declines (ha : (l.visits t).answer s = .skipped .foreignThreadContext) :
    l.park t s d = l.conclude t s d none (.skipped .foreignThreadContext) := by
  unfold park
  rw [h]
  cases hvisits : l.visits t with
  | nil => simp [hvisits, Visits.answer] at ha
  | cons u us =>
    have hu : u.service ≠ s := by
      intro hu
      simp [hvisits, Visits.answer, hu] at ha
    simp [Visits.held, hu]

theorem park_hosts : l.park t s d =
    (l.hosts (l.verdict t s d none ((l.visits t).answer s)), (l.visits t).answer s) := by
  let v := l.verdict t s d none ((l.visits t).answer s)
  have hheld := Visits.held_append (l.visits t) v
  rcases (l.visits t).answer_eq_or s with ha | ha
  · have hjoined : (l.visits t ++ [v]).held = some ⟨s, ((l.visits t).owed s).addClamped d⟩ :=
      hheld.trans (if_pos ha)
    rw [park_joins h d ha, conclude, verdict_carry, ← hjoined, ← ha]
    rfl
  · have hne : (l.visits t).answer v.service ≠ .parked := by
      show (l.visits t).answer s ≠ .parked
      rw [ha]
      nofun
    have hkept : (l.visits t ++ [v]).held = (l.thread t).carry := (hheld.trans (if_neg hne)).trans h.symm
    have hsame : l.modifyThread t (fun th => { th with carry := Visits.held (l.visits t ++ [v]) }) = l := by
      refine congrArg (fun threads : Table Thread => { l with threads }) ?_
      refine (Table.modify_congr ?_).trans (l.threads.modify_id t)
      exact congrArg (fun carry => { l.thread t with carry }) hkept
    have hhosts : l.hosts v = l.post (.charged v) := congrArg (·.post (.charged v)) hsame
    rw [hhosts, park_declines h d ha, conclude, ← ha]

end

theorem visits_hosts {v : Verdict} (ht : v.thread = t) (hv : v.charge.resident = true) :
    (l.hosts v).visits t = l.visits t ++ [v] := by
  have hentry : (Entry.charged v).visit? t = some v := if_pos ⟨ht, hv⟩
  rw [hosts, visits_post, hentry]
  rfl

theorem Hoards.hosts (h : ∀ t, Hoards l t) (ht : t < l.threads.size) (hh : (l.thread t).home = .absent) {v : Verdict}
    (hv : v.thread = t) (hc : v.charge = (l.visits t).answer v.service) (j : ThreadId) : Hoards (l.hosts v) j := by
  have hresident : v.charge.resident = true := by
    rw [hc]
    exact Visits.resident_answer ..
  obtain ⟨-, hanswered⟩ := h t hh
  subst hv
  by_cases hj : v.thread = j
  · subst hj
    intro _
    rw [visits_hosts rfl hresident]
    refine ⟨congrArg Thread.carry (Table.get_modify_self _ ht), fun w hw => ?_⟩
    -- only the first charge of all is not answered by what came before it
    cases hvisits : l.visits v.thread with
    | nil =>
      rw [hvisits] at hw hc
      obtain rfl := List.mem_singleton.mp hw
      rw [hc]
      exact (if_pos rfl).symm
    | cons u us =>
      have hne : l.visits v.thread ≠ [] := by
        rw [hvisits]
        nofun
      rw [← hvisits, Visits.answer_append hne]
      rcases List.mem_append.mp hw with hw | hw
      · exact hanswered w hw
      · obtain rfl := List.mem_singleton.mp hw
        exact hc
  · refine (h j).hushed fun habsent => ?_
    have hthread : (l.hosts v).thread j = l.thread j := Table.get_modify_ne _ _ hj
    refine ⟨hthread ▸ habsent, congrArg Thread.carry hthread, ?_⟩
    have hentry : (Entry.charged v).visit? j = none := if_neg fun hn => hj hn.1
    rw [Ledger.hosts, visits_post, hentry]
    exact List.append_nil _

end

end Ledger

/-! ## Moves -/

section
variable {t : ThreadId} {m m' : Moment}

theorem Charging.hoards (h : ∀ j, Hoards m.1 j) (hm : Charging t m m') (j : ThreadId) : Hoards m'.1 j := by
  cases hm with
  | park ht hk hh =>
    rw [park_hosts (h t hh).1]
    exact Hoards.hosts h ht hh rfl rfl j
  | receive | spend | skip => exact (h j).hushed (hushed_of_eq rfl rfl)
  | hear | event => exact (h j).hushed (hushed_post fun _ => rfl)
  | hook => exact (h j).hushed (hushed_modifyThread fun _ hh => ⟨hh, rfl⟩)
  | resolve => exact (h j).hushed (hushed_resolve _ _)
  | decline hd => exact (h j).hushed (hushed_decline hd)
  | take hi => exact (h j).hushed (hushed_takeIn hi)
  | settle => exact (h j).hushed (hushed_newHome _)

theorem Tending.hoards (h : ∀ j, Hoards m.1 j) (hm : Tending t m m') (j : ThreadId) : Hoards m'.1 j := by
  cases hm with
  | charging hm => exact hm.hoards h j
  | notice | bound | report | consume => exact (h j).hushed (hushed_post fun _ => rfl)
  | flush => exact (h j).hushed (hushed_drain _)
  | @newThread l q =>
    refine (h j).hushed fun hh => ?_
    rw [thread_newThread] at hh ⊢
    exact ⟨hh, rfl, rfl⟩
  | discreet hf => exact (h j).hushed (hushed_modifyThread fun th hh => ⟨(hf th).1.symm.trans hh, (hf th).2.1⟩)
  | atExit => exact (h j).hushed (hushed_modifyThread fun _ hh => ⟨hh, rfl⟩)
  | @openAccount l q i s =>
    have hopen : Hushed j l (l.newKey.1.newContext s l.newKey.2 i true).1 := hushed_of_eq rfl rfl
    exact (h j).hushed ((hopen.trans (hushed_post fun _ => rfl)).trans (hushed_post fun _ => rfl))
  | @addService l q i source slots threshold =>
    refine (h j).hushed ?_
    show Hushed j l (l.addService source slots i threshold).1
    unfold Ledger.addService
    dsimp only
    split <;> exact hushed_of_eq rfl rfl
  | _ => exact (h j).hushed (hushed_of_eq rfl rfl)

theorem Move.hoards (h : ∀ j, Hoards m.1 j) (hm : Move t m m') (j : ThreadId) : Hoards m'.1 j := by
  cases hm with
  | tending hm => exact hm.hoards h j
  | close => exact (h j).hushed (hushed_shut _)
  | closeHome =>
    refine (h j).hushed (Hushed.trans ?_ (hushed_shut _))
    exact hushed_modifyThread fun _ hh => by cases hh
  | enter => exact (h j).hushed (hushed_modifyThread fun _ hh => ⟨hh, rfl⟩)
  | leave =>
    refine (h j).hushed (hushed_modifyThread fun th hh => ?_)
    unfold Thread.leave at hh ⊢
    split at hh <;> exact ⟨hh, rfl⟩
  | orphans | futures => exact (h j).hushed (hushed_of_eq rfl rfl)

theorem Passes.hoards {l l' : Ledger} (h : ∀ j, Hoards l j) (hp : Passes l l') : ∀ j, Hoards l' j := by
  induction hp with
  | refl => exact h
  | tail _ hm ih =>
    obtain ⟨t, q, q', hm⟩ := hm
    exact Move.hoards ih hm

theorem Passes.threads_size {l l' : Ledger} (hp : Passes l l') : l.threads.size ≤ l'.threads.size := by
  induction hp with
  | refl => exact Nat.le_refl _
  | tail _ hm ih =>
    obtain ⟨t, q, q', hm⟩ := hm
    exact Nat.le_trans ih hm.threads_size

theorem Run.hoards {h : Holdings} {l : Ledger} (hr : Run h l) : ∀ j, Hoards l j :=
  Passes.hoards (fun _ _ => ⟨rfl, fun _ hv => by cases hv⟩) hr.passes

end

namespace Ledger

section
variable {l : Ledger} {t : ThreadId} {s : ServiceId}

/-! ## The next charge -/

def nextVisit (l : Ledger) (t : ThreadId) (s : ServiceId) (d : Delta) : Verdict :=
  l.verdict t s d none ((l.visits t).answer s)

/-- What a charge does that comes to a thread without a context of its own. -/
structure Welcomes (l : Ledger) (t : ThreadId) (s : ServiceId) (d : Delta) : Prop where
  charge : l.chargeBare t s d = (l.hosts (l.nextVisit t s d), (l.visits t).answer s)
  visits : (l.chargeBare t s d).1.visits t = l.visits t ++ [l.nextVisit t s d]
  home : ((l.chargeBare t s d).1.thread t).home = .absent
  passes : Passes l (l.chargeBare t s d).1

theorem chargeInHook_hosts (hh : (l.thread t).home = .absent) (hk : l.activeTask t s = none) (h : Hoards l t)
    (d : Delta) : l.chargeInHook t s d = (l.hosts (l.nextVisit t s d), (l.visits t).answer s) := by
  unfold chargeInHook chargeThread
  rw [hk, hh]
  exact park_hosts (h hh).1 d

theorem chargeBare_hosts (hh : (l.thread t).home = .absent) (hk : l.activeTask t s = none) (h : Hoards l t)
    (d : Delta) : l.chargeBare t s d = (l.hosts (l.nextVisit t s d), (l.visits t).answer s) := by
  unfold chargeBare
  split
  · exact chargeInHook_hosts hh hk h d
  · have hn : l.inHook t = false := Bool.eq_false_iff.mpr ‹_›
    have hhome : ((l.setInHook t true).thread t).home = .absent := (home_setInHook true t).trans hh
    have hactive : (l.setInHook t true).activeTask t s = none := (activeTask_setInHook true).trans hk
    have hinside : Hoards (l.setInHook t true) t := h.hushed (hushed_modifyThread fun _ hh => ⟨hh, rfl⟩)
    have hvisit : (l.setInHook t true).nextVisit t s d = l.nextVisit t s d := verdict_setInHook true none _
    unfold guarded
    dsimp only
    rw [chargeInHook_hosts hhome hactive hinside, hvisit]
    -- the way into the hook and out of it leaves nothing behind
    refine congrArg (·, (l.visits t).answer s) ?_
    refine congrArg (fun threads : Table Thread => ({ l with threads } : Ledger).post (.charged (l.nextVisit t s d))) ?_
    show ((l.threads.modify t _).modify t _).modify t _ = l.threads.modify t _
    rw [Table.modify_modify, Table.modify_modify]
    refine Table.modify_congr ?_
    exact congrArg (fun b : Bool => { l.thread t with
      inHook := b, carry := Visits.held (l.visits t ++ [l.nextVisit t s d]) }) hn.symm

theorem welcomes (hr : Ready t l) (hs : s < l.services.size) (hh : (l.thread t).home = .absent)
    (hk : l.activeTask t s = none) (h : Hoards l t) (d : Delta) : Welcomes l t s d := by
  have hcharge := chargeBare_hosts hh hk h d
  have hpasses : Passes l (l.chargeBare t s d).1 :=
    Moves.passes (Tendings.moves (chargeBare_chargings (q := []) hs d hr).tendings)
  refine ⟨hcharge, ?_, ?_, hpasses⟩
  · rw [hcharge]
    exact visits_hosts rfl (Visits.resident_answer ..)
  · rw [hcharge]
    exact (Table.get_modify_of_eq l.threads t t Thread.home fun _ => by rfl).trans hh

/-! ## The context -/

/-- A thread gets its context from a service, with an amount to begin with. What anyone else has parked makes no
difference then, nor to anything that is done or told later. -/
structure Opens (l : Ledger) (t : ThreadId) (s : ServiceId) (d : Delta) : Prop where
  created : (l.settle t s).2 = true
  gives : Gives l t s (l.settle t s).1
  pending : ((l.settle t s).1.context l.contexts.size).pending =
    if d.magnitude ≤ (l.service s).threshold.toNat then d else 0
  commits : (l.settle t s).1.commits l.contexts.size = if d.magnitude ≤ (l.service s).threshold.toNat then [] else [d]
  receives : Receives (l.newHome t s) l.contexts.size d (l.settle t s).1
  emptied : ∀ l', Passes (l.settle t s).1 l' → (l'.thread t).carry = none
  others : ∀ journal ds,
    Parted l.journal journal ((l.settle t s).1.after ds) (((l.withoutOthers t s journal).settle t s).1.after ds) ∧
      (l.settle t s).1.outcomes ds = ((l.withoutOthers t s journal).settle t s).1.outcomes ds

theorem settle_passes (h : Ready t l) (hs : s < l.services.size) : Passes l (l.settle t s).1 :=
  Moves.passes (Tendings.moves (settle_chargings (q := []) hs h).tendings)

/-- A new context has been through nothing but what was held for its owner. -/
theorem cache_settle (h : Told l) (ht : t < l.threads.size) (hs : s < l.services.size)
    (hh : (l.thread t).home = .absent) (hn : l.inHook t = false) :
    (((l.settle t s).1.context l.contexts.size).cache, (l.settle t s).1.commits l.contexts.size) =
      Cache.feed ({ threshold := (l.service s).threshold }, []) (.consume ((l.thread t).carriedFor s)) := by
  have hready : Ready t l := ⟨h.sound, h.carries, ht⟩
  have hgives := gives_settle (s := s) ht hh
  have hfed := (Passes.told h (settle_passes hready hs)).fed
  have hlt : l.contexts.size < (l.settle t s).1.contexts.size := hgives.contexts_size ▸ Nat.lt_succ_self _
  obtain ⟨hfresh, -⟩ := h.fed.fresh l.contexts.size (Nat.le_refl _)
  obtain ⟨hnothing, hcarried⟩ := settle_journal (s := s) hh
  rw [← hfed.fed _ hlt, hgives.threshold]
  by_cases hz : (l.thread t).carriedFor s = 0
  · have hfeedings : (l.settle t s).1.feedings l.contexts.size = [] := by
      rw [feedings, hnothing hz]
      exact hfresh
    rw [hfeedings, hz]
    have hkept : ({ threshold := (l.service s).threshold } : Cache).exceeded (Delta.addClamped 0 0) = false :=
      decide_eq_false (Nat.not_lt_zero _)
    show _ = (_, _)
    rw [Cache.consume_of_not_exceeded hkept]
    rfl
  · obtain ⟨out, hout, hjournal⟩ := hcarried hz hn
    have hfeedings : (l.settle t s).1.feedings l.contexts.size = [.consume ((l.thread t).carriedFor s)] := by
      -- what the context commits feeds nobody
      have hspared : out.filterMap (Entry.feeding? l.contexts.size) = [] := by
        refine List.filterMap_eq_nil_iff.mpr fun e he => e.feeding?_eq_none (fun d hd => ?_) fun hf => ?_
        · rw [(hout e he).intake?] at hd
          cases hd
        · subst hf
          exact hout _ he
      have hentry : (Entry.carried t s l.contexts.size ((l.thread t).carriedFor s)).feeding? l.contexts.size =
          some (.consume ((l.thread t).carriedFor s)) := Entry.feeding?_of_intake rfl
      rw [feedings, hjournal, List.filterMap_append, hspared, List.filterMap_cons_some hentry]
      exact congrArg (List.cons _) hfresh
    rw [hfeedings]
    rfl

/-- What is held for others is dropped when the thread gets its context. -/
theorem settle_filter (ht : t < l.threads.size) (hh : (l.thread t).home = .absent) :
    (l.modifyThread t fun th => { th with carry := th.carry.filter (·.owner = s) }).settle t s = l.settle t s := by
  let l₁ := l.modifyThread t fun th => { th with carry := th.carry.filter (·.owner = s) }
  have hthread : l₁.thread t = { l.thread t with carry := (l.thread t).carry.filter (·.owner = s) } :=
    Table.get_modify_self _ ht
  have hhome : (l₁.thread t).home = .absent := (congrArg Thread.home hthread).trans hh
  have hheld : (l₁.thread t).carriedFor s = (l.thread t).carriedFor s := by
    rw [hthread]
    unfold Thread.carriedFor
    dsimp only
    cases (l.thread t).carry with
    | none => rfl
    | some c => by_cases ho : c.owner = s <;> simp [Option.filter, ho]
  have hnew : l₁.newHome t s = l.newHome t s := by
    refine congrArg (fun threads : Table Thread => { l.newHome t s with threads }) ?_
    show (l.threads.modify t _).modify t _ = l.threads.modify t _
    rw [Table.modify_modify]
    exact Table.modify_congr rfl
  have hsize : l₁.contexts.size = l.contexts.size := rfl
  show l₁.settle t s = l.settle t s
  unfold settle
  rw [hhome, hh]
  dsimp only
  rw [hheld, hnew, hsize]

theorem opens (h : Told l) (ht : t < l.threads.size) (hs : s < l.services.size) (hh : (l.thread t).home = .absent)
    (hn : l.inHook t = false) : Opens l t s ((l.thread t).carriedFor s) := by
  have hready : Ready t l := ⟨h.sound, h.carries, ht⟩
  have hgives := gives_settle (s := s) ht hh
  have hpasses := settle_passes hready hs
  have htold := hpasses.told h
  obtain ⟨hcache, hcommits⟩ := Prod.mk.inj (cache_settle h ht hs hh hn)
  refine ⟨(settle_of_absent hh).1, hgives, ?_, ?_, settle_takes hready hs hh hn, fun l' hl' => ?_, fun journal ds => ?_⟩
  · refine (congrArg Cache.pending hcache).trans ?_
    rw [Cache.consume_fst]
    dsimp only
    rw [Visits.addClamped_zero]
  · rw [hcommits, Cache.consume_snd]
    dsimp only
    rw [Visits.addClamped_zero]
    split <;> rfl
  · refine ((hl'.told htold).tidy t).carry fun habsent => ?_
    have hbecomes := (hl'.onward htold).home t
    rw [hgives.home, habsent] at hbecomes
    rcases hbecomes with hb | hb <;> cases hb
  · have hparted : Parted l.journal journal
        (l.modifyThread t fun th => { th with carry := th.carry.filter (·.owner = s) })
        (l.withoutOthers t s journal) := ⟨[], rfl, rfl⟩
    have hsettle := ((Outer.settle (t := t) s).agree hparted).1
    rw [settle_filter ht hh] at hsettle
    exact hsettle.history ds

end

end Ledger

/-- Take a thread that has never had a context of its own and for which nothing is held. Of all charges that come to it
until it gets one, those of the service that came first are parked, and all others are skipped because the thread will
be that service's; the thread holds the first service's amounts, summed up and cut off at the ends of the range. The
next charge is answered the same way, and changes nothing but what the thread holds. Whichever service then gives the
thread a context, outside of the hook, that context begins with what is held if it is held for that service, and with
nothing otherwise: it keeps that within its threshold, and commits it once beyond. Nothing is held from then on, and
what others have parked never matters again. -/
theorem first_service_carries_over {h : Holdings} {l₀ l l' : Ledger} (hr : Run h l₀) (hp : Passes l₀ l) {t : ThreadId}
    (ht : t < l.threads.size) (hh : (l.thread t).home = .absent) (hc : (l.thread t).carry = none) (hp' : Passes l l')
    (hh' : (l'.thread t).home = .absent) :
    l.visits t = [] ∧
    (l'.thread t).carry = (l'.visits t).held ∧
    (∀ v ∈ l'.visits t, v.charge = (l'.visits t).answer v.service) ∧
    (∀ s < l'.services.size, l'.activeTask t s = none → ∀ d, l'.Welcomes t s d) ∧
    ∀ o < l'.services.size, l'.inHook t = false → l'.Opens t o ((l'.visits t).owed o) := by
  have htold := Passes.told hr.told (hp.trans hp')
  have hoards := Passes.hoards hr.hoards hp
  have hoards' := Passes.hoards hoards hp'
  obtain ⟨hcarry, -⟩ := hoards t hh
  obtain ⟨hcarry', hanswered⟩ := hoards' t hh'
  have hsize : t < l'.threads.size := Nat.lt_of_lt_of_le ht (Passes.threads_size hp')
  have hready : Ready t l' := ⟨htold.sound, htold.carries, hsize⟩
  refine ⟨?_, hcarry', hanswered, fun s hs hk d => welcomes hready hs hh' hk (hoards' t) d, fun o ho hn => ?_⟩
  -- if anything had come, it would be held
  · cases hvisits : l.visits t with
    | nil => rfl
    | cons u us =>
      rw [hc, hvisits] at hcarry
      cases hcarry
  · have hopens := opens htold hsize ho hh' hn
    rw [Visits.carriedFor_held hcarry'] at hopens
    exact hopens

def twoServices : Ledger :=
  (((newThread {}).1.perform 0 (.newService { threshold := 10 })).1.perform 0 (.newService { threshold := 10 })).1

theorem run_twoServices : Run {} twoServices := by
  have hstart : Run {} (newThread {}).1 := .start .nil
  have hone := hstart.act (t := 0) (a := .newService { threshold := 10 }) (by decide) (by decide) fun _ h => by cases h
  exact hone.act (t := 0) (a := .newService { threshold := 10 }) (by decide) (by decide) fun _ h => by cases h

def twiceParked : Ledger :=
  (((twoServices.perform 0 (.chargeBare 0 7)).1.perform 0 (.chargeBare 1 5)).1.perform 0 (.chargeBare 0 4)).1

theorem passes_twiceParked : Passes twoServices twiceParked := by
  have hfirst := run_twoServices.passes_perform (t := 0) (a := .chargeBare 0 7) (by decide)
    (show 0 < Table.size _ by decide)
  have honce := run_twoServices.act (t := 0) (a := .chargeBare 0 7) (by decide) (by decide)
    (show 0 < Table.size _ by decide)
  have hsecond := honce.passes_perform (t := 0) (a := .chargeBare 1 5) (by decide) (show 1 < Table.size _ by decide)
  have hother := honce.act (t := 0) (a := .chargeBare 1 5) (by decide) (by decide) (show 1 < Table.size _ by decide)
  have hthird := hother.passes_perform (t := 0) (a := .chargeBare 0 4) (by decide) (show 0 < Table.size _ by decide)
  exact (hfirst.trans hsecond).trans hthird

theorem first_service_carries_over_twice : (twiceParked.thread 0).carry = some ⟨0, 11⟩ ∧
    (twiceParked.visits 0).map (·.charge) = [.parked, .skipped .foreignThreadContext, .parked] ∧
    twiceParked.Opens 0 0 11 ∧ twiceParked.Opens 0 1 0 := by
  obtain ⟨-, hcarry, -, -, hopens⟩ := first_service_carries_over run_twoServices .refl (t := 0) (by decide) (by rfl)
    (by rfl) passes_twiceParked (by rfl)
  exact ⟨hcarry, by decide, hopens 0 (by decide) (by decide), hopens 1 (by decide) (by decide)⟩

end HeapLedger
