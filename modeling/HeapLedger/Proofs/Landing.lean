import HeapLedger.Proofs.Lookups

/-!
# Where charges end up

As long as the sources keep what they have handed out, it is settled before a charge where it is going to end up, and no
charge changes that for the next one: a charge that is parked gives the thread the context in which the next one
ends up, and every other charge ends up where the one before it has.
-/

namespace HeapLedger

open Ledger

/-- How a charge was answered, and the context in which the amount has ended up. -/
structure Landing where
  charge : Charge
  context : Option ContextId
  deriving DecidableEq

def Charge.settled : Charge → Charge
  | .parked => .thread
  | charge => charge

def Landing.settled (p : Landing) : Landing := { p with charge := p.charge.settled }

theorem Charge.settled_of_ne {charge : Charge} (h : charge ≠ .parked) : charge.settled = charge := by
  cases charge <;> first | rfl | exact absurd rfl h

theorem Charge.settled_ne_parked (charge : Charge) : charge.settled ≠ .parked := by
  cases charge <;> nofun

theorem Landing.settled_of_ne {p : Landing} (h : p.charge ≠ .parked) : p.settled = p :=
  congrArg (Landing.mk · p.context) (Charge.settled_of_ne h)

namespace Ledger

def landing (l : Ledger) (t : ThreadId) (s : ServiceId) (d : Delta) : Landing where
  charge := (l.charge t s d).2
  context :=
    match (l.charge t s d).2 with
    | .task _ => l.comesTo t s
    | .thread | .parked => (l.charge t s d).1.homeOf t s
    | .skipped _ => none

def prospect (l : Ledger) (t : ThreadId) (s : ServiceId) : Landing where
  charge := l.decision t s
  context :=
    match l.decision t s with
    | .task _ | .thread => l.comesTo t s
    | .parked => some l.contexts.size
    | .skipped _ => none

/-- Every source still has the context that it has handed out for the key that is active on the thread. -/
def Keeps (l : Ledger) (t : ThreadId) : Prop :=
  ∀ s k c, l.activeTask t s = some k → Asked s k c l.journal → l.taskContext t s k = some c

/-! ## What charges leave alone -/

/-- Everything that decides about charges on a thread is as before, but for the thread's own context. -/
structure Steers (t : ThreadId) (l l' : Ledger) : Prop where
  inHook : l'.inHook t = l.inHook t
  active : (l'.thread t).active = (l.thread t).active
  source : ∀ s, (l'.service s).source = (l.service s).source
  rosters : l'.rosters = l.rosters
  initialized : ∀ c < l.contexts.size, (l'.context c).initialized = (l.context c).initialized

/-- Nothing that decides about charges is different but what is remembered of resolved tasks. -/
structure Retains (t : ThreadId) (l l' : Ledger) : Prop extends Steers t l l' where
  home : (l'.thread t).home = (l.thread t).home
  carry : (l'.thread t).carry = (l.thread t).carry
  size : l'.contexts.size = l.contexts.size

/-- The thread's own context is as before, or it is the one that a service has given to the thread. -/
inductive Homes (t : ThreadId) (s : ServiceId) (l l' : Ledger) : Prop
  | same (hd : l.decision t s ≠ .parked) (home : (l'.thread t).home = (l.thread t).home)
      (carry : (l'.thread t).carry = (l.thread t).carry) (size : l'.contexts.size = l.contexts.size)
  | given (hd : l.decision t s = .parked) (home : (l'.thread t).home = .settled s l.contexts.size)
      (carry : (l'.thread t).carry = none) (size : l'.contexts.size = l.contexts.size + 1)

section
variable {l l' l'' : Ledger} {t : ThreadId} {s : ServiceId} {k : TaskKey} {c : ContextId} {d : Delta}

theorem Steers.trans (h : Steers t l l') (h' : Steers t l' l'') (hs : l.contexts.size ≤ l'.contexts.size) :
    Steers t l l'' where
  inHook := h'.inHook.trans h.inHook
  active := h'.active.trans h.active
  source s := (h'.source s).trans (h.source s)
  rosters := h'.rosters.trans h.rosters
  initialized c hc := (h'.initialized c (Nat.lt_of_lt_of_le hc hs)).trans (h.initialized c hc)

theorem Retains.trans (h : Retains t l l') (h' : Retains t l' l'') : Retains t l l'' where
  toSteers := h.toSteers.trans h'.toSteers (Nat.le_of_eq h.size.symm)
  home := h'.home.trans h.home
  carry := h'.carry.trans h.carry
  size := h'.size.trans h.size

theorem retains_of_idle {skips : ServiceId → Nat} (h : Idle skips l l') : Retains t l l' where
  inHook := congrArg (fun threads => (Table.get threads t).inHook) h.threads
  active := congrArg (fun threads => (Table.get threads t).active) h.threads
  source s := (congrArg Service.source (h.service s) :)
  rosters := (congrArg Ledger.rosters h.rest :)
  initialized c _ := (congrArg (fun l : Ledger => (l.context c).initialized) h.rest :)
  home := congrArg (fun threads => (Table.get threads t).home) h.threads
  carry := congrArg (fun threads => (Table.get threads t).carry) h.threads
  size := (congrArg (fun l : Ledger => l.contexts.size) h.rest :)

theorem retains_of_receives (h : Receives l c d l') : Retains t l l' where
  inHook := congrArg (fun threads => (Table.get threads t).inHook) h.idle.threads
  active := congrArg (fun threads => (Table.get threads t).active) h.idle.threads
  source s := (congrArg Service.source (h.idle.service s) :)
  rosters := (congrArg Ledger.rosters h.idle.rest :)
  initialized j _ := by
    rw [context, h.contexts]
    exact Table.get_modify_of_eq _ c j Context.initialized fun _ => rfl
  home := congrArg (fun threads => (Table.get threads t).home) h.idle.threads
  carry := congrArg (fun threads => (Table.get threads t).carry) h.idle.threads
  size := by rw [h.contexts, Table.size_modify]

/-- What a look-up remembers does not come to anything else. -/
theorem retains_of_resolves {j : ThreadId} (h : Resolves l j s k l') : Retains t l l' := by
  have hthread : ∃ r, l'.thread t = { l.thread t with recent := r } := by
    rw [h.thread t]
    split
    · exact ⟨_, rfl⟩
    · exact ⟨_, rfl⟩
  obtain ⟨r, hthread⟩ := hthread
  exact {
    inHook := (congrArg Thread.inHook hthread :)
    active := (congrArg Thread.active hthread :)
    source := fun s => (congrArg Service.source (h.service s) :)
    rosters := (congrArg Ledger.rosters h.rest :)
    initialized := fun c _ => (congrArg (fun l : Ledger => (l.context c).initialized) h.rest :)
    home := (congrArg Thread.home hthread :)
    carry := (congrArg Thread.carry hthread :)
    size := (congrArg (fun l : Ledger => l.contexts.size) h.rest :) }

theorem retains_of_sought (h : Sought l t s l') : Retains t l l' := by
  unfold Sought LooksUp at h
  have hsame : l' = l → Retains t l l' := by
    rintro rfl
    exact retains_of_idle (Idle.refl l')
  split at h
  · exact hsame h
  · split at h
    · exact retains_of_resolves h
    · exact hsame h

theorem steers_newHome : Steers t l (l.newHome t s) where
  inHook := Table.get_modify_of_eq _ t t Thread.inHook fun _ => by rfl
  active := Table.get_modify_of_eq _ t t Thread.active fun _ => by rfl
  source _ := rfl
  rosters := rfl
  initialized c hc := by
    show ((l.contexts.add _).get c).initialized = _
    rw [Table.get_add, if_neg (Nat.ne_of_lt hc)]
    rfl

theorem contexts_size_newHome : (l.newHome t s).contexts.size = l.contexts.size + 1 := Table.size_add ..

theorem charge_steers (h : Ready t l) (hs : s < l.services.size) (d : Delta) :
    Steers t l (l.charge t s d).1 ∧ Homes t s l (l.charge t s d).1 := by
  obtain ⟨-, l₁, hsought, hresults⟩ := charge_results h hs d
  have hfound : Retains t l l₁ := retains_of_sought hsought
  have hretains : l.decision t s ≠ .parked → Retains t l₁ (l.charge t s d).1 →
      Steers t l (l.charge t s d).1 ∧ Homes t s l (l.charge t s d).1 := fun hd hlast =>
    have hall := hfound.trans hlast
    ⟨hall.toSteers, .same hd hall.home hall.carry hall.size⟩
  cases hd : l.decision t s with
  | skipped reason =>
    rw [hd] at hresults
    exact hretains (by rw [hd]; nofun) (retains_of_idle hresults.1)
  | task | thread =>
    rw [hd] at hresults
    obtain ⟨c, -, hreceives, -⟩ := hresults
    exact hretains (by rw [hd]; nofun) (retains_of_receives hreceives)
  | parked =>
    rw [hd] at hresults
    obtain ⟨-, hreceives, hhome, -⟩ := hresults
    have hlast : Retains t (l.newHome t s) (l.charge t s d).1 := retains_of_receives hreceives
    have hcarry : ((l.charge t s d).1.thread t).carry = none :=
      hlast.carry.trans (congrArg Thread.carry (Table.get_modify_self _ h.thread))
    exact ⟨steers_newHome.trans hlast.toSteers (Nat.le_of_lt (Nat.lt_of_lt_of_eq (Nat.lt_succ_self _)
      contexts_size_newHome.symm)), .given hd hhome hcarry (hlast.size.trans contexts_size_newHome)⟩

theorem Homes.contexts_size (h : Homes t s l l') : l.contexts.size ≤ l'.contexts.size := by
  cases h with
  | same _ _ _ hsize => exact Nat.le_of_eq hsize.symm
  | given _ _ _ hsize => exact Nat.le_of_lt (hsize ▸ Nat.lt_succ_self _)

/-! ## What is decided -/

theorem Steers.activeTask (h : Steers t l l') (s : ServiceId) : l'.activeTask t s = l.activeTask t s := by
  unfold Ledger.activeTask roster
  rw [h.source, h.active, h.rosters]

theorem Steers.taskContext (h : Steers t l l') (s : ServiceId) (k : TaskKey) :
    l'.taskContext t s k = l.taskContext t s k := by
  unfold Ledger.taskContext scopedContext roster
  rw [h.source, h.active, h.rosters]

inductive Decides (l : Ledger) (t : ThreadId) (s : ServiceId) : Charge → Prop
  | reentrant (hn : l.inHook t = true) : Decides l t s (.skipped .reentrant)
  | absent {k : TaskKey} (hn : l.inHook t = false) (hk : l.activeTask t s = some k) (hc : l.resolved t s k = none) :
      Decides l t s (.skipped .taskContextAbsent)
  | unset {k : TaskKey} {c : ContextId} (hn : l.inHook t = false) (hk : l.activeTask t s = some k)
      (hc : l.resolved t s k = some c) (hi : (l.context c).initialized = false) : Decides l t s (.skipped .contextUninitialized)
  | task {k : TaskKey} {c : ContextId} (hn : l.inHook t = false) (hk : l.activeTask t s = some k)
      (hc : l.resolved t s k = some c) (hi : (l.context c).initialized = true) : Decides l t s (.task k)
  | exiting (hn : l.inHook t = false) (hk : l.activeTask t s = none) (hh : (l.thread t).home = .closed) :
      Decides l t s (.skipped .threadExiting)
  | thread {c : ContextId} (hn : l.inHook t = false) (hk : l.activeTask t s = none)
      (hh : (l.thread t).home = .settled s c) : Decides l t s .thread
  | foreign {owner : ServiceId} {c : ContextId} (hn : l.inHook t = false) (hk : l.activeTask t s = none)
      (hh : (l.thread t).home = .settled owner c) (ho : owner ≠ s) :
      Decides l t s (.skipped .foreignThreadContext)
  | parked (hn : l.inHook t = false) (hk : l.activeTask t s = none) (hh : (l.thread t).home = .absent)
      (ho : ∀ carry ∈ (l.thread t).carry, carry.owner = s) : Decides l t s .parked
  | reserved {carry : Carry} (hn : l.inHook t = false) (hk : l.activeTask t s = none) (hh : (l.thread t).home = .absent)
      (hc : (l.thread t).carry = some carry) (ho : carry.owner ≠ s) :
      Decides l t s (.skipped .foreignThreadContext)

theorem decides (l : Ledger) (t : ThreadId) (s : ServiceId) : Decides l t s (l.decision t s) := by
  unfold decision destination
  cases hn : l.inHook t with
  | true => exact .reentrant hn
  | false =>
    simp only [Bool.false_eq_true, if_false]
    cases hk : l.activeTask t s with
    | some k =>
      dsimp only
      cases hc : l.resolved t s k with
      | none => exact .absent hn hk hc
      | some c =>
        dsimp only
        cases hi : (l.context c).initialized with
        | false => exact .unset hn hk hc hi
        | true => exact .task hn hk hc hi
    | none =>
      dsimp only
      cases hh : (l.thread t).home with
      | closed => exact .exiting hn hk hh
      | settled owner c =>
        dsimp only
        by_cases ho : owner = s
        · subst ho
          simpa using Decides.thread hn hk hh
        · simpa [ho] using Decides.foreign hn hk hh ho
      | absent =>
        dsimp only
        cases hc : (l.thread t).carry with
        | none => exact .parked hn hk hh (by simp [hc])
        | some carry =>
          dsimp only
          by_cases ho : carry.owner = s
          · simpa [ho] using Decides.parked hn hk hh (by simp [hc, ho])
          · simpa [ho] using Decides.reserved hn hk hh hc ho

theorem Decides.eq {charge : Charge} (h : Decides l t s charge) : l.decision t s = charge := by
  unfold decision destination
  cases h with
  | parked hn hk hh ho =>
    cases hc : (l.thread t).carry with
    | none => simp [hn, hk, hh]
    | some carry => simp [hn, hk, hh, ho carry hc]
  | _ => simp [*]

/-- A thread that parks holds nothing for another service. -/
theorem owner_of_parked (h : l.decision t s = .parked) : ∀ carry ∈ (l.thread t).carry, carry.owner = s := by
  have hdecides := l.decides t s
  rw [h] at hdecides
  cases hdecides with
  | parked _ _ _ ho => exact ho

theorem lt_of_taskContext (h : Sound l) (hc : l.taskContext t s k = some c) : c < l.contexts.size := by
  have hknown := known_of_taskContext h hc
  unfold Known at hknown
  split at hknown
  · exact (h.opened _ hknown).1.1
  · -- only a context that is there was ever published
    exact Table.lt_size_of_get (k ∈ ·.published) (List.not_mem_nil ·) hknown.1

theorem mem_of_lastSince {older : List Entry} {p : Resolution} (h : lastSince t s older = some p) :
    .resolved p ∈ older ∧ p.service = s := by
  induction older with
  | nil => cases h
  | cons e older ih =>
    have hrest : lastSince t s older = some p → .resolved p ∈ e :: older ∧ p.service = s := fun hp =>
      (ih hp).imp_left (List.mem_cons_of_mem _)
    cases e with
    | resolved r =>
      unfold lastSince at h
      split at h
      · rename_i hr
        obtain rfl := Option.some.inj h
        exact ⟨List.mem_cons_self .., hr.2⟩
      · exact hrest h
    | bound =>
      unfold lastSince at h
      split at h
      · cases h
      · exact hrest h
    | _ => exact hrest h

theorem asked_of_recalled {slot : Option Nat} {older : List Entry} (h : recalled t s slot k older = some c) :
    Asked s k c older := by
  have hasked : ∀ {p : Resolution}, .resolved p ∈ older → p.service = s → p.key = k → p.context = some c →
      Asked s k c older := fun hp hs hk hc => ⟨_, List.mem_filterMap.mpr ⟨_, hp, rfl⟩, hs, hk, hc⟩
  unfold recalled at h
  split at h
  · -- the slot remembers what it has resolved last
    obtain ⟨p, hp, hc⟩ := Option.bind_eq_some_iff.mp h
    obtain ⟨hmem, hs⟩ := mem_of_lastSince hp
    split at hc
    · exact hasked hmem hs ‹_› hc
    · cases hc
  · obtain ⟨p, hp, hc⟩ := Option.bind_eq_some_iff.mp h
    split at hc
    · rename_i hs
      obtain ⟨e, he, hf⟩ := List.exists_of_findSome?_eq_some hp
      unfold Entry.found? at hf
      split at hf
      · split at hf
        · obtain rfl := Option.some.inj hf
          exact hasked he hs.1 hs.2 hc
        · cases hf
      · cases hf
    · cases hc

end

/-! ## Charges on a thread whose sources keep what they hand out -/

structure Firm (t : ThreadId) (l : Ledger) : Prop where
  ready : Ready t l
  follows : Follows l t l
  keeps : l.Keeps t

section
variable {l l' : Ledger} {t : ThreadId} {s s' : ServiceId} {k : TaskKey} {d : Delta}

theorem Firm.resolved (h : Firm t l) (hk : l.activeTask t s = some k) : l.resolved t s k = l.taskContext t s k := by
  rw [Ledger.resolved, h.follows.recollects.reused]
  cases hc : recalled t s (l.boundSlot t s) k l.journal with
  | none => rfl
  | some c => exact (h.keeps s k c hk (asked_of_recalled hc)).symm

/-- What sources have handed out meanwhile is what they know. -/
theorem Firm.mono (h : Firm t l) (hr : Ready t l') (hf : Follows l t l') (hs : Steers t l l')
    (hj : ∀ s k c, l.activeTask t s = some k → Asked s k c l'.journal →
      Asked s k c l.journal ∨ l.taskContext t s k = some c) : Firm t l' where
  ready := hr
  follows := hf.recollects.follows hf.exclusive hf.lt
  keeps s k c hk hc := by
    rw [hs.activeTask] at hk
    rw [hs.taskContext]
    exact (hj s k c hk hc).elim (h.keeps s k c hk) id

/-- A charge has the source asked for nothing but the context of the active key. -/
theorem Firm.asked_charge (h : Firm t l) {c : ContextId} (hk : l.activeTask t s' = some k)
    (hc : Asked s' k c (l.charge t s d).1.journal) : Asked s' k c l.journal ∨ l.taskContext t s' k = some c := by
  cases hn : l.inHook t with
  | true =>
    rw [charge_of_inHook hn] at hc
    exact .inl hc
  | false =>
    obtain ⟨after, v, hidle, -, -, hjournal⟩ := charge_journal (s := s) (d := d) hn
    obtain ⟨r, hr, rfl, rfl, hcontext⟩ := hc
    obtain ⟨e, he, hresolution⟩ := List.mem_filterMap.mp hr
    rw [hjournal] at he
    rcases List.mem_append.mp he with he | he
    · exact absurd ((hidle e he).resolution?.symm.trans hresolution) nofun
    rcases List.mem_cons.mp he with rfl | he
    · cases hresolution
    rcases List.mem_append.mp he with he | he
    · obtain ⟨k, hactive, rfl⟩ := Option.map_eq_some_iff.mp (Option.mem_toList.mp he)
      obtain rfl := Option.some.inj hresolution
      exact .inr ((h.resolved hactive).symm.trans hcontext)
    · exact .inl ⟨r, List.mem_filterMap.mpr ⟨e, he, hresolution⟩, rfl, rfl, hcontext⟩

theorem Firm.charge (h : Firm t l) (hs : s < l.services.size) (d : Delta) : Firm t (l.charge t s d).1 :=
  h.mono ((obliges_charge l [] s d h.ready hs).ready h.ready)
    (h.follows.built (charge_built (S := fun _ => True) t trivial d)) (charge_steers h.ready hs d).1
    fun _ _ _ hk hc => h.asked_charge hk hc

theorem comesTo_of_home {c : ContextId} (hk : l.activeTask t s = none) (hh : (l.thread t).home = .settled s c) :
    l.comesTo t s = some c := by
  rw [comesTo, hk]
  dsimp only
  rw [homeOf, hh]
  exact if_pos rfl

theorem prospect_congr (hd : l'.decision t s = l.decision t s) (hc : l'.comesTo t s = l.comesTo t s)
    (hp : l.decision t s ≠ .parked) : l'.prospect t s = l.prospect t s := by
  unfold prospect
  rw [hd, hc]
  cases h : l.decision t s <;> first | rfl | exact absurd h hp

/-- A charge ends up where it was going to. -/
theorem Firm.landing (h : Firm t l) (hs : s < l.services.size) (d : Delta) : l.landing t s d = l.prospect t s := by
  obtain ⟨-, hhomes⟩ := charge_steers h.ready hs d
  unfold Ledger.landing prospect
  rw [charge_snd h.ready.sound]
  have hdecides := l.decides t s
  generalize hd : l.decision t s = charge at hdecides
  cases hdecides with
  | thread _ hk hh =>
    cases hhomes with
    | given hparked => exact absurd (hd.symm.trans hparked) nofun
    | same _ hhome =>
      refine congrArg (Landing.mk .thread) (Eq.trans ?_ (comesTo_of_home hk hh).symm)
      rw [homeOf, hhome, hh]
      exact if_pos rfl
  | parked =>
    cases hhomes with
    | same hparked => exact absurd hd hparked
    | given _ hhome =>
      refine congrArg (Landing.mk .parked) ?_
      dsimp only
      rw [homeOf, hhome]
      exact if_pos rfl
  | _ => rfl

/-- No charge changes where a service's next charge is going to end up, unless that was going to be parked. -/
theorem Firm.prospect_charge (h : Firm t l) (hs : s < l.services.size) (d : Delta) (hp : l.decision t s' ≠ .parked) :
    (l.charge t s d).1.prospect t s' = l.prospect t s' := by
  have h' := h.charge hs d
  obtain ⟨hsteers, hhomes⟩ := charge_steers h.ready hs d
  have hhook : ∀ {b}, l.inHook t = b → (l.charge t s d).1.inHook t = b := hsteers.inHook.trans
  have hactive : ∀ {k}, l.activeTask t s' = k → (l.charge t s d).1.activeTask t s' = k := (hsteers.activeTask s').trans
  have hresolved : ∀ {k c}, l.activeTask t s' = some k → l.resolved t s' k = c →
      (l.charge t s d).1.resolved t s' k = c := fun hk hc => by
    rw [h'.resolved (hactive hk), hsteers.taskContext, ← h.resolved hk, hc]
  have hinitialized : ∀ {k c}, l.activeTask t s' = some k → l.resolved t s' k = some c →
      ((l.charge t s d).1.context c).initialized = (l.context c).initialized := fun hk hc =>
    hsteers.initialized _ (lt_of_taskContext h.ready.sound ((h.resolved hk).symm.trans hc))
  -- a thread that has had a context, or gives none away, keeps its own
  have hkept : (l.thread t).home ≠ .absent → ((l.charge t s d).1.thread t).home = (l.thread t).home := by
    intro hh
    cases hhomes with
    | same _ hhome => exact hhome
    | given hd =>
      have hdecides := l.decides t s
      rw [hd] at hdecides
      cases hdecides with
      | parked _ _ habsent => exact absurd habsent hh
  have hskips : ∀ {reason}, Decides l t s' (.skipped reason) → Decides (l.charge t s d).1 t s' (.skipped reason) →
      (l.charge t s d).1.prospect t s' = l.prospect t s' := fun hd hd' => by
    simp only [prospect, hd.eq, hd'.eq]
  have hdecides := l.decides t s'
  generalize hd : l.decision t s' = charge at hdecides hp
  cases hdecides with
  | reentrant hn => exact hskips (.reentrant hn) (.reentrant (hhook hn))
  | absent hn hk hc => exact hskips (.absent hn hk hc) (.absent (hhook hn) (hactive hk) (hresolved hk hc))
  | unset hn hk hc hi =>
    exact hskips (.unset hn hk hc hi) (.unset (hhook hn) (hactive hk) (hresolved hk hc) ((hinitialized hk hc).trans hi))
  | task hn hk hc hi =>
    have hd' := (Decides.task (hhook hn) (hactive hk) (hresolved hk hc) ((hinitialized hk hc).trans hi)).eq
    exact prospect_congr (hd'.trans hd.symm) (by simp only [comesTo, hk, hactive hk, hresolved hk rfl]) (by simp [hd])
  | exiting hn hk hh =>
    have hh' := (hkept (by simp [hh])).trans hh
    exact hskips (.exiting hn hk hh) (.exiting (hhook hn) (hactive hk) hh')
  | thread hn hk hh =>
    have hhome := (hkept (by simp [hh])).trans hh
    have hd' := (Decides.thread (hhook hn) (hactive hk) hhome).eq
    refine prospect_congr (hd'.trans hd.symm) ?_ (by simp [hd])
    rw [comesTo_of_home (hactive hk) hhome, comesTo_of_home hk hh]
  | foreign hn hk hh ho =>
    exact hskips (.foreign hn hk hh ho) (.foreign (hhook hn) (hactive hk) ((hkept (by simp [hh])).trans hh) ho)
  | parked => exact absurd rfl hp
  | @reserved carry hn hk hh hc ho =>
    refine hskips (.reserved hn hk hh hc ho) ?_
    cases hhomes with
    | same _ hhome hcarry => exact .reserved (hhook hn) (hactive hk) (hhome.trans hh) (hcarry.trans hc) ho
    | given hd hhome =>
      -- what is held is held for the service that has given the context
      exact .foreign (hhook hn) (hactive hk) hhome (owner_of_parked hd carry hc ▸ ho)

/-- The next charge of the same service ends up where this one has. -/
theorem Firm.prospect_settled (h : Firm t l) (hs : s < l.services.size) (d : Delta) :
    (l.charge t s d).1.prospect t s = (l.prospect t s).settled := by
  by_cases hp : l.decision t s = .parked
  · obtain ⟨hsteers, hhomes⟩ := charge_steers h.ready hs d
    cases hhomes with
    | same hparked => exact absurd hp hparked
    | given _ hhome =>
      have hdecides := l.decides t s
      rw [hp] at hdecides
      cases hdecides with
      | parked hn hk =>
        have hk' := (hsteers.activeTask s).trans hk
        have hd' := (Decides.thread (hsteers.inHook.trans hn) hk' hhome).eq
        simp only [prospect, hp, hd', comesTo_of_home hk' hhome]
        rfl
  · rw [h.prospect_charge hs d hp]
    exact (Landing.settled_of_ne hp).symm

end

end Ledger

/-- In every run, a thread whose sources keep what they have handed out comes to what they know. -/
theorem Run.firm {h : Holdings} {l : Ledger} {t : ThreadId} (hr : Run h l) (ht : t < l.threads.size) (hk : l.Keeps t) :
    Firm t l := by
  obtain ⟨hsound, hcarries, -⟩ := hr.reach
  exact ⟨⟨hsound, hcarries, ht⟩, hr.recollects.follows hr.exclusive ht, hk⟩

end HeapLedger
