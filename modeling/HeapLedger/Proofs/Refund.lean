import HeapLedger.Proofs.Landing
import HeapLedger.Proofs.Metering

/-!
# A block that is not moved

A block that the memory refuses to move is taken back from everybody who is charged for it, and then charged again. Both
charges of a service end up in one place, whatever the first of them has brought about, so every context holds what it has
held before.
-/

namespace HeapLedger

open Ledger

def Hook.service? : Hook → Option ServiceId
  | .adapter s => some s
  | .recorder _ => none

/-- What is taken back for a block is what it is charged with. -/
theorem Delta.toInt_free (usable : UInt64) :
    (BlockEvent.free.delta usable).toInt = -(BlockEvent.alloc.delta usable).toInt := by
  have hsize := Delta.toInt_ofSize usable
  show (Delta.negClamped (Delta.ofSize usable)).toInt = -(Delta.ofSize usable).toInt
  rw [Delta.negClamped, Delta.toInt_clamp_of_mem]
  all_goals
    simp only [hsize, Delta.least, Delta.greatest]
    omega

namespace Ledger

def informed (l : Ledger) (t : ThreadId) (m : AllocatorId) (kind : BlockEvent) (a : Address) (layout : Layout) (i : Nat) :
    Ledger :=
  (l.post (.reported (l.report m kind a layout i))).countCall t m

/-- The ledger in which the memory is asked for another size of a block, which hooks take for freed. -/
def vacated (l : Ledger) (t : ThreadId) (m : AllocatorId) (a : Address) (layout : Layout) : Ledger :=
  (l.runHooks t m .free a layout).countCall t m

/-- Where the charges of hooks that are told about a block end up, one after the other. -/
def landings (t : ThreadId) (m : AllocatorId) (kind : BlockEvent) (a : Address) (layout : Layout) (l : Ledger) :
    List (Hook × Nat) → List (Option Landing)
  | [] => []
  | hook :: hooks =>
    (hook.1.service?.map fun s =>
      (l.informed t m kind a layout hook.2).landing t s (kind.delta ((l.allocator m).usable a layout))) ::
      landings t m kind a layout (tellHook t m kind a layout l hook) hooks

def awaiting (l : Ledger) (t : ThreadId) (c : ContextId) : Int :=
  if c = l.contexts.size then worth ((l.thread t).carry.map (·.delta)) else 0

/-- A context gains an amount, in what it takes in and what is held for it. -/
def Gains (t : ThreadId) (c : ContextId) (n : Int) (l l' : Ledger) : Prop :=
  ∃ new, l'.journal = new ++ l.journal ∧ total (gathered c new) + l'.awaiting t c = n + l.awaiting t c

/-- An amount can be added to what is held on a thread, if a context that is not there yet takes it in. -/
def Affords (l : Ledger) (t : ThreadId) (c : ContextId) (d : Delta) : Prop :=
  l.contexts.size ≤ c → ∀ carry ∈ (l.thread t).carry, Delta.InRange (carry.delta.toInt + d.toInt)

/-! ## Hooks are told -/

structure Notes (l l' : Ledger) : Prop where
  rest : { l' with allocators := l.allocators, journal := l.journal } = l
  journal : Grows (fun e => e.Idle ∧ e.intake? = none) l l'

section
variable {l l' : Ledger} {t : ThreadId} {s : ServiceId} {m : AllocatorId} {kind : BlockEvent} {a : Address}
  {layout : Layout}

theorem countCall_notes : Notes l (l.countCall t m) := by
  unfold countCall
  split <;> exact ⟨rfl, grows_of_eq rfl⟩

theorem informed_notes (i : Nat) : Notes l (l.informed t m kind a layout i) where
  rest := (congrArg (fun l₁ : Ledger => { l₁ with journal := l.journal }) (countCall_notes (t := t) (m := m)).rest :)
  journal := by
    have hpost : Grows (fun e => e.Idle ∧ e.intake? = none) l (l.post (.reported (l.report m kind a layout i))) :=
      grows_post ⟨trivial, rfl⟩
    exact hpost.trans countCall_notes.journal

theorem Notes.steers (h : Notes l l') : Steers t l l' where
  inHook := (congrArg (fun l : Ledger => l.inHook t) h.rest :)
  active := (congrArg (fun l : Ledger => (l.thread t).active) h.rest :)
  source s := (congrArg (fun l : Ledger => (l.service s).source) h.rest :)
  rosters := (congrArg Ledger.rosters h.rest :)
  initialized c _ := (congrArg (fun l : Ledger => (l.context c).initialized) h.rest :)

theorem Notes.prospect (h : Notes l l') (s : ServiceId) : l'.prospect t s = l.prospect t s :=
  (congrArg (fun l : Ledger => l.prospect t s) h.rest :)

theorem Notes.awaiting (h : Notes l l') (c : ContextId) : l'.awaiting t c = l.awaiting t c :=
  (congrArg (fun l : Ledger => l.awaiting t c) h.rest :)

theorem Notes.services_size (h : Notes l l') : l'.services.size = l.services.size :=
  (congrArg (fun l : Ledger => l.services.size) h.rest :)

theorem Notes.contexts_size (h : Notes l l') : l'.contexts.size = l.contexts.size :=
  (congrArg (fun l : Ledger => l.contexts.size) h.rest :)

theorem Notes.carry (h : Notes l l') : (l'.thread t).carry = (l.thread t).carry :=
  (congrArg (fun l : Ledger => (l.thread t).carry) h.rest :)

theorem Notes.firm (hn : Notes l l') (h : Firm t l) (hr : Ready t l') (hf : Follows l t l') : Firm t l' := by
  refine h.mono hr hf hn.steers fun s k c _ hc => .inl ?_
  obtain ⟨new, hnew, hidle⟩ := hn.journal
  obtain ⟨r, hr, hrest⟩ := hc
  obtain ⟨e, he, hresolution⟩ := List.mem_filterMap.mp hr
  rw [hnew] at he
  rcases List.mem_append.mp he with he | he
  · exact absurd ((hidle e he).1.resolution?.symm.trans hresolution) nofun
  · exact ⟨r, List.mem_filterMap.mpr ⟨e, he, hresolution⟩, hrest⟩

theorem Firm.countCall (h : Firm t l) (m : AllocatorId) : Firm t (l.countCall t m) :=
  countCall_notes.firm h (Tendings.ready h.ready (countCall_tendings (q := []) h.ready m))
    (h.follows.handling (countCall_built t m))

theorem Firm.informed (h : Firm t l) (i : Nat) : Firm t (l.informed t m kind a layout i) := by
  have hreport : Notes l (l.post (.reported (l.report m kind a layout i))) := ⟨rfl, grows_post ⟨trivial, rfl⟩⟩
  have hready : Tendings t (l, []) (l.post (.reported (l.report m kind a layout i)), []) := .single (.report _)
  exact (hreport.firm h (hready.ready h.ready) (h.follows.handling (.step (.report _)))).countCall m

/-! ## Where their charges end up -/

def Charges (l : Ledger) (hook : Hook) : Prop := ∀ s ∈ hook.service?, s < l.services.size

variable {hook : Hook × Nat} {hooks : List (Hook × Nat)}

theorem recorder_notes (name : String) (i : Nat) : Notes l (tellHook t m kind a layout l (.recorder name, i)) := by
  refine ⟨rfl, [_, _], rfl, fun e he => ?_⟩
  rcases List.mem_cons.mp he with rfl | he
  · exact ⟨trivial, rfl⟩
  · exact List.mem_singleton.mp he ▸ ⟨trivial, rfl⟩

theorem Firm.tellHook (h : Firm t l) (hs : l.Charges hook.1) : Firm t (tellHook t m kind a layout l hook) := by
  obtain ⟨hook, i⟩ := hook
  cases hook with
  | adapter s => exact (h.informed i).charge (Nat.lt_of_lt_of_eq (hs s rfl) (informed_notes i).services_size.symm) _
  | recorder name =>
    have htell : Tendings t (l, []) (Ledger.tellHook t m kind a layout l (.recorder name, i), []) :=
      tellHook_tendings (fun s heq => by cases heq) h.ready m kind a layout
    have hfollows := h.follows.handling (tellHook_built t m kind a layout (.recorder name, i))
    exact (recorder_notes name i).firm h (htell.ready h.ready) hfollows

theorem Charges.tellHook (h : Firm t l) (hook : Hook × Nat) (hs : l.Charges hook.1) {other : Hook} (ho : l.Charges other) :
    (tellHook t m kind a layout l hook).Charges other := fun s hs' =>
  have htell : Tendings t (l, []) (Ledger.tellHook t m kind a layout l hook, []) :=
    tellHook_tendings (fun s heq => hs s (by rw [heq]; rfl)) h.ready m kind a layout
  Nat.lt_of_lt_of_le (ho s hs') htell.still.services_size

/-- A told hook changes no prospect but those of charges that would be parked. -/
theorem Firm.prospect_tellHook (h : Firm t l) (hs : l.Charges hook.1) (hp : l.decision t s ≠ .parked) :
    (Ledger.tellHook t m kind a layout l hook).prospect t s = l.prospect t s := by
  obtain ⟨hook, i⟩ := hook
  cases hook with
  | recorder name => exact (recorder_notes name i).prospect s
  | adapter s' =>
    have hnotes : Notes l (l.informed t m kind a layout i) := informed_notes i
    have hlt := Nat.lt_of_lt_of_eq (hs s' rfl) hnotes.services_size.symm
    have hprospect := hnotes.prospect (t := t) s
    have hp' : (l.informed t m kind a layout i).decision t s ≠ .parked := fun hd =>
      hp ((congrArg Landing.charge hprospect).symm.trans hd)
    exact ((h.informed i).prospect_charge hlt _ hp').trans hprospect

/-- What a hook charges ends up where its service's charges were going to, and so will the next one. -/
theorem Firm.landing_tellHook (h : Firm t l) (m : AllocatorId) (kind : BlockEvent) (a : Address) (layout : Layout) (i : Nat)
    (hs : s < l.services.size) :
    (l.informed t m kind a layout i).landing t s (kind.delta ((l.allocator m).usable a layout)) = l.prospect t s ∧
      (Ledger.tellHook t m kind a layout l (.adapter s, i)).prospect t s = (l.prospect t s).settled := by
  have hnotes : Notes l (l.informed t m kind a layout i) := informed_notes i
  have hlt := Nat.lt_of_lt_of_eq hs hnotes.services_size.symm
  exact ⟨((h.informed i).landing hlt _).trans (hnotes.prospect s),
    ((h.informed i).prospect_settled hlt _).trans (congrArg Landing.settled (hnotes.prospect s))⟩

theorem Firm.landing?_tellHook (h : Firm t l) (hs : l.Charges hook.1) :
    (hook.1.service?.map fun s =>
      (l.informed t m kind a layout hook.2).landing t s (kind.delta ((l.allocator m).usable a layout))) =
      hook.1.service?.map (l.prospect t) :=
  Option.map_congr fun s hs' => (h.landing_tellHook m kind a layout hook.2 (hs s hs')).1

theorem Firm.tellHooks (h : Firm t l) (hs : ∀ hook ∈ hooks, l.Charges hook.1) :
    Firm t (hooks.foldl (Ledger.tellHook t m kind a layout) l) := by
  induction hooks generalizing l with
  | nil => exact h
  | cons hook hooks ih =>
    have hfirst := hs hook (List.mem_cons_self ..)
    exact ih (h.tellHook hfirst) fun other ho => Charges.tellHook h hook hfirst (hs other (List.mem_cons_of_mem _ ho))

theorem Firm.prospect_tellHooks (h : Firm t l) (hs : ∀ hook ∈ hooks, l.Charges hook.1) (hp : l.decision t s ≠ .parked) :
    (hooks.foldl (Ledger.tellHook t m kind a layout) l).prospect t s = l.prospect t s := by
  induction hooks generalizing l with
  | nil => rfl
  | cons hook hooks ih =>
    have hfirst := hs hook (List.mem_cons_self ..)
    have hsame : (Ledger.tellHook t m kind a layout l hook).prospect t s = l.prospect t s := h.prospect_tellHook hfirst hp
    have hp' : (Ledger.tellHook t m kind a layout l hook).decision t s ≠ .parked := fun hd =>
      hp ((congrArg Landing.charge hsame).symm.trans hd)
    exact (ih (h.tellHook hfirst) (fun other ho => Charges.tellHook h hook hfirst (hs other (List.mem_cons_of_mem _ ho)))
      hp').trans hsame

/-- When all hooks have been told, every service's charges end up where the one that its hook has made did. -/
theorem Firm.landings_settled (h : Firm t l) (hs : ∀ hook ∈ hooks, l.Charges hook.1) :
    (landings t m kind a layout l hooks).map (Option.map Landing.settled) = hooks.map fun hook =>
      hook.1.service?.map ((hooks.foldl (Ledger.tellHook t m kind a layout) l).prospect t) := by
  induction hooks generalizing l with
  | nil => rfl
  | cons hook hooks ih =>
    have hfirst := hs hook (List.mem_cons_self ..)
    have hafter : ∀ other ∈ hooks, (Ledger.tellHook t m kind a layout l hook).Charges other.1 := fun other ho =>
      Charges.tellHook h hook hfirst (hs other (List.mem_cons_of_mem _ ho))
    have hrest := ih (h.tellHook hfirst) hafter
    rw [List.map_cons, List.foldl_cons, landings, List.map_cons, hrest]
    refine congrArg (· :: _) ?_
    obtain ⟨hook, i⟩ := hook
    cases hook with
    | recorder name => rfl
    | adapter s =>
      obtain ⟨hlanding, hsettled⟩ := h.landing_tellHook m kind a layout i (hfirst s rfl)
      -- from now on no other hook makes a difference to the service
      have hp : (Ledger.tellHook t m kind a layout l (.adapter s, i)).decision t s ≠ .parked := fun hd =>
        (l.prospect t s).charge.settled_ne_parked ((congrArg Landing.charge hsettled).symm.trans hd)
      have hlast : (hooks.foldl (Ledger.tellHook t m kind a layout) (Ledger.tellHook t m kind a layout l
          (.adapter s, i))).prospect t s = (l.prospect t s).settled :=
        ((h.tellHook hfirst).prospect_tellHooks hafter hp).trans hsettled
      exact congrArg some ((congrArg Landing.settled hlanding).trans hlast.symm)

/-- Where no hook's charge is going to be parked, every one ends up where it was going to from the start. -/
theorem Firm.landings_unparked (h : Firm t l) (hs : ∀ hook ∈ hooks, l.Charges hook.1)
    (hp : ∀ hook ∈ hooks, ∀ s ∈ hook.1.service?, l.decision t s ≠ .parked) :
    landings t m kind a layout l hooks = hooks.map fun hook => hook.1.service?.map (l.prospect t) := by
  induction hooks generalizing l with
  | nil => rfl
  | cons hook hooks ih =>
    have hfirst := hs hook (List.mem_cons_self ..)
    have hsame : ∀ other ∈ hooks, ∀ s ∈ other.1.service?,
        (Ledger.tellHook t m kind a layout l hook).prospect t s = l.prospect t s := fun other ho s hs =>
      h.prospect_tellHook hfirst (hp other (List.mem_cons_of_mem _ ho) s hs)
    have hrest := ih (h.tellHook hfirst)
      (fun other ho => Charges.tellHook h hook hfirst (hs other (List.mem_cons_of_mem _ ho))) fun other ho s hs hd =>
        hp other (List.mem_cons_of_mem _ ho) s hs ((congrArg Landing.charge (hsame other ho s hs)).symm.trans hd)
    rw [landings, hrest, List.map_cons, h.landing?_tellHook hfirst]
    exact congrArg (_ :: ·) (List.map_congr_left fun other ho => Option.map_congr fun s hs => hsame other ho s hs)

/-! ## What contexts take in -/

theorem gathered_of_silent {c : ContextId} {entries : List Entry} (h : ∀ e ∈ entries, e.intake? = none) :
    gathered c entries = [] :=
  gathered_eq_nil fun e he _ hi => absurd ((h e he).symm.trans hi) nofun

theorem gathered_written {c : ContextId} {v : Verdict} {after : List Entry} :
    total (gathered c (after ++ .charged v :: l.inquiry t s)) =
      total (gathered c after) + total (gathered c [.charged v]) := by
  have hsplit : after ++ .charged v :: l.inquiry t s = after ++ ([.charged v] ++ l.inquiry t s) := rfl
  rw [hsplit, gathered_append, gathered_append, gathered_of_silent (intake?_of_inquiry l t s), List.append_nil]
  simp [total]

theorem Gains.trans {l'' : Ledger} {c : ContextId} {n n' : Int} (h : Gains t c n l l') (h' : Gains t c n' l' l'') :
    Gains t c (n + n') l l'' := by
  obtain ⟨new, hnew, hgained⟩ := h
  obtain ⟨newer, hnewer, hgained'⟩ := h'
  refine ⟨newer ++ new, by rw [hnewer, hnew, List.append_assoc], ?_⟩
  have hsum : total (gathered c (newer ++ new)) = total (gathered c newer) + total (gathered c new) := by
    rw [gathered_append]
    simp [total]
  omega

theorem Notes.gains (h : Notes l l') (c : ContextId) : Gains t c 0 l l' := by
  obtain ⟨new, hnew, hsilent⟩ := h.journal
  refine ⟨new, hnew, ?_⟩
  rw [gathered_of_silent fun e he => (hsilent e he).2, h.awaiting]
  rfl

/-- What is carried into a new context is what is parked together with what was held before. -/
theorem toInt_carried {d : Delta} (howner : ∀ carry ∈ (l.thread t).carry, carry.owner = s)
    (hr : ∀ carry ∈ (l.thread t).carry, Delta.InRange (carry.delta.toInt + d.toInt)) :
    (((l.thread t).carriedFor s).addClamped d).toInt = d.toInt + worth ((l.thread t).carry.map (·.delta)) := by
  unfold Thread.carriedFor
  cases hc : (l.thread t).carry with
  | none =>
    rw [Delta.toInt_addClamped_of_inRange]
    · exact Int.add_comm ..
    · exact ⟨(Int.zero_add d.toInt).symm ▸ Delta.least_le_toInt d, (Int.zero_add d.toInt).symm ▸ Delta.toInt_le_greatest d⟩
  | some carry =>
    dsimp only
    rw [if_pos (howner carry hc), Delta.toInt_addClamped_of_inRange (hr carry hc)]
    exact Int.add_comm ..

theorem Firm.gains_parked (h : Firm t l) (hs : s < l.services.size) (d : Delta) {c : ContextId}
    (hp : l.decision t s = .parked)
    (hr : c = l.contexts.size → ∀ carry ∈ (l.thread t).carry, Delta.InRange (carry.delta.toInt + d.toInt)) :
    Gains t c (if (l.prospect t s).context = some c then d.toInt else 0) l (l.charge t s d).1 := by
  have hsnd := charge_snd (t := t) (s := s) h.ready.sound d
  obtain ⟨-, hhomes⟩ := charge_steers h.ready hs d
  have howner := owner_of_parked hp
  obtain ⟨after, ⟨hjournal, -⟩, hnothing, hcarried⟩ := charge_written_of_parked h.ready.thread (hsnd.trans hp)
  have hlands : (l.prospect t s).context = some l.contexts.size := by rw [prospect, hp]
  have hempty : (l.charge t s d).1.awaiting t c = 0 := by
    cases hhomes with
    | same hparked => exact absurd hp hparked
    | given _ _ hcarry => rw [awaiting, hcarry]; exact ite_self _
  have hafter : total (gathered c after) =
      if l.contexts.size = c then (((l.thread t).carriedFor s).addClamped d).toInt else 0 := by
    by_cases hz : ((l.thread t).carriedFor s).addClamped d = 0
    · rw [hnothing hz, hz]
      exact (ite_self _).symm
    · obtain ⟨out, hout, rfl⟩ := hcarried hz
      rw [gathered_append, gathered_of_silent fun e he => (hout e he).intake?, List.nil_append, gathered_eq]
      by_cases hc : l.contexts.size = c <;> simp [Entry.intake?, hc, total]
  -- the verdict itself tells of no intake: the amount is in what was carried
  have hverdict : gathered c [.charged (l.verdict t s d (l.comesTo t s) (l.charge t s d).2)] = [] :=
    gathered_of_silent fun e he => by
      obtain rfl := List.mem_singleton.mp he
      rw [hsnd, hp]
      rfl
  refine ⟨after ++ .charged (l.verdict t s d (l.comesTo t s) (l.charge t s d).2) :: l.inquiry t s,
    by rw [hjournal]; simp, ?_⟩
  rw [gathered_written, hverdict, hafter, hempty, hlands, awaiting]
  by_cases hc : l.contexts.size = c
  · rw [if_pos hc, if_pos (congrArg some hc), if_pos hc.symm, toInt_carried howner (hr hc.symm)]
    exact (Int.add_zero _).trans (Int.add_zero _)
  · rw [if_neg hc, if_neg fun he => hc (Option.some.inj he), if_neg fun he => hc he.symm]
    rfl

theorem Firm.gains_unparked (h : Firm t l) (hs : s < l.services.size) (d : Delta) {c : ContextId}
    (hn : l.inHook t = false) (hp : l.decision t s ≠ .parked) :
    Gains t c (if (l.prospect t s).context = some c then d.toInt else 0) l (l.charge t s d).1 := by
  have hsnd := charge_snd (t := t) (s := s) h.ready.sound d
  obtain ⟨-, hhomes⟩ := charge_steers h.ready hs d
  obtain ⟨after, ⟨hjournal, -⟩, hafter⟩ := charge_written_of_not_parked (s := s) (d := d) hn (hsnd ▸ hp)
  have hsame : (l.charge t s d).1.awaiting t c = l.awaiting t c := by
    cases hhomes with
    | same _ _ hcarry hsize => rw [awaiting, awaiting, hcarry, hsize]
    | given hparked => exact absurd hparked hp
  have hverdict : total (gathered c [.charged (l.verdict t s d (l.comesTo t s) (l.charge t s d).2)]) =
      if (l.prospect t s).context = some c then d.toInt else 0 := by
    rw [gathered_eq, hsnd]
    unfold prospect
    cases hd : l.decision t s with
    | parked => exact absurd hd hp
    | skipped => rfl
    | task | thread =>
      cases hc : l.comesTo t s with
      | none => rfl
      | some c' => by_cases he : c' = c <;> simp [Entry.intake?, verdict, he, total]
  refine ⟨after ++ .charged (l.verdict t s d (l.comesTo t s) (l.charge t s d).2) :: l.inquiry t s,
    by rw [hjournal]; simp, ?_⟩
  rw [gathered_written, gathered_of_silent fun e he => (hafter e he).intake?, hverdict, hsame]
  exact congrArg (· + _) (Int.zero_add _)

/-- A context takes in an amount that ends up there, and a new one also what was held for it. -/
theorem Firm.gains_charge (h : Firm t l) (hs : s < l.services.size) (d : Delta) {c : ContextId}
    (hr : l.decision t s = .parked → c = l.contexts.size →
      ∀ carry ∈ (l.thread t).carry, Delta.InRange (carry.delta.toInt + d.toInt)) :
    Gains t c (if (l.prospect t s).context = some c then d.toInt else 0) l (l.charge t s d).1 := by
  cases hn : l.inHook t with
  | true =>
    have hnone : (l.prospect t s).context = none := by simp [prospect, decision, hn]
    refine ⟨[], by rw [charge_of_inHook hn]; rfl, ?_⟩
    rw [hnone, if_neg (Option.some_ne_none c).symm, charge_of_inHook hn]
    rfl
  | false =>
    by_cases hp : l.decision t s = .parked
    · exact h.gains_parked hs d hp (hr hp)
    · exact h.gains_unparked hs d hn hp

theorem Affords.tellHook {c : ContextId} {d : Delta} (ha : l.Affords t c d) (h : Firm t l) (hs : l.Charges hook.1) :
    (tellHook t m kind a layout l hook).Affords t c d := by
  obtain ⟨hook, i⟩ := hook
  cases hook with
  | recorder name =>
    intro hc carry hcarry
    have hnotes : Notes l (Ledger.tellHook t m kind a layout l (.recorder name, i)) := recorder_notes name i
    exact ha (hnotes.contexts_size ▸ hc) carry (hnotes.carry (t := t) ▸ hcarry)
  | adapter s =>
    intro hc carry hcarry
    have hnotes : Notes l (l.informed t m kind a layout i) := informed_notes i
    obtain ⟨-, hhomes⟩ := charge_steers (h.informed i).ready
      (Nat.lt_of_lt_of_eq (hs s rfl) hnotes.services_size.symm) (kind.delta ((l.allocator m).usable a layout))
    have hsize := Nat.le_trans hhomes.contexts_size hc
    cases hhomes with
    | same _ _ hsame => exact ha (hnotes.contexts_size ▸ hsize) carry (((hsame.trans hnotes.carry) ▸ hcarry :))
    | given _ _ hnone => exact absurd (hnone.symm.trans hcarry) (Option.some_ne_none _).symm

theorem Firm.gains_tellHook (h : Firm t l) (hs : l.Charges hook.1) {d : Delta} {c : ContextId}
    (hd : kind.delta ((l.allocator m).usable a layout) = d)
    (ha : l.Affords t c d ∨ ∀ p, some p ∈ landings t m kind a layout l [hook] → p.charge ≠ .parked) :
    Gains t c (if (hook.1.service?.map (l.prospect t)).bind (·.context) = some c then d.toInt else 0) l
      (Ledger.tellHook t m kind a layout l hook) := by
  obtain ⟨hook, i⟩ := hook
  cases hook with
  | recorder name => exact (recorder_notes name i).gains c
  | adapter s =>
    have hnotes : Notes l (l.informed t m kind a layout i) := informed_notes i
    have hlt := Nat.lt_of_lt_of_eq (hs s rfl) hnotes.services_size.symm
    obtain ⟨hlanding, -⟩ := h.landing_tellHook m kind a layout i (hs s rfl)
    have hprospect := hnotes.prospect (t := t) s
    have hcharge := (h.informed i).gains_charge hlt d (c := c) fun hparked hc carry hcarry => by
      rcases ha with ha | hp
      · exact ha (Nat.le_of_eq (hc.trans hnotes.contexts_size).symm) carry (hnotes.carry (t := t) ▸ hcarry)
      · have hlands := congrArg Landing.charge (hlanding.trans hprospect.symm)
        exact absurd (hlands.trans hparked) (hp _ (List.mem_cons_self ..))
    have hgains := (hnotes.gains c).trans hcharge
    rw [Int.zero_add, hprospect] at hgains
    subst hd
    exact hgains

theorem Firm.countP_landings (h : Firm t l) (hs : l.Charges hook.1) (c : ContextId) (n : Int) :
    ((landings t m kind a layout l (hook :: hooks)).countP (·.bind (·.context) = some c) : Int) * n =
      (if (hook.1.service?.map (l.prospect t)).bind (·.context) = some c then n else 0) +
        (landings t m kind a layout (Ledger.tellHook t m kind a layout l hook) hooks).countP
          (·.bind (·.context) = some c) * n := by
  rw [landings, h.landing?_tellHook hs, List.countP_cons]
  split <;> simp_all [Int.add_mul, Int.add_comm]

/-- One after the other, hooks make a context gain an amount for each of their charges that ends up there. -/
theorem Firm.gains_tellHooks (h : Firm t l) (hs : ∀ hook ∈ hooks, l.Charges hook.1) {d : Delta} {c : ContextId}
    (hd : kind.delta ((l.allocator m).usable a layout) = d)
    (ha : l.Affords t c d ∨ ∀ p, some p ∈ landings t m kind a layout l hooks → p.charge ≠ .parked) :
    Gains t c ((landings t m kind a layout l hooks).countP (·.bind (·.context) = some c) * d.toInt) l
      (hooks.foldl (Ledger.tellHook t m kind a layout) l) := by
  induction hooks generalizing l with
  | nil => exact ⟨[], rfl, by simp [gathered, total, landings]⟩
  | cons hook hooks ih =>
    have hfirst := hs hook (List.mem_cons_self ..)
    have htold : kind.delta (((Ledger.tellHook t m kind a layout l hook).allocator m).usable a layout) = d := by
      rw [(tellHook_tells l t m kind a layout hook).usable]
      exact hd
    have hstep := h.gains_tellHook hfirst hd (ha.imp_right fun hp p hm =>
      hp p (List.mem_singleton.mp hm ▸ List.mem_cons_self ..))
    have hrest := ih (h.tellHook hfirst)
      (fun other ho => Charges.tellHook h hook hfirst (hs other (List.mem_cons_of_mem _ ho))) htold
      (ha.imp (·.tellHook h hfirst) fun hp p hm => hp p (List.mem_cons_of_mem _ hm))
    rw [h.countP_landings hfirst]
    exact hstep.trans hrest

/-! ## Both rounds -/

theorem charges_hooks (h : Firm t l) (m : AllocatorId) : ∀ hook ∈ (l.allocator m).hooks.zipIdx, l.Charges hook.1 := by
  rintro ⟨hook, i⟩ hm s hs
  refine h.ready.sound.lt_of_adapter (m := m) ?_
  cases hook with
  | adapter s' => exact Option.some.inj hs ▸ List.fst_mem_of_mem_zipIdx hm
  | recorder => cases hs

theorem context_of_prospect (h : Sound l) (hp : l.decision t s ≠ .parked) :
    (∃ reason, l.prospect t s = ⟨.skipped reason, none⟩) ∨ ∃ c < l.contexts.size, (l.prospect t s).context = some c := by
  unfold prospect
  have hdecides := l.decides t s
  generalize l.decision t s = charge at hdecides hp
  cases hdecides with
  | @task k c _ hk hc hi => exact .inr ⟨c, lt_of_initialized hi, by rw [comesTo, hk]; exact hc⟩
  | @thread c _ hk hh => exact .inr ⟨c, ((h.thread t).home s c hh).1.1, comesTo_of_home hk hh⟩
  | parked => exact absurd rfl hp
  | _ => exact .inl ⟨_, rfl⟩

section
variable (m : AllocatorId) (a : Address) (layout : Layout)

theorem hooks_vacated : ((l.vacated t m a layout).allocator m).hooks = (l.allocator m).hooks :=
  ((tells_countCall m).hooks m).trans ((runHooks_tells l t m .free a layout).hooks m)

theorem usable_vacated : ((l.vacated t m a layout).allocator m).usable = (l.allocator m).usable :=
  ((tells_countCall m).usable m).trans ((runHooks_tells l t m .free a layout).usable m)

theorem prospect_vacated : (l.vacated t m a layout).prospect t s = (l.runHooks t m .free a layout).prospect t s :=
  countCall_notes.prospect s

theorem runHooks_vacated : (l.vacated t m a layout).runHooks t m .alloc a layout =
    (l.allocator m).hooks.zipIdx.foldl (Ledger.tellHook t m .alloc a layout) (l.vacated t m a layout) := by
  rw [runHooks, hooks_vacated]

variable (h : Firm t l)

include h

theorem Firm.vacated : Firm t (l.vacated t m a layout) := (h.tellHooks (charges_hooks h m)).countCall m

/-- Whoever has been charged once is not parked any more. -/
theorem Firm.unparked_vacated : ∀ hook ∈ (l.allocator m).hooks.zipIdx, ∀ s ∈ hook.1.service?,
    (l.vacated t m a layout).decision t s ≠ .parked := by
  intro hook hm s hs hd
  have hlanding : some ((l.vacated t m a layout).prospect t s) ∈
      (landings t m .free a layout l (l.allocator m).hooks.zipIdx).map (Option.map Landing.settled) := by
    rw [h.landings_settled (charges_hooks h m), prospect_vacated]
    exact List.mem_map.mpr ⟨hook, hm, by rw [Option.mem_def.mp hs]; rfl⟩
  obtain ⟨p, -, hp⟩ := List.mem_map.mp hlanding
  obtain ⟨q, -, hq⟩ := Option.map_eq_some_iff.mp hp
  exact q.charge.settled_ne_parked ((congrArg Landing.charge hq).trans hd)

theorem Firm.landings_vacated : landings t m .alloc a layout (l.vacated t m a layout) (l.allocator m).hooks.zipIdx =
    (l.allocator m).hooks.zipIdx.map fun hook => hook.1.service?.map ((l.vacated t m a layout).prospect t) :=
  (h.vacated m a layout).landings_unparked (hooks_vacated m a layout ▸ charges_hooks (h.vacated m a layout) m)
    (h.unparked_vacated m a layout)

theorem Firm.mem_landings_vacated {p : Landing}
    (hp : some p ∈ landings t m .alloc a layout (l.vacated t m a layout) (l.allocator m).hooks.zipIdx) :
    ∃ s, p = (l.vacated t m a layout).prospect t s ∧ (l.vacated t m a layout).decision t s ≠ .parked := by
  rw [h.landings_vacated] at hp
  obtain ⟨hook, hm, hp⟩ := List.mem_map.mp hp
  obtain ⟨s, hs, rfl⟩ := Option.map_eq_some_iff.mp hp
  exact ⟨s, rfl, h.unparked_vacated m a layout hook hm s hs⟩

/-- A block is charged back where it was taken from. -/
theorem Firm.landings_refused : landings t m .alloc a layout (l.vacated t m a layout) (l.allocator m).hooks.zipIdx =
    (landings t m .free a layout l (l.allocator m).hooks.zipIdx).map (Option.map Landing.settled) := by
  rw [h.landings_vacated, h.landings_settled (charges_hooks h m)]
  exact List.map_congr_left fun hook _ => Option.map_congr fun s _ => prospect_vacated m a layout

/-- No context gains anything by a block that is charged back. -/
theorem Firm.gains_refused {c : ContextId}
    (ha : l.Affords t c (BlockEvent.free.delta ((l.allocator m).usable a layout))) :
    Gains t c 0 l ((l.vacated t m a layout).runHooks t m .alloc a layout) := by
  have hfreed := h.vacated m a layout
  have hlost := h.gains_tellHooks (charges_hooks h m) rfl (.inl ha)
  have hcounted : Gains t c 0 (l.runHooks t m .free a layout) (l.vacated t m a layout) := countCall_notes.gains c
  have hamount : BlockEvent.alloc.delta (((l.vacated t m a layout).allocator m).usable a layout) =
      BlockEvent.alloc.delta ((l.allocator m).usable a layout) := by rw [usable_vacated]
  have hback := hfreed.gains_tellHooks (c := c) (hooks_vacated m a layout ▸ charges_hooks hfreed m) hamount <|
    .inr fun p hp => by
      obtain ⟨s, rfl, hd⟩ := h.mem_landings_vacated m a layout hp
      exact hd
  -- as many charges come back to the context as it has lost
  have hcount : (landings t m .alloc a layout (l.vacated t m a layout) (l.allocator m).hooks.zipIdx).countP
      (·.bind (·.context) = some c) =
      (landings t m .free a layout l (l.allocator m).hooks.zipIdx).countP (·.bind (·.context) = some c) := by
    rw [h.landings_refused, List.countP_map]
    exact List.countP_congr fun p _ => by cases p <;> exact Iff.rfl
  rw [hcount, ← runHooks_vacated] at hback
  have hall := (hlost.trans hcounted).trans hback
  rwa [Delta.toInt_free, Int.mul_neg, Int.add_zero, Int.add_left_neg] at hall

end

end

end Ledger

/-- When the memory refuses another size of a block, the block is charged back where it was taken from. As long as the
sources keep what they have handed out, each hook's two charges end up in one context, the first of them maybe parked for
it, or both are skipped for the same reason: whatever hooks are installed, whether or not a task is active, the thread has
a context, or is inside the hook, and whatever the first round of charges makes anybody commit. So unless an addition is
cut off, every context holds what it has held, one that the call has given to the thread holds what was held for it,
and the block is in use as it was. -/
theorem refused_reallocation_neutral {h : Holdings} {l : Ledger} (hr : Run h l) {t : ThreadId} {a : Address} {block : Block}
    (ht : t < l.threads.size) (hb : l.heap.find? a = some block) (hk : l.Keeps t) (size : UInt64) {since : List Entry}
    (hj : (l.reallocate t a size none).journal = since ++ l.journal) (he : Exact l (l.reallocate t a size none) since) :
    let m := block.allocator
    let hooks := (l.allocator m).hooks.zipIdx
    let l' := l.reallocate t a size none
    landings t m .alloc a block.layout (l.vacated t m a block.layout) hooks =
        (landings t m .free a block.layout l hooks).map (Option.map Landing.settled) ∧
      (∀ p, some p ∈ landings t m .alloc a block.layout (l.vacated t m a block.layout) hooks →
        (∃ reason, p = ⟨.skipped reason, none⟩) ∨ ∃ c < l'.contexts.size, p.context = some c) ∧
      (∀ c < l.contexts.size, l'.holding c = l.holding c) ∧
      (∀ c, l.contexts.size ≤ c → c < l'.contexts.size →
        l.Affords t c (BlockEvent.free.delta ((l.allocator m).usable a block.layout)) → l'.holding c = l.awaiting t c) ∧
      l'.heap = l.heap ∧ ∀ j, l'.reserved j = l.reserved j := by
  intro m hooks l'
  have hfirm := hr.firm ht hk
  have hmoves := (reallocate_tendings (q := []) hfirm.ready a size none)
  have hl' : l' = (l.vacated t m a block.layout).runHooks t m .alloc a block.layout := by
    show l.reallocate t a size none = _
    rw [reallocate, hb]
    rfl
  have hready := hfirm.vacated m a block.layout
  have hback := runHooks_tendings (q := []) hready.ready m .alloc a block.layout
  have hfed : Fed l' := (Moves.flows hfirm.ready hmoves.moves).fed hr.fed
  have hlasting : Lasting l l' := Moves.lasting hfirm.ready.sound hmoves.moves
  have hgained : ∀ c, l.Affords t c (BlockEvent.free.delta ((l.allocator m).usable a block.layout)) →
      c < l'.contexts.size → l'.holding c = l.holding c + l.awaiting t c := by
    intro c ha hc
    obtain ⟨new, hnew, hgathered⟩ := hfirm.gains_refused m a block.layout ha
    rw [← hl'] at hnew hgathered
    obtain rfl : since = new := List.append_cancel_right (hj.symm.trans hnew)
    have hnothing : l'.awaiting t c = 0 := if_neg (Nat.ne_of_lt hc)
    rw [holding_since hr.fed hfed hlasting hj he hc]
    omega
  refine ⟨hfirm.landings_refused m a block.layout, fun p hp => ?_, fun c hc => ?_, fun c hc hc' ha => ?_, ?_, fun j => ?_⟩
  · obtain ⟨s, rfl, hd⟩ := hfirm.mem_landings_vacated m a block.layout hp
    refine (context_of_prospect hready.ready.sound hd).imp_right ?_
    rintro ⟨c, hc, hcontext⟩
    exact ⟨c, Nat.lt_of_lt_of_le hc (hl' ▸ hback.still.contexts_size), hcontext⟩
  · have hnothing : l.awaiting t c = 0 := if_neg (Nat.ne_of_lt hc)
    rw [hgained c (fun hge => absurd hc (Nat.not_lt.mpr hge)) (Nat.lt_of_lt_of_le hc hlasting.contexts_size), hnothing,
      Int.add_zero]
  · rw [hgained c ha hc', holding_of_fresh hr.fed hc, Int.zero_add]
  · rw [hl', heap_runHooks, vacated, heap_countCall, heap_runHooks]
  · have hvacated : Intact j l (l.vacated t m a block.layout) := freed_intact m a block.layout
    have hintact : Intact j (l.vacated t m a block.layout) l' :=
      hl' ▸ (runHooks_tells (l.vacated t m a block.layout) t m .alloc a block.layout).intact
    exact (hvacated.trans hintact).reserved

theorem keeps_stocked : stocked.Keeps 1 := by
  intro s k c hk
  have hsource : (stocked.service s).source = .scopes := by
    cases s with
    | zero => rfl
    | succ s =>
      have hbeyond : stocked.services.size ≤ s + 1 := Nat.le_add_left 1 s
      rw [service, Table.get_of_size_le hbeyond]
      rfl
  have hidle : stocked.activeTask 1 s = none := by
    rw [activeTask, hsource]
    rfl
  exact absurd (hidle.symm.trans hk) (Option.some_ne_none k).symm

theorem refused_reallocation_neutral_stocked :
    landings 1 0 .free 16 ⟨8, 8⟩ stocked (stocked.allocator 0).hooks.zipIdx =
        [some ⟨.parked, some 1⟩, some ⟨.thread, some 1⟩] ∧
      landings 1 0 .alloc 16 ⟨8, 8⟩ (stocked.vacated 1 0 16 ⟨8, 8⟩) (stocked.allocator 0).hooks.zipIdx =
        [some ⟨.thread, some 1⟩, some ⟨.thread, some 1⟩] ∧
      (stocked.reallocate 1 16 24 none).holding 0 = stocked.holding 0 ∧
      (stocked.reallocate 1 16 24 none).holding 1 = 0 := by
  have hadmits : stocked.Admits { accounts := [⟨⟨1⟩, 0⟩] } (.reallocate 16 24 none) := by constructor <;> decide +kernel
  have hj := journal_eq_take (run_stocked.journal_suffix (t := 1) (by decide +kernel) hadmits)
  have hb : stocked.heap.find? 16 = some ⟨0, ⟨8, 8⟩⟩ := by decide +kernel
  have he : Exact stocked (stocked.reallocate 1 16 24 none) ((stocked.reallocate 1 16 24 none).journal.take
      ((stocked.reallocate 1 16 24 none).journal.length - stocked.journal.length)) := by
    unfold Exact
    decide +kernel
  obtain ⟨hback, -, hold, hnew, -⟩ := refused_reallocation_neutral run_stocked (by decide +kernel) hb keeps_stocked 24 hj he
  have hfree : landings 1 0 .free 16 ⟨8, 8⟩ stocked (stocked.allocator 0).hooks.zipIdx =
      [some ⟨.parked, some 1⟩, some ⟨.thread, some 1⟩] := by decide +kernel
  refine ⟨hfree, ?_, hold 0 (by decide +kernel), hnew 1 (by decide +kernel) (by decide +kernel) fun _ carry hcarry => ?_⟩
  · rw [hback, hfree]
    rfl
  · have hnone : (stocked.thread 1).carry = none := rfl
    exact absurd (hnone.symm.trans hcarry) nofun

end HeapLedger
