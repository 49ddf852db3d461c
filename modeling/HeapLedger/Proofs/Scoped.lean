import HeapLedger.Proofs.HookFlag
import HeapLedger.Proofs.Story
import HeapLedger.Proofs.Written

/-!
# Charges inside a scope

As long as a scope is the innermost one on a thread, whatever the thread charges through services that go by scopes is
taken in by the account of the scope, and by no other context. In the hook nothing is taken in. An account is closed
after its scope, by its last flush.
-/

namespace HeapLedger

open Ledger

def Entry.told? : Entry → Option Event
  | event (.polled future charge) => some (.polled future charge)
  | event (.dropped future charge) => some (.dropped future charge)
  | _ => none

namespace Ledger

/-! ## What charges write down -/

structure Minds (l : Ledger) (t : ThreadId) (e : Entry) : Prop where
  unflushed : ∀ c, e ≠ .flushed c
  charged : ∀ v, e = .charged v → v.thread = t ∧ v.scope = (l.thread t).innermost
  intake : ∀ c d, e.intake? = some (c, d) → (l.context c).closed = false

section
variable {l l' : Ledger} {t : ThreadId} {e : Entry}

theorem Minds.of_still (hm : l'.Minds t e) (h : Still l l') : l.Minds t e where
  unflushed := hm.unflushed
  charged v hv := by
    rw [Thread.innermost, ← h.scopes]
    exact hm.charged v hv
  intake c d he := (h.closed c).symm.trans (hm.intake c d he)

theorem minds_of_silent (hf : ∀ c, e ≠ .flushed c) (hv : ∀ v, e ≠ .charged v) (hi : e.intake? = none) : l.Minds t e where
  unflushed := hf
  charged v he := absurd he (hv v)
  intake _ _ he := absurd (hi.symm.trans he) nofun

theorem minds_of_unmet {s : ServiceId} {d : Delta} {c : Option ContextId} {charge : Charge}
    (hi : (Entry.charged (l.verdict t s d c charge)).intake? = none) : l.Minds t (.charged (l.verdict t s d c charge)) where
  unflushed _ := nofun
  charged v he := by
    obtain rfl := Entry.charged.inj he
    exact ⟨rfl, rfl⟩
  intake _ _ he := absurd (hi.symm.trans he) nofun

theorem minds_of_intake (h : Sound l) {c : ContextId} {d : Delta} (hi : l.Intake t e c d) : l.Minds t e := by
  have hopen := open_of_intake h hi
  have htaken : e.intake? = some (c, d) := by cases hi <;> rfl
  refine ⟨fun c => ?_, fun v he => ?_, fun c' d' he => ?_⟩
  · cases hi <;> exact nofun
  · cases hi with
    | task | thread =>
      obtain rfl := Entry.charged.inj he
      exact ⟨rfl, rfl⟩
    | carried | direct => cases he
  · obtain ⟨rfl, rfl⟩ := Prod.mk.inj (Option.some.inj (htaken.symm.trans he))
    exact hopen

end

end Ledger

section
variable {t : ThreadId} {m m' : Moment}

theorem Charging.minds (hs : Sound m.1) (h : Charging t m m') : Grows (m.1.Minds t) m.1 m'.1 := by
  cases h with
  | receive | spend | skip | hook | settle => exact grows_of_eq rfl
  | hear | event => exact grows_post (minds_of_silent (fun _ => nofun) (fun _ => nofun) rfl)
  | @resolve l q s k =>
    refine ⟨[.resolved (l.resolution t s k)], journal_resolve k, fun e he => ?_⟩
    obtain rfl := List.mem_singleton.mp he
    exact minds_of_silent (fun _ => nofun) (fun _ => nofun) rfl
  | decline => exact grows_post (minds_of_unmet rfl)
  | @park l q s d =>
    obtain ⟨hcharge, hjournal⟩ := journal_park (l := l) (t := t) (s := s) d
    refine ⟨[_], hjournal, fun e he => ?_⟩
    obtain rfl := List.mem_singleton.mp he
    refine minds_of_unmet ?_
    rcases hcharge with hc | hc <;> rw [hc] <;> rfl
  | @take l q e c d hi =>
    obtain ⟨new, hjournal, hnew⟩ := grows_takeIn (l := l) (e := e) c d
    refine ⟨new, hjournal, fun e' he => ?_⟩
    rcases hnew e' he with rfl | ⟨b, rfl⟩
    · exact minds_of_intake hs hi
    · exact minds_of_silent (fun _ => nofun) (fun _ => nofun) rfl

theorem Chargings.minds (hr : Ready t m.1) (h : Chargings t m m') : Grows (m.1.Minds t) m.1 m'.1 := by
  induction h with
  | refl => exact grows_of_eq rfl
  | tail hm hstep ih =>
    have hlater := hstep.minds (Chargings.ready hr hm).sound
    exact ih.trans (hlater.mono fun e he => he.of_still (Chargings.still hm))

end

namespace Ledger

/-! ## Inside the scope -/

def ByScopes (l : Ledger) (requests : List Request) : Prop :=
  ∀ r ∈ requests, r.service < l.services.size ∧ (l.service r.service).source = .scopes

/-- A thread in a scope of an account. -/
structure Inside (l : Ledger) (t : ThreadId) (a : Account) : Prop where
  ready : Ready t l
  attributed : Attributed l
  innermost : (l.thread t).innermost = some a

def reply (l : Ledger) (t : ThreadId) (a : Account) : Charge :=
  if l.inHook t then .skipped .reentrant else .task a.key

def outlay (l : Ledger) (t : ThreadId) (requests : List Request) : List Delta :=
  if l.inHook t then [] else (requests.map (·.delta)).reverse

/-- Every request is answered with the account, whose context takes the amounts in, and no other context takes in
anything. -/
structure Spends (l : Ledger) (t : ThreadId) (a : Account) (event : Charge → Event) (requests : List Request)
    (new : List Entry) : Prop where
  told : new.filterMap Entry.told? = List.replicate requests.length (event (l.reply t a))
  intake : new.filterMap Entry.intake? = (l.outlay t requests).map (a.context, ·)

/-- All of this happens in a scope of the account, and no context is flushed meanwhile. -/
structure Confined (l : Ledger) (t : ThreadId) (a : Account) (event : Charge → Event) (requests : List Request)
    (new : List Entry) : Prop extends Spends l t a event requests new where
  scope : ∀ v, .charged v ∈ new → v.thread = t ∧ v.scope = some a
  unflushed : ∀ c, .flushed c ∉ new

/-- An account is closed by the last flush of its context, from outside of its scopes. The context takes in nothing of
what comes after that, and no context is flushed any more. -/
structure Closes (l : Ledger) (t : ThreadId) (a : Account) (later : List Entry) (l' : Ledger) : Prop where
  unscoped : l.inScope a = false
  journal : l'.journal = later ++ .committed a.context (l.context a.context).pending :: .flushed a.context ::
    .notice (.accountClosed a.key (l.context a.context).pending) :: l.journal
  scope : ∀ v, .charged v ∈ later → v.thread = t ∧ v.scope = (l.thread t).innermost
  unflushed : ∀ c, .flushed c ∉ later
  intake : ∀ e ∈ later, ∀ d, e.intake? ≠ some (a.context, d)
  closed : (l'.context a.context).closed = true

/-- On every thread the same task is active, and the same scopes are entered. -/
structure Restores (l l' : Ledger) : Prop where
  active : ∀ t, (l'.thread t).active = (l.thread t).active
  scopes : ∀ t, (l'.thread t).scopes = (l.thread t).scopes

end Ledger

section
variable {t : ThreadId} {m m' : Moment}

theorem Charging.source (h : Charging t m m') (j : ServiceId) : (m'.1.service j).source = (m.1.service j).source := by
  cases h with
  | skip s => exact Table.get_modify_of_eq _ s j Service.source fun _ => rfl
  | resolve => exact source_seek j
  | @park l q s d =>
    show ((l.park t s d).1.service j).source = _
    unfold Ledger.park
    split
    · split <;> rfl
    · rfl
  | @take l q e c d =>
    show ((l.takeIn e c d).1.service j).source = _
    exact takeIn_keeps (I := fun l' => (l'.service j).source = (l.service j).source) rfl fun _ _ h => h
  | _ => rfl

theorem Chargings.source (h : Chargings t m m') (j : ServiceId) : (m'.1.service j).source = (m.1.service j).source := by
  induction h with
  | refl => rfl
  | tail _ hstep ih => exact (hstep.source j).trans ih

end

namespace Ledger

section
variable {l l' : Ledger} {t : ThreadId} {a : Account} {s : ServiceId} {d : Delta} {event : Charge → Event}
  {q q' : List (TrackerId × Delta)} {requests : List Request}

theorem Inside.chargings (h : l.Inside t a) (hm : Chargings t (l, q) (l', q')) : l'.Inside t a where
  ready := hm.ready h.ready
  attributed := Moves.attributed h.ready h.attributed hm.tendings.moves
  innermost := by
    rw [Thread.innermost, hm.still.scopes]
    exact h.innermost

theorem ByScopes.serves (h : l.ByScopes requests) : l.Serves requests := fun r hr => (h r hr).1

theorem ByScopes.chargings (h : l.ByScopes requests) (hm : Chargings t (l, q) (l', q')) : l'.ByScopes requests :=
  fun r hr => ⟨Nat.lt_of_lt_of_le (h r hr).1 hm.still.services_size, (hm.source r.service).trans (h r hr).2⟩

/-- A charge in a scope goes to the account of the scope. -/
theorem Inside.charge_snd (h : l.Inside t a) (hsource : (l.service s).source = .scopes) :
    (l.charge t s d).2 = l.reply t a := by
  rw [Ledger.charge_snd h.ready.sound, decision, reply]
  split
  · rfl
  · have hgoes := destination_of_scopes (t := t) hsource h.ready.sound
    rw [h.innermost] at hgoes
    exact hgoes

theorem filterMap_outgoing {α : Type} {f : Entry → Option α} (hf : ∀ e : Entry, e.Outgoing → f e = none)
    {entries : List Entry} (h : ∀ e ∈ entries, e.Outgoing) : entries.filterMap f = [] :=
  List.filterMap_eq_nil_iff.mpr fun e he => hf e (h e he)

theorem told?_of_outgoing (e : Entry) (h : e.Outgoing) : e.told? = none := by
  cases e with
  | event e => cases e <;> first | rfl | cases h
  | _ => rfl

theorem intake?_of_outgoing (e : Entry) (h : e.Outgoing) : e.intake? = none := by
  cases e <;> first | rfl | cases h

theorem inHook_charge (t : ThreadId) (s : ServiceId) (d : Delta) : (l.charge t s d).1.inHook t = l.inHook t :=
  congrArg Prod.fst ((charge_step t s d).keepsHooks_outer l t)

/-- The context of the scope's account takes the amount in, and no other context takes in anything. -/
theorem Inside.charge_journal (h : l.Inside t a) (hs : s < l.services.size) (hsource : (l.service s).source = .scopes) :
    ∃ new, (l.charge t s d).1.journal = new ++ l.journal ∧ new.filterMap Entry.told? = [] ∧
      new.filterMap Entry.intake? = (l.outlay t [⟨s, d⟩]).map (a.context, ·) := by
  cases hn : l.inHook t with
  | true =>
    rw [charge_of_inHook hn, outlay, if_pos hn]
    exact ⟨[], rfl, rfl, rfl⟩
  | false =>
    have hcharge : (l.charge t s d).2 = .task a.key := by rw [h.charge_snd hsource, reply, if_neg (by simp [hn])]
    have hp : (l.charge t s d).2 ≠ .parked := by rw [hcharge]; nofun
    obtain ⟨after, ⟨hjournal, -⟩, hafter⟩ := charge_written_of_not_parked hn hp
    rw [hcharge] at hjournal
    -- what is written down about the charge is attributed to the account of the scope
    have hattributed := (h.chargings (obliges_charge l [] s d h.ready hs)).attributed
    obtain ⟨-, hcontext⟩ := (hattributed (.charged (l.verdict t s d (l.comesTo t s) (.task a.key))) (by simp [hjournal])).charged
      _ rfl hsource
    have hcomes : l.comesTo t s = some a.context := hcontext a h.innermost
    rw [hcomes] at hjournal
    have hinquiry : (l.inquiry t s).filterMap Entry.told? = [] ∧ (l.inquiry t s).filterMap Entry.intake? = [] := by
      unfold inquiry
      cases l.activeTask t s <;> exact ⟨rfl, rfl⟩
    refine ⟨after ++ .charged (l.verdict t s d (some a.context) (.task a.key)) :: l.inquiry t s,
      by rw [hjournal]; simp, ?_, ?_⟩
    · rw [List.filterMap_append, filterMap_outgoing told?_of_outgoing hafter, List.filterMap_cons_none rfl, hinquiry.1]
      rfl
    · rw [List.filterMap_append, filterMap_outgoing intake?_of_outgoing hafter,
        List.filterMap_cons_some (show Entry.intake? _ = some (a.context, d) from rfl), hinquiry.2, outlay,
        if_neg (by simp [hn])]
      rfl

/-! ## All charges of a future's work -/

theorem chargeAll_cons (r : Request) (rs : List Request) :
    l.chargeAll t event (r :: rs) = (chargeOne t event l r).chargeAll t event rs := rfl

theorem outlay_cons (r : Request) (rs : List Request) :
    l.outlay t (r :: rs) = l.outlay t rs ++ l.outlay t [r] := by
  unfold outlay
  split
  · rfl
  · rw [List.map_cons, List.reverse_cons]
    rfl

theorem Inside.chargeAll_journal (he : ∀ c, (Entry.event (event c)).told? = some (event c)) :
    ∀ {requests : List Request} {l : Ledger}, l.Inside t a → l.ByScopes requests →
      ∃ new, (l.chargeAll t event requests).journal = new ++ l.journal ∧ l.Spends t a event requests new
  | [], l, _, _ => ⟨[], rfl, rfl, by unfold outlay; split <;> rfl⟩
  | r :: rs, l, h, hs => by
    obtain ⟨hr, hrs⟩ := List.forall_mem_cons.mp hs
    have hserves : l.Serves [r] := fun r' hr' => (hs r' (List.mem_singleton.mp hr' ▸ List.mem_cons_self ..)).1
    have hone : Chargings t (l, []) (chargeOne t event l r, []) := chargeAll_chargings hserves h.ready
    obtain ⟨new, hnew, htold, hintake⟩ := h.charge_journal (d := r.delta) hr.1 hr.2
    obtain ⟨newer, hnewer, hspends⟩ := chargeAll_journal he (h.chargings hone) (ByScopes.chargings hrs hone)
    have hflag : (chargeOne t event l r).inHook t = l.inHook t := inHook_charge t r.service r.delta
    have hreply : (chargeOne t event l r).reply t a = l.reply t a := by rw [reply, hflag, reply]
    have houtlay : (chargeOne t event l r).outlay t rs = l.outlay t rs := by rw [outlay, hflag, outlay]
    have hfirst : (chargeOne t event l r).journal = .event (event (l.reply t a)) :: (new ++ l.journal) := by
      rw [← hnew, ← h.charge_snd (d := r.delta) hr.2]
      rfl
    refine ⟨newer ++ .event (event (l.reply t a)) :: new, ?_, ?_, ?_⟩
    · rw [chargeAll_cons, hnewer, hfirst]
      simp
    · rw [List.filterMap_append, hspends.told, hreply, List.filterMap_cons_some (he _), htold, List.length_cons,
        List.replicate_succ']
    · rw [List.filterMap_append, hspends.intake, houtlay, List.filterMap_cons_none rfl, hintake, outlay_cons r rs,
        List.map_append]

theorem inside_enter (hr : Ready t l) (ha : Attributed l) (ho : l.Opened a) (hopen : (l.context a.context).closed = false) :
    (l.enter t a).Inside t a where
  ready := Move.ready (m := (l, [])) hr (.enter ho hopen)
  attributed := Move.attributed (m := (l, [])) hr.sound ha (Move.enter (q := []) ho hopen)
  innermost := by
    rw [enter, thread_modifyThread, if_pos ⟨rfl, hr.thread⟩]
    rfl

theorem within_confined (he : ∀ c, (Entry.event (event c)).told? = some (event c)) (hr : Ready t l) (ha : Attributed l)
    (ho : l.Opened a) (hopen : (l.context a.context).closed = false) (hs : l.ByScopes requests) :
    ∃ new, (l.within t a (·.chargeAll t event requests)).journal = new ++ l.journal ∧
      l.Confined t a event requests new := by
  have hinside := inside_enter hr ha ho hopen
  have hrequests : (l.enter t a).ByScopes requests := hs
  obtain ⟨new, hjournal, hspends⟩ := hinside.chargeAll_journal he hrequests
  have hflag : (l.enter t a).inHook t = l.inHook t := Table.get_modify_of_eq _ t t Thread.inHook fun _ => rfl
  have hchargings : Chargings t (l.enter t a, []) ((l.enter t a).chargeAll t event requests, []) :=
    chargeAll_chargings hrequests.serves hinside.ready
  obtain ⟨new', hjournal', hminds⟩ := Chargings.minds hinside.ready hchargings
  obtain rfl : new = new' := List.append_cancel_right (hjournal.symm.trans hjournal')
  refine ⟨new, hjournal, ⟨⟨?_, ?_⟩, fun v hv => ?_, fun c hm => (hminds _ hm).unflushed c rfl⟩⟩
  · rw [hspends.told, reply, hflag, reply]
  · rw [hspends.intake, outlay, hflag, outlay]
  · rw [← hinside.innermost]
    exact (hminds _ hv).charged v rfl

theorem restores_of_scopes (hs : Sound l) (hs' : Sound l') (h : ∀ j, (l'.thread j).scopes = (l.thread j).scopes) :
    Restores l l' where
  active j := by rw [(hs'.thread j).active, (hs.thread j).active, Thread.innermost, h, Thread.innermost]
  scopes := h

/-! ## The close of the account -/

theorem closeAccount_closes (hr : Ready t l) (ho : l.Opened a) (hopen : (l.context a.context).closed = false)
    (hs : l.inScope a = false) : Restores l (l.closeAccount t a) ∧ ∃ later, l.Closes t a later (l.closeAccount t a) := by
  let told : Ledger := l.notice (.accountClosed a.key (l.context a.context).pending)
  have hnotice : Leaving t (l, []) (told, []) := .minor (.notice _)
  have hready : Ready t told := Leavings.ready hr (.single hnotice)
  have hshut : Ready t (told.shut a.context) := Move.ready (m := (told, [])) hready
    (.close { closable_account hr.sound ho hopen hs with })
  have hafter := shut_chargings (q := []) hshut
  have hclosed : ((told.shut a.context).context a.context).closed = true :=
    closed_shut (l := told) (hr.sound.opened a ho).1.1
  obtain ⟨later, hlater, hminds⟩ := hafter.minds hshut
  refine ⟨restores_of_scopes hr.sound (hafter.ready hshut).sound hafter.still.scopes, later, ⟨hs, ?_, fun v hv => (hminds _ hv).charged v rfl,
    fun c hm => (hminds _ hm).unflushed c rfl, fun e hm d he => ?_, (hafter.still.closed _).trans hclosed⟩⟩
  · exact hlater.trans (congrArg (later ++ ·) (journal_shut (l := told) (c := a.context)))
  · exact absurd (((hminds e hm).intake _ d he).symm.trans hclosed) nofun

end

end Ledger

end HeapLedger
