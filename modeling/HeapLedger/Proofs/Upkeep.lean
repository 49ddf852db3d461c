import HeapLedger.Proofs.Sound

/-!
# Moves keep a ledger sound

One lemma for each change that a move makes, and from these one for the moves of a charge and one for
all others. Beside soundness, a thread without a context of its own holds what it has parked so far.
-/

namespace HeapLedger

open Ledger

namespace Ledger

/-! ## Finding a context -/

section
variable {l : Ledger} {t : ThreadId} {s : ServiceId} {k : TaskKey} {c : ContextId}

theorem active_eq (h : Sound l) (hc : l.scopedContext t k = some c) :
    ∃ sc ∈ (l.thread t).scopes, sc.account = ⟨k, c⟩ := by
  obtain ⟨a, ha, hk⟩ := Option.bind_eq_some_iff.mp hc
  rw [(h.thread t).active] at ha
  obtain ⟨sc, hsc, rfl⟩ := Option.map_eq_some_iff.mp ha
  split at hk
  · rename_i hkey
    refine ⟨sc, List.mem_of_mem_head? hsc, ?_⟩
    rw [← hkey, ← Option.some.inj hk]
  · cases hk

theorem known_of_taskContext (h : Sound l) (hc : l.taskContext t s k = some c) : l.Known s k c := by
  unfold taskContext at hc
  unfold Known
  cases hs : (l.service s).source with
  | scopes =>
    rw [hs] at hc
    obtain ⟨sc, hsc, ha⟩ := active_eq h hc
    exact ha ▸ ((h.thread t).scope sc hsc).1
  | roster r =>
    rw [hs] at hc
    exact h.mapped r k c hc

theorem known_of_remembered (h : Sound l) (hc : l.remembered t s k = some c) : l.Known s k c := by
  unfold remembered at hc
  cases hb : l.boundSlot t s with
  | some i =>
    rw [hb] at hc
    exact h.slot s i k c (Slot.recall?_eq_some_iff.mp hc)
  | none =>
    rw [hb] at hc
    obtain ⟨e, he, hk⟩ := Option.bind_eq_some_iff.mp hc
    split at hk
    · rename_i hkey
      obtain ⟨rfl, rfl⟩ := hkey
      exact Option.some.inj hk ▸ ((h.thread t).recent e he).2
    · cases hk

theorem known_of_finds (h : Sound l) (hc : l.Finds t s k c) : l.Known s k c :=
  hc.elim (known_of_remembered h) (known_of_taskContext h)

theorem lt_of_home (hh : (l.thread t).home = .settled s c) : t < l.threads.size :=
  Table.lt_size_of_get (·.home = .settled s c) (fun hn => by cases hn) hh

theorem open_of_finds (h : Sound l) (hk : l.activeTask t s = some k) (hc : l.Finds t s k c) :
    (l.context c).closed = false := by
  have hknown := known_of_finds h hc
  unfold Known at hknown
  unfold activeTask at hk
  cases hs : (l.service s).source with
  | scopes =>
    rw [hs] at hk hknown
    obtain ⟨a, ha, rfl⟩ := Option.map_eq_some_iff.mp hk
    rw [(h.thread t).active] at ha
    obtain ⟨sc, hsc, rfl⟩ := Option.map_eq_some_iff.mp ha
    obtain ⟨hopened, hopen⟩ := (h.thread t).scope sc (List.mem_of_mem_head? hsc)
    have heq : sc.account.context = c := congrArg Account.context (h.opened_inj _ _ hopened hknown (.inl rfl))
    exact heq ▸ hopen
  | roster r =>
    rw [hs] at hk hknown
    exact hknown.2 r t hk

theorem lt_of_initialized (hi : (l.context c).initialized = true) : c < l.contexts.size :=
  Table.lt_size_of_get (·.initialized = true) Bool.false_ne_true hi

theorem pending_consume_le {cache : Cache} {d : Delta} :
    (cache.consume d).1.pending.magnitude ≤ (cache.consume d).1.threshold.toNat := by
  unfold Cache.consume
  dsimp only
  split
  · exact Nat.zero_le _
  · rename_i hn
    simpa [Cache.exceeded] using hn

end

/-! ## Parts of charges -/

section
variable {l : Ledger} (h : Sound l) {t : ThreadId} {s : ServiceId}

include h

theorem Sound.memorize {k : TaskKey} {answer : Option ContextId} (hs : s < l.services.size)
    (ha : ∀ c, answer = some c → l.Known s k c) : Sound (l.memorize t s k answer) := by
  rw [memorize_eq]
  cases l.boundSlot t s with
  | some i =>
    refine h.modifyService s (fun _ => ⟨rfl, rfl⟩) ?_
    intro j k' c hc
    have hc : (((l.service s).slots.modify i _).get j).cached = some (k', c) := hc
    rw [Table.get_modify] at hc
    split at hc
    · obtain ⟨hkey, hcontext⟩ := Slot.cached_eq_some_iff.mp hc
      obtain ⟨-, -, rfl⟩ := Option.map_eq_some_iff.mp hkey
      exact ha c hcontext
    · exact h.slot s j k' c hc
  | none =>
    cases answer with
    | none => exact h
    | some c =>
      refine h.modifyThread_of_home t ?_ fun _ => rfl
      exact { h.thread t with
        recent := fun e he => by
          obtain rfl := Option.some.inj he
          exact ⟨hs, ha c rfl⟩ }

theorem Sound.lookup {k : TaskKey} : Sound (l.lookup t s k).1 :=
  h.modifyService s (fun _ => ⟨rfl, rfl⟩) fun i k c hc => h.slot s i k c hc

theorem Sound.seek {k : TaskKey} (hs : s < l.services.size) : Sound (l.seek t s k).1 := by
  unfold Ledger.seek
  split
  · exact h
  · refine (h.lookup (t := t) (s := s) (k := k)).memorize
      (lt_of_lt_of_eq hs (services_size_modifyService ..).symm) ?_
    intro c hc
    have hknown := known_of_taskContext h hc
    have hsource : ((l.lookup t s k).1.service s).source = (l.service s).source :=
      Table.get_modify_of_eq _ s s Service.source fun _ => rfl
    unfold Known at hknown ⊢
    rw [hsource]
    exact hknown

theorem Sound.park {d : Delta} : Sound (l.park t s d).1 := by
  have hcarry : ∀ c, Sound (l.modifyThread t fun th => { th with carry := some c }) := fun c =>
    h.modifyThread_of_home t { h.thread t with } fun _ => rfl
  unfold Ledger.park conclude
  cases (l.thread t).carry with
  | none => exact (hcarry _).post fun _ => nofun
  | some c =>
    dsimp only
    split
    · exact (hcarry _).post fun _ => nofun
    · exact h.post fun _ => nofun

theorem lt_of_intake {e : Entry} {c : ContextId} {d : Delta} (hi : l.Intake t e c d) : c < l.contexts.size := by
  cases hi with
  | task _ _ hi => exact lt_of_initialized hi
  | thread _ _ hi => exact lt_of_initialized hi
  | carried hh => exact ((h.thread t).home _ c hh).1.1
  | direct hc => exact hc

theorem open_of_intake {e : Entry} {c : ContextId} {d : Delta} (hi : l.Intake t e c d) :
    (l.context c).closed = false := by
  cases hi with
  | task hk hc => exact open_of_finds h hk hc
  | thread hk hh => exact ((h.thread t).home _ c hh).2.1
  | carried hh => exact ((h.thread t).home _ c hh).2.1
  | direct _ ho => exact ho

theorem Sound.takeIn {e : Entry} {c : ContextId} {d : Delta} (hi : l.Intake t e c d) :
    Sound (l.takeIn e c d).1 := by
  have hne : ∀ a, e ≠ .opened a := by cases hi <;> exact fun _ => nofun
  have hclosed := open_of_intake h hi
  have htake := (h.post hne).modifyCache c ((l.context c).cache.consume d).1
    pending_consume_le fun hc => absurd (hc.symm.trans hclosed) nofun
  exact takeIn_keeps htake fun _ _ h => h.post fun _ => nofun

theorem Sound.newHome (hs : s < l.services.size) : Sound (l.newHome t s) := by
  have hadd := h.addContext
    { identity := .thread ⟨l.nextThread⟩, tracker := (l.service s).threadTracker
      cache := { threshold := (l.service s).threshold }, initialized := true }
    (h.thread_tracker s hs) rfl rfl rfl
  have hn := hadd.setNumbers l.heap (l.nextThread + 1) l.deadKeys l.orphans (Nat.le_refl l.nextTask)
  refine hn.modifyThread t ?_ ?_
  · have hnew : ∀ ctx : Context, (l.contexts.add ctx).get l.contexts.size = ctx := fun ctx => by
      simp [Table.get_add]
    refine { hn.thread t with home := ?_ }
    intro s' c hc
    obtain ⟨rfl, rfl⟩ := Home.settled.inj hc
    refine ⟨⟨?_, ?_, ?_⟩, ?_, ?_⟩
    · exact lt_of_lt_of_eq (Nat.lt_succ_self _) (Table.size_add ..).symm
    · exact congrArg Context.initialized (hnew _)
    · exact congrArg Context.published (hnew _)
    · exact congrArg Context.closed (hnew _)
    · intro a ha
      exact Nat.ne_of_lt (h.opened a ha).1.1
  · intro s' c hc t' s'' hc'
    obtain ⟨-, rfl⟩ := Home.settled.inj hc
    exact absurd ((h.thread t').home s'' _ hc').1.1 (Nat.lt_irrefl _)

end

theorem charges_spend {e e' : Echo} (h : e.spend? = some e') : e'.charges = e.charges := by
  unfold Echo.spend? at h
  split at h
  · cases h; rfl
  · cases h
  · cases h; rfl

end Ledger

theorem Charging.sound {t : ThreadId} {m m' : Moment} (hs : Sound m.1) (h : Charging t m m') :
    Sound m'.1 := by
  cases h with
  | receive h => exact hs.modifyTracker _ (fun _ => rfl) fun e he => by cases he
  | hear h => exact hs.post fun _ => nofun
  | spend h hsp =>
    refine hs.modifyTracker _ (fun _ => rfl) fun e he => ?_
    obtain rfl := TrackerKind.echo.inj he
    rw [charges_spend hsp]
    exact hs.echo_requests _ _ h
  | event e => exact hs.post fun _ => nofun
  | skip s => exact hs.modifyService s (fun _ => ⟨rfl, rfl⟩) fun i k c hc => hs.slot s i k c hc
  | hook b => exact hs.discreet t fun _ => ⟨rfl, rfl, rfl, rfl, rfl, rfl, rfl⟩
  | resolve hlt hk => exact (hs.seek hlt).post fun _ => nofun
  | decline h => exact hs.post fun _ => nofun
  | park ht hk hh => exact hs.park
  | take hi => exact hs.takeIn hi
  | settle hlt hh => exact hs.newHome hlt

/-! ## Parts of other moves -/

namespace Ledger

section
variable {l : Ledger} (h : Sound l) {t : ThreadId} {s : ServiceId} {c : ContextId}

include h

theorem Sound.drain : Sound (l.drain c) := by
  have hpost : Sound (l.post (.flushed c)) := h.post fun _ => nofun
  exact (hpost.modifyCache c (l.context c).cache.take.1 (Nat.zero_le _) fun _ => rfl).post
    fun _ => nofun

theorem Sound.shut (hcl : l.Closable c) : Sound (l.shut c) := by
  -- a closed context has nothing pending, so both changes of the context are made at once
  have hcache : ((l.modifyContext c fun ctx => { ctx with closed := true }).context c).cache =
      (l.context c).cache := Table.get_modify_of_eq _ c c Context.cache fun _ => rfl
  let close : Context → Context := fun ctx =>
    { ctx with closed := true, cache := { (l.context c).cache with pending := 0 } }
  have hboth : l.shut c =
      ((l.post (.flushed c)).modifyContext c close).post (.committed c (l.context c).pending) := by
    simp only [Ledger.shut, Ledger.drain, Cache.take, hcache]
    exact congrArg (fun l' => (l'.post (.flushed c)).post (.committed c (l.context c).pending))
      (modifyContext_modifyContext ..)
  rw [hboth]
  have hpost : Sound (l.post (.flushed c)) := h.post fun _ => nofun
  have hclose : Sound ((l.post (.flushed c)).modifyContext c close) := by
    refine hpost.modifyContext c (fun _ => ⟨rfl, rfl⟩) (fun _ hi => hi) (fun _ _ hk => hk) (Nat.zero_le _)
      (fun _ => rfl) (.inl rfl) (.inr { hcl with })
  exact hclose.post fun _ => nofun

theorem Sound.markInitialized : Sound (l.markInitialized c) :=
  h.modifyContext c (fun _ => ⟨rfl, rfl⟩) (fun _ _ => rfl) (fun _ _ hk => hk) (h.pending_le c)
    (h.pending_closed c) (.inl rfl) (.inl rfl)

theorem Sound.bindEcho {i : TrackerId} {charges : List Request} (answers : Option Nat)
    (hc : l.Serves charges) : Sound (l.bindEcho i charges answers) := by
  refine h.modifyTracker i ?_ ?_
  · intro tr
    split <;> rfl
  · intro e he
    split at he
    · rename_i hk
      exact absurd (hk.symm.trans he) nofun
    · obtain rfl := TrackerKind.echo.inj he
      exact hc

theorem Sound.openAccount {i : TrackerId} (hi : i < l.trackers.size) : Sound (l.openAccount s i).1 := by
  have hadd := h.addContext
    { identity := .task ⟨l.nextTask⟩, tracker := i, initialized := true
      cache := { threshold := (l.service s).threshold } } hi rfl rfl rfl
  have hn := hadd.setNumbers l.heap l.nextThread l.deadKeys l.orphans (Nat.le_succ l.nextTask)
  have hnotice := hn.post (e := .notice (.accountOpened ⟨l.nextTask⟩)) fun _ => nofun
  have hopened : ∀ b, .opened b ∈ .notice (.accountOpened ⟨l.nextTask⟩) :: l.journal → l.Opened b :=
    fun b hb => (List.mem_cons.mp hb).resolve_left nofun
  have hnew : ∀ ctx : Context, (l.contexts.add ctx).get l.contexts.size = ctx := fun ctx => by
    simp [Table.get_add]
  refine hnotice.open (a := ⟨⟨l.nextTask⟩, l.contexts.size⟩) ⟨?_, ?_, ?_⟩ (Nat.lt_succ_self _) ?_ ?_ ?_
  · exact lt_of_lt_of_eq (Nat.lt_succ_self _) (Table.size_add ..).symm
  · exact congrArg Context.initialized (hnew _)
  · exact congrArg Context.published (hnew _)
  · exact congrArg Context.identity (hnew _)
  · intro t s' hc
    exact absurd ((h.thread t).home s' _ hc).1.1 (Nat.lt_irrefl _)
  · intro b hb
    obtain ⟨hown, hlt, -⟩ := h.opened b (hopened b hb)
    constructor
    · intro he
      rw [he] at hlt
      exact absurd hlt (Nat.lt_irrefl _)
    · exact Nat.ne_of_lt hown.1

theorem Sound.enter {a : Account} (ha : l.Opened a) (ho : (l.context a.context).closed = false) :
    Sound (l.enter t a) := by
  refine h.modifyThread_of_home t ?_ fun _ => rfl
  exact { h.thread t with
    active := rfl
    linked := ⟨(h.thread t).active, (h.thread t).linked⟩
    scope := List.forall_mem_cons.mpr ⟨⟨ha, ho⟩, (h.thread t).scope⟩ }

theorem Sound.leave : Sound (l.leave t) := by
  have hold := h.thread t
  refine h.modifyThread_of_home t ?_ fun th => ?_
  · unfold Thread.leave
    cases hs : (l.thread t).scopes with
    | nil => exact hold
    | cons sc outer =>
      have hlinked := hold.linked
      have hscope := hold.scope
      rw [hs] at hlinked hscope
      exact { hold with
        active := hlinked.1
        linked := hlinked.2
        scope := (List.forall_mem_cons.mp hscope).2 }
  · unfold Thread.leave
    split <;> rfl

theorem Sound.endHome : Sound (l.endHome t) := by
  refine h.modifyThread t ?_ ?_
  · refine { h.thread t with home := ?_ }
    intro s c hc
    cases hc
  · intro s c hc
    cases hc

/-- A thread's own context can be closed once the thread has given it up. -/
theorem closable_home (hh : (l.thread t).home = .settled s c) : (l.endHome t).Closable c := by
  obtain ⟨hown, hopen, hacc⟩ := (h.thread t).home s c hh
  exact {
    lt := hown.1
    live := hopen
    home := fun t' s' hc => by
      rw [endHome, thread_modifyThread] at hc
      split at hc
      · cases hc
      · rename_i hne
        exact hne ⟨h.home_inj t t' s s' c hh hc, lt_of_home hh⟩
    scope := fun t' sc hsc => by
      have hsc : sc ∈ ((l.threads.modify t _).get t').scopes := hsc
      rw [Table.get_modify_of_eq _ t t' Thread.scopes fun _ => by rfl] at hsc
      exact hacc sc.account ((h.thread t').scope sc hsc).1
    key := fun r t' k _ hk => by
      have hk : k ∈ (l.context c).published := hk
      rw [hown.2.2] at hk
      cases hk }

/-- A thread gives up its own context, which makes its last commit. -/
theorem Sound.closeHome (hh : (l.thread t).home = .settled s c) : Sound ((l.endHome t).shut c) :=
  (h.endHome (t := t)).shut (closable_home h hh)

theorem Sound.atExit {r : Request} (hr : r.service < l.services.size) : Sound (l.atExit t r) := by
  refine h.modifyThread_of_home t ?_ fun _ => rfl
  refine { h.thread t with exit_requests := ?_ }
  intro r' hr'
  rcases List.mem_append.mp hr' with hr' | hr'
  · exact (h.thread t).exit_requests r' hr'
  · rw [List.mem_singleton.mp hr']
    exact hr

theorem Sound.emptySlot {i : Nat} {v : Slot} (hv : v.cached = none) : Sound (l.modifySlot s i fun _ => v) := by
  refine h.modifyService s (fun _ => ⟨rfl, rfl⟩) ?_
  intro j k c hc
  have hc : (((l.service s).slots.modify i fun _ => v).get j).cached = some (k, c) := hc
  rw [Table.get_modify] at hc
  split at hc
  · rw [hv] at hc
    cases hc
  · exact h.slot s j k c hc

theorem Sound.newService {source : TaskSource} {slots : Nat} {i : TrackerId} {threshold : UInt64}
    (hi : i < l.trackers.size) : Sound (l.addService source slots i threshold).1 := by
  unfold Ledger.addService
  dsimp only
  split
  · refine h.addService hi ?_
    intro j
    show ((List.replicate slots ({} : Slot)).getD j default).cached = none
    rw [List.getD_eq_getElem?_getD, List.getElem?_replicate]
    split <;> rfl
  · exact h.addService hi fun _ => rfl

/-! ## Rosters -/

theorem Sound.publish {r : RosterId} {k : TaskKey} (ho : (l.context c).closed = false)
    (hc : c < l.contexts.size) (ha : ∀ a, l.Opened a → a.context ≠ c)
    (hh : ∀ t s, (l.thread t).home ≠ .settled s c) : Sound (l.publish r k c) := by
  have hctx := h.modifyContext c (f := fun ctx => { ctx with published := k :: ctx.published })
    (fun _ => ⟨rfl, rfl⟩) (fun _ hi => hi) (fun _ _ hk => List.mem_cons_of_mem _ hk) (h.pending_le c)
    (h.pending_closed c) (.inr ⟨ha, hh⟩) (.inl rfl)
  have hactive : ∀ j, ((l.rosters.modify r fun ro => { ro with contexts := ro.contexts.put k c }).get j).active =
      (l.roster j).active := fun j => Table.get_modify_of_eq _ r j Roster.active fun _ => rfl
  refine hctx.setRosters (l.rosters.modify r fun ro => { ro with contexts := ro.contexts.put k c }) ?_ ?_
  · intro j k' c' hm
    have hold : _ → _ ∧ _ := fun hm => (hctx.mapped j k' c' hm).imp_right fun hw => hw.setRosters hactive
    have hm : ((l.rosters.modify r _).get j).contexts.find? k' = some c' := hm
    rw [Table.get_modify] at hm
    split at hm
    · rw [Directory.find?_put] at hm
      split at hm
      · rename_i hk
        obtain rfl := Option.some.inj hm
        have hread : (l.modifyContext c fun ctx => { ctx with published := k :: ctx.published }).context c =
            { l.context c with published := k :: (l.context c).published } := by
          rw [context_modifyContext, if_pos ⟨rfl, hc⟩]
        rw [hk]
        refine ⟨?_, fun _ _ _ => (congrArg Context.closed hread).trans ho⟩
        rw [hread]
        exact List.mem_cons_self ..
      · exact hold hm
    · exact hold hm
  · exact fun _ _ _ hw => hw.setRosters hactive

theorem Sound.succeed {old new : ContextId}
    (ha : ∀ a, l.Opened a → a.context ≠ new) (hh : ∀ t s, (l.thread t).home ≠ .settled s new) :
    Sound (l.modifyContext new fun ctx =>
      { ctx with published := (l.context old).published ++ ctx.published }) :=
  h.modifyContext new (fun _ => ⟨rfl, rfl⟩) (fun _ hi => hi)
    (fun _ _ hk => List.mem_append_right _ hk) (h.pending_le new) (h.pending_closed new) (.inr ⟨ha, hh⟩)
    (.inl rfl)

theorem Sound.fewerKeys (rs : Table Roster)
    (hm : ∀ r k c, (rs.get r).contexts.find? k = some c → (l.roster r).contexts.find? k = some c)
    (ha : ∀ r, (rs.get r).active = (l.roster r).active) : Sound { l with rosters := rs } :=
  h.setRosters rs (fun r k c hc => (h.mapped r k c (hm r k c hc)).imp_right fun hw => hw.setRosters ha)
    fun _ _ _ hw => hw.setRosters ha

theorem Sound.activate {r : RosterId} {key : Option TaskKey}
    (hk : ∀ k ∈ key, ∀ c, l.Names k c → (l.context c).closed = false) : Sound (l.activate t r key) := by
  have hawake : ∀ k c, l.Names k c → l.Awake k c → (l.activate t r key).Awake k c := by
    intro k c hn hw j t' hact
    have hact : ((l.rosters.modify r fun ro => { ro with active := ro.active.set t key }).get j).active.find? t' =
        some k := hact
    rw [Table.get_modify] at hact
    split at hact
    · rw [Directory.find?_set] at hact
      split at hact
      · exact hk k hact c hn
      · exact hw j t' hact
    · exact hw j t' hact
  refine h.setRosters _ ?_ hawake
  intro j k c hc
  have hsame := Table.get_modify_of_eq l.rosters r j
    (f := fun ro => { ro with active := ro.active.set t key }) Roster.contexts fun _ => rfl
  have hc : (l.roster j).contexts.find? k = some c := hsame ▸ hc
  exact (h.mapped j k c hc).imp_right fun hw => hawake k c (.roster hc) hw

end

theorem find?_withdraw (ro : Roster) (keys : List TaskKey) (k : TaskKey) :
    (ro.withdraw keys).contexts.find? k = if k ∈ keys then none else ro.contexts.find? k := by
  show (keys.foldl (·.erase ·) ro.contexts).find? k = _
  induction keys generalizing ro with
  | nil => rfl
  | cons k' keys ih =>
    rw [List.foldl_cons, ih { ro with contexts := ro.contexts.erase k' }, Directory.find?_erase]
    by_cases hk : k = k' <;> by_cases hm : k ∈ keys <;> simp [hk, hm]

theorem withdraw_default (keys : List TaskKey) : Roster.withdraw default keys = default := by
  show ({ contexts := keys.foldl (·.erase ·) {} } : Roster) = default
  have hempty : keys.foldl (·.erase ·) ({} : Directory TaskKey ContextId) = {} := by
    induction keys with
    | nil => rfl
    | cons k keys ih => exact ih
  rw [hempty]
  rfl

theorem Sound.withdraw {l : Ledger} (h : Sound l) (keys : List TaskKey) :
    Sound { l with rosters := l.rosters.map (·.withdraw keys) } := by
  have hread : ∀ r, (l.rosters.map (·.withdraw keys)).get r = (l.roster r).withdraw keys :=
    fun r => Table.get_map _ r (withdraw_default keys)
  refine h.fewerKeys _ (fun r k c hc => ?_) fun r => (congrArg Roster.active (hread r)).trans rfl
  rw [hread, find?_withdraw] at hc
  split at hc
  · cases hc
  · exact hc

end Ledger

theorem Tending.sound {t : ThreadId} {m m' : Moment} (hs : Sound m.1) (h : Tending t m m') :
    Sound m'.1 := by
  cases h with
  | charging h => exact h.sound hs
  | notice | bound | report | consume => exact hs.post fun _ => nofun
  | flush hc => exact hs.drain
  | markInitialized c => exact hs.markInitialized
  | newTracker kind parent hp hk hz => exact hs.newTracker hp hk
  | bindEcho i answers hc => exact hs.bindEcho answers hc
  | newContext s k hi => exact hs.addContext _ hi rfl rfl rfl
  | newThread => exact hs.newThread
  | discreet hf => exact hs.discreet t hf
  | atExit hr => exact hs.atExit hr
  | openAccount s hi => exact hs.openAccount hi
  | addService source slots threshold hi => exact hs.newService hi
  | count s => exact hs.modifyService s (fun _ => ⟨rfl, rfl⟩) fun i k c hc => hs.slot s i k c hc
  | slot s i hv => exact hs.emptySlot hv
  | @newRoster l =>
    have hread : ∀ r, (l.rosters.add {}).get r = l.roster r := by
      intro r
      rw [Table.get_add]
      split
      · rename_i hr
        exact (Table.get_of_size_le (Nat.le_of_eq hr.symm)).symm
      · rfl
    exact hs.fewerKeys _ (fun r k c hc => hread r ▸ hc) fun r => congrArg Roster.active (hread r)
  | publish r k hc ho ha hh => exact hs.publish ho hc ha hh
  | succeed old ha hh => exact hs.succeed ha hh
  | unpublish r k =>
    refine hs.fewerKeys _ (fun j k' c hc => ?_) fun j => Table.get_modify_of_eq _ r j Roster.active fun _ => rfl
    rw [Table.get_modify] at hc
    split at hc
    · rw [Directory.find?_erase] at hc
      split at hc
      · cases hc
      · exact hc
    · exact hc
  | withdraw keys => exact hs.withdraw keys
  | activate r hk => exact hs.activate hk
  | allocators hm => exact hs.setAllocators _ hm
  | @numbers l q n heap nextThread deadKeys hn ht => exact hs.setNumbers heap nextThread deadKeys l.orphans hn

theorem Move.sound {t : ThreadId} {m m' : Moment} (hs : Sound m.1) (h : Move t m m') : Sound m'.1 := by
  cases h with
  | tending h => exact h.sound hs
  | close hcl => exact hs.shut hcl
  | closeHome hh => exact hs.closeHome hh
  | enter ha ho => exact hs.enter ha ho
  | leave => exact hs.leave
  | @orphans l q orphans =>
    exact hs.setNumbers l.heap l.nextThread l.deadKeys orphans (Nat.le_refl l.nextTask)
  | futures hf => exact hs.setFutures _ hf

/-! ## What threads hold -/

namespace Ledger

/-- A thread without a context of its own holds what it has parked, and has never given it to one. -/
structure Carries (l : Ledger) : Prop where
  carry : ∀ t, (l.thread t).home = .absent → ∀ s, (l.thread t).carriedFor s = held t s l.journal
  parked : ∀ e ∈ l.journal, ∀ t s d, e.parked? = some (t, s, d) → t < l.threads.size
  uncarried : ∀ t, (l.thread t).home = .absent → ∀ e ∈ l.journal, e.carrier? ≠ some t

theorem carries_empty : Carries {} where
  carry _ _ _ := rfl
  parked _ h := by cases h
  uncarried _ _ _ h := by cases h

section
variable {l : Ledger} (h : Carries l) {t : ThreadId}

include h

theorem Carries.postHomed {e : Entry} (he : e.parked? = none)
    (hn : ∀ t, e.carrier? = some t → (l.thread t).home ≠ .absent) : Carries (l.post e) where
  carry t ht s := by
    rw [show (l.post e).journal = e :: l.journal from rfl, held_cons he]
    exact h.carry t ht s
  parked := List.forall_mem_cons.mpr ⟨fun t s d hp => absurd (he.symm.trans hp) nofun, h.parked⟩
  uncarried t ht := List.forall_mem_cons.mpr ⟨fun hc => hn t hc ht, h.uncarried t ht⟩

theorem Carries.post {e : Entry} (he : e.parked? = none) (hn : e.carrier? = none) : Carries (l.post e) := by
  refine h.postHomed he fun t ht => ?_
  rw [hn] at ht
  cases ht

theorem Carries.modifyThread {f : Thread → Thread}
    (hf : (f (l.thread t)).home = .absent →
      (l.thread t).home = .absent ∧ (f (l.thread t)).carry = (l.thread t).carry) :
    Carries (l.modifyThread t f) where
  carry j hj s := by
    rw [thread_modifyThread] at hj ⊢
    split at hj
    · rename_i hjt
      obtain ⟨rfl, hlt⟩ := hjt
      obtain ⟨habsent, hcarry⟩ := hf hj
      rw [if_pos ⟨rfl, hlt⟩, Thread.carriedFor, hcarry]
      exact h.carry t habsent s
    · rename_i hjt
      rw [if_neg hjt]
      exact h.carry j hj s
  parked e he t' s d hp := lt_of_lt_of_eq (h.parked e he t' s d hp) (threads_size_modifyThread l t f).symm
  uncarried j hj := by
    rw [thread_modifyThread] at hj
    split at hj
    · rename_i hjt
      obtain ⟨rfl, -⟩ := hjt
      exact h.uncarried t (hf hj).1
    · exact h.uncarried j hj

theorem Carries.newThread : Carries l.newThread.1 where
  carry j hj s := by
    rw [thread_newThread] at hj ⊢
    exact h.carry j hj s
  parked e he t' s d hp :=
    lt_of_lt_of_eq (Nat.lt_succ_of_lt (h.parked e he t' s d hp)) (Table.size_add ..).symm
  uncarried j hj := by
    rw [thread_newThread] at hj
    exact h.uncarried j hj

theorem Carries.park {s : ServiceId} {d : Delta} (ht : t < l.threads.size)
    (hh : (l.thread t).home = .absent) : Carries (l.park t s d).1 := by
  have hold := h.carry t hh
  -- the new amount joins what is held for the service, and nothing is held for any other
  have hnew : ∀ f : Thread → Thread,
      (∀ s', (f (l.thread t)).carriedFor s' =
        if s = s' then ((l.thread t).carriedFor s').addClamped d else (l.thread t).carriedFor s') →
      Carries ((l.modifyThread t f).conclude t s d none .parked).1 := by
    intro f hf
    refine ⟨fun j hj s' => ?_, ?_, fun j hj => ?_⟩
    · have hcons : ((l.modifyThread t f).conclude t s d none .parked).1.journal =
        .charged ((l.modifyThread t f).verdict t s d none .parked) :: l.journal := rfl
      rw [hcons, held]
      show ((l.modifyThread t f).thread j).carriedFor s' = if t = j ∧ s = s' then _ else _
      have hj : ((l.modifyThread t f).thread j).home = .absent := hj
      rw [thread_modifyThread] at hj ⊢
      by_cases htj : t = j
      · subst htj
        rw [if_pos ⟨rfl, ht⟩, hf s', hold s']
        simp [verdict]
      · have hne : ¬ (t = j ∧ t < l.threads.size) := fun hn => htj hn.1
        rw [if_neg hne] at hj ⊢
        rw [h.carry j hj s']
        simp [htj]
    · refine List.forall_mem_cons.mpr ⟨?_, fun e he t' s' d' hp => ?_⟩
      · intro t' s' d' hp
        obtain ⟨rfl, -⟩ := Prod.mk.inj (Option.some.inj hp)
        exact lt_of_lt_of_eq ht (threads_size_modifyThread ..).symm
      · exact lt_of_lt_of_eq (h.parked e he t' s' d' hp) (threads_size_modifyThread ..).symm
    · refine List.forall_mem_cons.mpr ⟨by simp [Entry.carrier?], h.uncarried j ?_⟩
      have hj : ((l.modifyThread t f).thread j).home = .absent := hj
      by_cases htj : t = j
      · exact htj ▸ hh
      · rwa [thread_modifyThread, if_neg fun hn => htj hn.1] at hj
  unfold Ledger.park
  cases hc : (l.thread t).carry with
  | none =>
    refine hnew _ fun s' => ?_
    by_cases hs : s = s' <;> simp [Thread.carriedFor, hc, hs, Delta.addClamped, Delta.clamp_toInt]
  | some c =>
    dsimp only
    split
    · rename_i hs
      refine hnew _ fun s' => ?_
      by_cases hs' : s = s' <;> simp [Thread.carriedFor, hc, hs, hs']
    · exact h.post rfl rfl

theorem Carries.seek {s : ServiceId} {k : TaskKey} : Carries (l.seek t s k).1 := by
  obtain ⟨f, g, -, hg, heq⟩ := l.seek_eq t s k
  have hlookup : Carries (l.modifyService s f) := ⟨h.carry, h.parked, h.uncarried⟩
  exact heq ▸ hlookup.modifyThread fun hh =>
    ⟨(congrArg Thread.home (hg _) :).symm.trans hh, (congrArg Thread.carry (hg _) :)⟩

theorem Carries.takeIn {e : Entry} {c : ContextId} {d : Delta} (hi : l.Intake t e c d) :
    Carries (l.takeIn e c d).1 := by
  have he : e.parked? = none := by cases hi <;> rfl
  have hpost : Carries (l.post e) := by
    cases hi with
    | carried hh hd hn =>
      refine h.postHomed rfl fun j hj => ?_
      obtain rfl := Option.some.inj hj
      rw [hh]
      exact Home.noConfusion
    | task | thread | direct => exact h.post rfl rfl
  have htake : Carries ((l.post e).modifyContext c fun ctx => { ctx with cache := ((l.context c).cache.consume d).1 }) :=
    ⟨hpost.carry, hpost.parked, hpost.uncarried⟩
  exact takeIn_keeps htake fun _ _ h => h.post rfl rfl

theorem Carries.drain {c : ContextId} : Carries (l.drain c) := by
  have hpost := h.post (e := .flushed c) rfl rfl
  have hdrain : Carries ((l.post (.flushed c)).modifyContext c fun ctx =>
      { ctx with cache := (l.context c).cache.take.1 }) := ⟨hpost.carry, hpost.parked, hpost.uncarried⟩
  exact hdrain.post rfl rfl

theorem Carries.shut {c : ContextId} : Carries (l.shut c) := by
  have hclose : Carries (l.modifyContext c fun ctx => { ctx with closed := true }) :=
    ⟨h.carry, h.parked, h.uncarried⟩
  exact hclose.drain

theorem Carries.endHome : Carries (l.endHome t) := h.modifyThread fun hn => by cases hn

end

end Ledger

theorem Charging.carries {t : ThreadId} {m m' : Moment} (hc : Carries m.1) (h : Charging t m m') :
    Carries m'.1 := by
  cases h with
  | receive | spend => exact ⟨hc.carry, hc.parked, hc.uncarried⟩
  | hear | event => exact hc.post rfl rfl
  | skip => exact ⟨hc.carry, hc.parked, hc.uncarried⟩
  | hook b => exact hc.modifyThread fun hh => ⟨hh, rfl⟩
  | resolve => exact hc.seek.post rfl rfl
  | decline => exact hc.post rfl rfl
  | park ht hk hh => exact hc.park ht hh
  | take hi => exact hc.takeIn hi
  | @settle l q s hs hh =>
    have hadd : Carries { l with contexts := (l.newHome t s).contexts, nextThread := l.nextThread + 1 } :=
      ⟨hc.carry, hc.parked, hc.uncarried⟩
    exact hadd.modifyThread fun hn => by cases hn

theorem Tending.carries {t : ThreadId} {m m' : Moment} (hc : Carries m.1) (h : Tending t m m') :
    Carries m'.1 := by
  cases h with
  | charging h => exact h.carries hc
  | notice | bound | report | consume => exact hc.post rfl rfl
  | flush => exact hc.drain
  | newThread => exact hc.newThread
  | discreet hf => exact hc.modifyThread fun hh => ⟨(hf _).1.symm.trans hh, (hf _).2.1⟩
  | atExit => exact hc.modifyThread fun hh => ⟨hh, rfl⟩
  | @openAccount l q i s hi =>
    have hopen : Carries (l.newKey.1.newContext s l.newKey.2 i true).1 := ⟨hc.carry, hc.parked, hc.uncarried⟩
    exact (hopen.post rfl rfl).post rfl rfl
  | addService source slots threshold hi =>
    unfold Ledger.addService
    dsimp only
    split <;> exact ⟨hc.carry, hc.parked, hc.uncarried⟩
  | _ => exact ⟨hc.carry, hc.parked, hc.uncarried⟩

theorem Move.carries {t : ThreadId} {m m' : Moment} (hc : Carries m.1) (h : Move t m m') :
    Carries m'.1 := by
  cases h with
  | tending h => exact h.carries hc
  | close => exact hc.shut
  | closeHome => exact hc.endHome.shut
  | enter => exact hc.modifyThread fun hh => ⟨hh, rfl⟩
  | leave =>
    refine hc.modifyThread fun hh => ?_
    unfold Thread.leave at hh ⊢
    split at hh <;> exact ⟨hh, rfl⟩
  | orphans | futures => exact ⟨hc.carry, hc.parked, hc.uncarried⟩

end HeapLedger
