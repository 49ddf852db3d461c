import HeapLedger.Proofs.Move

/-!
# Sound ledgers

What holds of a ledger at every moment of a run, also while a tracker makes charges in the middle of a
commit. Contexts of threads, contexts of accounts and contexts that are published by hand are kept
apart; whatever a charge can come to is open; and a remembered context belongs to its key.
-/

namespace HeapLedger

def Linked : List Scope → Prop
  | [] => True
  | sc :: outer => sc.outer = outer.head?.map (·.account) ∧ Linked outer

namespace Ledger

/-- The context is open for as long as the key is active in a roster. -/
def Awake (l : Ledger) (k : TaskKey) (c : ContextId) : Prop :=
  ∀ r t, (l.roster r).active.find? t = some k → (l.context c).closed = false

/-- A context belongs to a key, as a service sees it: it is the key's account, or was published under
the key. -/
def Known (l : Ledger) (s : ServiceId) (k : TaskKey) (c : ContextId) : Prop :=
  match (l.service s).source with
  | .scopes => l.Opened ⟨k, c⟩
  | .roster _ => k ∈ (l.context c).published ∧ l.Awake k c

/-- A context that was set up by the ledger itself and is never published. -/
def Own (l : Ledger) (c : ContextId) : Prop :=
  c < l.contexts.size ∧ (l.context c).initialized = true ∧ (l.context c).published = []

structure Fits (l : Ledger) (th : Thread) : Prop where
  exit_requests : l.Serves th.exitCharges
  home : ∀ s c, th.home = .settled s c →
    l.Own c ∧ (l.context c).closed = false ∧ ∀ a, l.Opened a → a.context ≠ c
  active : th.active = th.innermost
  linked : Linked th.scopes
  scope : ∀ sc ∈ th.scopes, l.Opened sc.account ∧ (l.context sc.account.context).closed = false
  recent : ∀ e, th.recent = some e → e.service < l.services.size ∧ l.Known e.service e.key e.context

structure Sound (l : Ledger) : Prop where
  -- trackers and contexts
  route : ∀ i < l.trackers.size, (l.tracker i).above = [] ∨ ∃ p < i, (l.tracker i).above = l.route p
  context_tracker : ∀ c < l.contexts.size, (l.context c).tracker < l.trackers.size
  thread_tracker : ∀ s < l.services.size, (l.service s).threadTracker < l.trackers.size
  pending_le : ∀ c, (l.context c).pending.magnitude ≤ (l.context c).cache.threshold.toNat
  pending_closed : ∀ c, (l.context c).closed = true → (l.context c).pending = 0
  -- requests
  echo_requests : ∀ i e, (l.tracker i).kind = .echo e → l.Serves e.charges
  future_requests : ∀ f, (∀ p ∈ (l.future f).polls, l.Serves p.charges) ∧ l.Serves (l.future f).onDrop
  hook_services : ∀ m s, .adapter s ∈ (l.allocator m).table.filled → s < l.services.size
  -- threads
  thread : ∀ t, l.Fits (l.thread t)
  home_inj : ∀ t t' s s' c, (l.thread t).home = .settled s c → (l.thread t').home = .settled s' c → t = t'
  -- accounts
  opened : ∀ a, l.Opened a →
    l.Own a.context ∧ a.key.number < l.nextTask ∧ (l.context a.context).identity = .task a.key
  opened_inj : ∀ a b, l.Opened a → l.Opened b → a.key = b.key ∨ a.context = b.context → a = b
  -- what is remembered and published
  slot : ∀ s i k c, ((l.service s).slots.get i).cached = some (k, c) → l.Known s k c
  mapped : ∀ r k c, (l.roster r).contexts.find? k = some c → k ∈ (l.context c).published ∧ l.Awake k c

theorem fits_default (l : Ledger) : l.Fits default where
  exit_requests _ h := by cases h
  home _ _ h := by cases h
  active := rfl
  linked := trivial
  scope _ h := by cases h
  recent _ h := by cases h

theorem sound_empty : Sound {} where
  route i hi := absurd hi (Nat.not_lt_zero i)
  context_tracker c hc := absurd hc (Nat.not_lt_zero c)
  thread_tracker s hs := absurd hs (Nat.not_lt_zero s)
  pending_le _ := Nat.le_refl _
  pending_closed _ _ := rfl
  echo_requests _ _ h := by cases h
  future_requests _ := ⟨fun _ h => (by cases h), fun _ h => (by cases h)⟩
  hook_services _ _ h := by cases h
  thread _ := fits_default _
  home_inj _ _ _ _ _ h := by cases h
  opened _ h := by cases h
  opened_inj _ _ h := by cases h
  slot _ _ _ _ h := by cases h
  mapped _ _ _ h := by cases h

/-! ## Routes -/

/-- Every tracker on a route is older than the one before it. -/
theorem route_pairwise {l : Ledger} (h : Sound l) : ∀ i < l.trackers.size, (l.route i).Pairwise (· > ·) ∧
    ∀ j ∈ l.route i, j ≤ i := by
  intro i
  induction i using Nat.strongRecOn with
  | _ i ih =>
    intro hi
    rcases h.route i hi with h0 | ⟨p, hp, h1⟩
    · rw [route, h0]
      simp
    · obtain ⟨hpair, hle⟩ := ih p hp (Nat.lt_trans hp hi)
      rw [route, h1]
      refine ⟨List.pairwise_cons.mpr ⟨fun j hj => ?_, hpair⟩, ?_⟩
      · exact Nat.lt_of_le_of_lt (hle j hj) hp
      · intro j hj
        rcases List.mem_cons.mp hj with rfl | hj
        · exact Nat.le_refl _
        · exact Nat.le_trans (hle j hj) (Nat.le_of_lt hp)

/-- A hook charges a service that is there. -/
theorem Sound.lt_of_adapter {l : Ledger} (h : Sound l) {m : AllocatorId} {s : ServiceId}
    (hm : .adapter s ∈ (l.allocator m).hooks) : s < l.services.size :=
  h.hook_services m s (HookTable.mem_filled_of_mem_hooks hm)

theorem route_lt {l : Ledger} (h : Sound l) {i : TrackerId} (hi : i < l.trackers.size) :
    ∀ j ∈ l.route i, j < l.trackers.size :=
  fun j hj => Nat.lt_of_le_of_lt ((route_pairwise h i hi).2 j hj) hi

theorem route_nodup {l : Ledger} (h : Sound l) {i : TrackerId} (hi : i < l.trackers.size) : (l.route i).Nodup :=
  (route_pairwise h i hi).1.imp fun hij => Nat.ne_of_gt hij

/-! ## The journal -/

section
variable {l : Ledger}

theorem known_post {e : Entry} (h : ∀ a, e ≠ .opened a) {s : ServiceId} {k : TaskKey} {c : ContextId} :
    (l.post e).Known s k c ↔ l.Known s k c := by
  show (match (l.service s).source with
    | .scopes => (l.post e).Opened ⟨k, c⟩
    | .roster _ => k ∈ (l.context c).published ∧ l.Awake k c) ↔ _
  unfold Known
  cases (l.service s).source with
  | scopes => exact opened_post h
  | roster r => exact Iff.rfl

theorem Sound.post (h : Sound l) {e : Entry} (he : ∀ a, e ≠ .opened a) : Sound (l.post e) :=
  { h with
    thread := fun t =>
      { h.thread t with
        home := fun s c hc =>
          ⟨((h.thread t).home s c hc).1, ((h.thread t).home s c hc).2.1, fun a ha =>
            ((h.thread t).home s c hc).2.2 a ((opened_post he).mp ha)⟩
        scope := fun sc hsc =>
          ⟨(opened_post he).mpr ((h.thread t).scope sc hsc).1, ((h.thread t).scope sc hsc).2⟩
        recent := fun e' hr =>
          ⟨((h.thread t).recent e' hr).1, (known_post he).mpr ((h.thread t).recent e' hr).2⟩ }
    opened := fun a ha => h.opened a ((opened_post he).mp ha)
    opened_inj := fun a b ha hb => h.opened_inj a b ((opened_post he).mp ha) ((opened_post he).mp hb)
    slot := fun s i k c hc => (known_post he).mpr (h.slot s i k c hc) }

/-! ## Trackers -/

theorem Sound.modifyTracker (h : Sound l) (i : TrackerId) {f : Tracker → Tracker}
    (ha : ∀ tr, (f tr).above = tr.above)
    (hk : ∀ e, (f (l.tracker i)).kind = .echo e → l.Serves e.charges) : Sound (l.modifyTracker i f) := by
  have hr : ∀ j, ((l.modifyTracker i f).tracker j).above = (l.tracker j).above :=
    fun j => Table.get_modify_of_eq _ i j Tracker.above ha
  have hsize := trackers_size_modifyTracker l i f
  exact { h with
    route := fun j hj => by
      rw [hsize] at hj
      rw [hr j]
      rcases h.route j hj with h0 | ⟨p, hp, h1⟩
      · exact .inl h0
      · refine .inr ⟨p, hp, h1.trans ?_⟩
        rw [Ledger.route, Ledger.route, hr p]
    context_tracker := fun c hc => lt_of_lt_of_eq (h.context_tracker c hc) hsize.symm
    thread_tracker := fun s hs => lt_of_lt_of_eq (h.thread_tracker s hs) hsize.symm
    echo_requests := fun j e he => by
      rw [tracker_modifyTracker] at he
      split at he
      · rename_i hij; exact hk e (hij.1 ▸ he)
      · exact h.echo_requests j e he
    thread := fun t => { h.thread t with } }

/-! ## Services -/

theorem Sound.modifyService (h : Sound l) (s : ServiceId) {f : Service → Service}
    (hf : ∀ svc, (f svc).source = svc.source ∧ (f svc).threadTracker = svc.threadTracker)
    (hc : ∀ i k c, ((f (l.service s)).slots.get i).cached = some (k, c) → l.Known s k c) :
    Sound (l.modifyService s f) := by
  have hsource : ∀ j, ((l.modifyService s f).service j).source = (l.service j).source :=
    fun j => Table.get_modify_of_eq _ s j Service.source fun svc => (hf svc).1
  have hsize := services_size_modifyService l s f
  have hknown : ∀ j k c, l.Known j k c → (l.modifyService s f).Known j k c := by
    intro j k c hj
    unfold Known at hj ⊢
    rw [hsource j]; exact hj
  have hserves : ∀ rs, l.Serves rs → (l.modifyService s f).Serves rs :=
    fun rs hrs r hr => lt_of_lt_of_eq (hrs r hr) hsize.symm
  exact { h with
    thread_tracker := fun j hj => by
      rw [hsize] at hj
      have hthread : ((l.modifyService s f).service j).threadTracker = (l.service j).threadTracker :=
        Table.get_modify_of_eq _ s j Service.threadTracker fun svc => (hf svc).2
      rw [hthread]; exact h.thread_tracker j hj
    echo_requests := fun i e he => hserves _ (h.echo_requests i e he)
    future_requests := fun j =>
      ⟨fun p hp => hserves _ ((h.future_requests j).1 p hp), hserves _ (h.future_requests j).2⟩
    hook_services := fun m j hj => lt_of_lt_of_eq (h.hook_services m j hj) hsize.symm
    thread := fun t =>
      { h.thread t with
        exit_requests := hserves _ (h.thread t).exit_requests
        recent := fun e he =>
          ⟨lt_of_lt_of_eq ((h.thread t).recent e he).1 hsize.symm, hknown _ _ _ ((h.thread t).recent e he).2⟩ }
    slot := fun j i k c hj => by
      apply hknown
      rw [service_modifyService] at hj
      split at hj
      · rename_i hs; obtain ⟨rfl, _⟩ := hs; exact hc i k c hj
      · exact h.slot j i k c hj }

/-! ## Threads -/

theorem Sound.modifyThread (h : Sound l) (t : ThreadId) {f : Thread → Thread}
    (hf : l.Fits (f (l.thread t)))
    (hi : ∀ s c, (f (l.thread t)).home = .settled s c → ∀ t' s', (l.thread t').home = .settled s' c → t' = t) :
    Sound (l.modifyThread t f) := by
  have hfits : ∀ th, l.Fits th → (l.modifyThread t f).Fits th := fun th hth => { hth with }
  have hthread : ∀ j, (l.modifyThread t f).thread j = l.thread j ∨ j = t ∧
      (l.modifyThread t f).thread j = f (l.thread t) := by
    intro j
    rw [thread_modifyThread]
    split
    · rename_i hj; obtain ⟨rfl, _⟩ := hj; exact .inr ⟨rfl, rfl⟩
    · exact .inl rfl
  exact { h with
    thread := fun j => by
      apply hfits
      rcases hthread j with hj | ⟨rfl, hj⟩
      · rw [hj]; exact h.thread j
      · rw [hj]; exact hf
    home_inj := fun j j' s s' c hs hs' => by
      rcases hthread j with hj | ⟨rfl, hj⟩ <;> rcases hthread j' with hj' | ⟨rfl, hj'⟩
      · rw [hj] at hs; rw [hj'] at hs'; exact h.home_inj j j' s s' c hs hs'
      · rw [hj] at hs; rw [hj'] at hs'; exact hi s' c hs' j s hs
      · rw [hj] at hs; rw [hj'] at hs'; exact (hi s c hs j' s' hs').symm
      · rfl }

theorem Sound.modifyThread_of_home (h : Sound l) (t : ThreadId) {f : Thread → Thread}
    (hf : l.Fits (f (l.thread t))) (hh : ∀ th, (f th).home = th.home) : Sound (l.modifyThread t f) :=
  h.modifyThread t hf fun s c hc t' s' hc' => h.home_inj t' t s' s c hc' ((hh _).symm.trans hc)

theorem Sound.discreet (h : Sound l) (t : ThreadId) {f : Thread → Thread} (hf : Discreet f) :
    Sound (l.modifyThread t f) := by
  obtain ⟨hhome, _, hactive, hscopes, hrecent, hexit, _⟩ := hf (l.thread t)
  have hold := h.thread t
  refine h.modifyThread_of_home t ?_ fun th => (hf th).1
  exact {
    exit_requests := hexit ▸ hold.exit_requests
    home := hhome ▸ hold.home
    active := by
      unfold Thread.innermost
      rw [hactive, hscopes]; exact hold.active
    linked := hscopes ▸ hold.linked
    scope := hscopes ▸ hold.scope
    recent := hrecent ▸ hold.recent }

/-! ## Contexts -/

/-- Other contexts take the place of the old ones: a context keeps the keys it published and stays as its owner made
it, and is closed only where nothing that is open holds it. -/
theorem Sound.withContexts (h : Sound l) (contexts : Table Context)
    (htracker : ∀ j < contexts.size, (contexts.get j).tracker < l.trackers.size)
    (hle : ∀ j, (contexts.get j).pending.magnitude ≤ (contexts.get j).cache.threshold.toNat)
    (hz : ∀ j, (contexts.get j).closed = true → (contexts.get j).pending = 0)
    (hpublished : ∀ j, ∀ k ∈ (l.context j).published, k ∈ (contexts.get j).published)
    (hstays : ∀ j, (l.context j).closed = false → ¬ l.Closable j → (contexts.get j).closed = false)
    (howns : ∀ j, l.Own j → ((∃ a, l.Opened a ∧ a.context = j) ∨ ∃ t s, (l.thread t).home = .settled s j) →
      Own { l with contexts } j)
    (hidentity : ∀ a, l.Opened a → (contexts.get a.context).identity = (l.context a.context).identity) :
    Sound { l with contexts } := by
  have hmapped : ∀ k j, k ∈ (l.context j).published ∧ l.Awake k j →
      k ∈ (contexts.get j).published ∧ Awake { l with contexts } k j :=
    fun k j hj => ⟨hpublished j k hj.1, fun r t hk =>
      hstays j (hj.2 r t hk) fun hcl => hcl.key r t k hk hj.1⟩
  have hknown : ∀ s k j, l.Known s k j → Known { l with contexts } s k j := by
    intro s k j hj
    show match (l.service s).source with
      | .scopes => l.Opened ⟨k, j⟩
      | .roster _ => k ∈ (contexts.get j).published ∧ Awake { l with contexts } k j
    unfold Known at hj
    cases hsource : (l.service s).source with
    | scopes => rw [hsource] at hj; exact hj
    | roster r => rw [hsource] at hj; exact hmapped k j hj
  exact { h with
    context_tracker := htracker
    pending_le := hle
    pending_closed := hz
    thread := fun t =>
      { h.thread t with
        home := fun s j hj => by
          obtain ⟨h1, h2, h3⟩ := (h.thread t).home s j hj
          exact ⟨howns j h1 (.inr ⟨t, s, hj⟩), hstays j h2 fun hc => hc.home t s hj, h3⟩
        scope := fun sc hsc => by
          obtain ⟨h1, h2⟩ := (h.thread t).scope sc hsc
          exact ⟨h1, hstays _ h2 fun hc => hc.scope t sc hsc rfl⟩
        recent := fun e he => ⟨((h.thread t).recent e he).1, hknown _ _ _ ((h.thread t).recent e he).2⟩ }
    opened := fun a ha => by
      obtain ⟨h1, h2, h3⟩ := h.opened a ha
      exact ⟨howns _ h1 (.inl ⟨a, ha, rfl⟩), h2, (hidentity a ha).trans h3⟩
    slot := fun s i k j hj => hknown s k j (h.slot s i k j hj)
    mapped := fun r k j hj => hmapped k j (h.mapped r k j hj) }

theorem Sound.modifyContext (h : Sound l) (c : ContextId) {f : Context → Context}
    (hs : ∀ ctx, (f ctx).tracker = ctx.tracker ∧ (f ctx).identity = ctx.identity)
    (hi : ∀ ctx, ctx.initialized = true → (f ctx).initialized = true)
    (hp : ∀ ctx, ∀ k ∈ ctx.published, k ∈ (f ctx).published)
    (hle : (f (l.context c)).pending.magnitude ≤ (f (l.context c)).cache.threshold.toNat)
    (hz : (f (l.context c)).closed = true → (f (l.context c)).pending = 0)
    (hown : (f (l.context c)).published = (l.context c).published ∨
      (∀ a, l.Opened a → a.context ≠ c) ∧ ∀ t s, (l.thread t).home ≠ .settled s c)
    (hopen : (f (l.context c)).closed = (l.context c).closed ∨ l.Closable c) : Sound (l.modifyContext c f) := by
  have hsize := contexts_size_modifyContext l c f
  -- Every context is as it was, or is the changed one.
  have hread : ∀ j, (l.modifyContext c f).context j = l.context j ∨ j = c ∧
      (l.modifyContext c f).context j = f (l.context c) := by
    intro j
    rw [context_modifyContext]
    split
    · rename_i hj; obtain ⟨rfl, _⟩ := hj; exact .inr ⟨rfl, rfl⟩
    · exact .inl rfl
  refine h.withContexts _ (fun j hj => ?tracker) (fun j => ?pending) (fun j => ?closed) (fun j k hk => ?published)
    (fun j hj hn => ?stays) ?owns fun a _ =>
      Table.get_modify_of_eq _ c a.context Context.identity fun ctx => (hs ctx).2
  case tracker =>
    exact lt_of_eq_of_lt (Table.get_modify_of_eq _ c j Context.tracker fun ctx => (hs ctx).1)
      (h.context_tracker j (lt_of_lt_of_eq hj hsize))
  case pending =>
    show ((l.modifyContext c f).context j).pending.magnitude ≤ ((l.modifyContext c f).context j).cache.threshold.toNat
    rcases hread j with hj | ⟨rfl, hj⟩
    · rw [hj]; exact h.pending_le j
    · rw [hj]; exact hle
  case closed =>
    show ((l.modifyContext c f).context j).closed = true → ((l.modifyContext c f).context j).pending = 0
    rcases hread j with hj | ⟨rfl, hj⟩
    · rw [hj]; exact h.pending_closed j
    · rw [hj]; exact hz
  case published =>
    show k ∈ ((l.modifyContext c f).context j).published
    rcases hread j with hj | ⟨rfl, hj⟩
    · rw [hj]; exact hk
    · rw [hj]; exact hp _ k hk
  case stays =>
    show ((l.modifyContext c f).context j).closed = false
    rcases hread j with he | ⟨rfl, he⟩
    · rw [he]; exact hj
    · rw [he]; exact (hopen.resolve_right hn).trans hj
  case owns =>
    rintro j ⟨hlt, hinit, hpub⟩ hj
    refine ⟨lt_of_lt_of_eq hlt hsize.symm, ?_⟩
    show ((l.modifyContext c f).context j).initialized = true ∧ ((l.modifyContext c f).context j).published = []
    rcases hread j with he | ⟨rfl, he⟩
    · rw [he]; exact ⟨hinit, hpub⟩
    · rw [he]
      refine ⟨hi _ hinit, ?_⟩
      -- What is published changes only in a context that no account and no thread owns.
      rcases hown with hsame | ⟨hno, hnh⟩
      · exact hsame.trans hpub
      · rcases hj with ⟨a, ha, hc⟩ | ⟨t, s, ht⟩
        · exact absurd hc (hno a ha)
        · exact absurd ht (hnh t s)

/-- What is pending in an open context may change within the threshold. -/
theorem Sound.modifyCache (h : Sound l) (c : ContextId) (cache : Cache)
    (hle : cache.pending.magnitude ≤ cache.threshold.toNat)
    (hz : (l.context c).closed = true → cache.pending = 0) :
    Sound (l.modifyContext c fun ctx => { ctx with cache }) :=
  h.modifyContext c (fun _ => ⟨rfl, rfl⟩) (fun _ hi => hi) (fun _ _ hk => hk) hle hz (.inl rfl) (.inl rfl)

theorem Sound.addContext (h : Sound l) (ctx : Context) (ht : ctx.tracker < l.trackers.size)
    (hz : ctx.pending = 0) (hc : ctx.closed = false) (hp : ctx.published = []) :
    Sound { l with contexts := l.contexts.add ctx } := by
  have hsize : (l.contexts.add ctx).size = l.contexts.size + 1 := Table.size_add ..
  have hold : ∀ j < l.contexts.size, (l.contexts.add ctx).get j = l.context j :=
    fun j hj => (Table.get_add ..).trans (if_neg (Nat.ne_of_lt hj))
  -- Where the new context stands, an empty one was read before: nothing pending, published or closed.
  have hread : ∀ j, (l.contexts.add ctx).get j = l.context j ∨
      l.context j = default ∧ (l.contexts.add ctx).get j = ctx := by
    intro j
    rw [Table.get_add]
    split
    · rename_i hj; exact .inr ⟨Table.get_of_size_le (Nat.le_of_eq hj.symm), rfl⟩
    · exact .inl rfl
  have hpublished : ∀ j, ((l.contexts.add ctx).get j).published = (l.context j).published := by
    intro j
    rcases hread j with hj | ⟨hd, hj⟩
    · rw [hj]
    · rw [hj, hd, hp]; rfl
  have hclosed : ∀ j, ((l.contexts.add ctx).get j).closed = (l.context j).closed := by
    intro j
    rcases hread j with hj | ⟨hd, hj⟩
    · rw [hj]
    · rw [hj, hd, hc]; rfl
  refine h.withContexts _ (fun j hj => ?tracker) (fun j => ?pending) (fun j hj => ?closed)
    (fun j k hk => (hpublished j).symm ▸ hk) (fun j hj _ => (hclosed j).trans hj) ?owns
    fun a ha => congrArg Context.identity (hold _ (h.opened a ha).1.1)
  case tracker =>
    rcases Nat.lt_succ_iff_lt_or_eq.mp (lt_of_lt_of_eq hj hsize) with hlt | rfl
    · exact lt_of_eq_of_lt (congrArg Context.tracker (hold j hlt)) (h.context_tracker j hlt)
    · rw [Table.get_add, if_pos rfl]
      exact ht
  case pending =>
    rcases hread j with he | ⟨_, he⟩
    · rw [he]; exact h.pending_le j
    · rw [he, hz]; exact Nat.zero_le _
  case closed =>
    rcases hread j with he | ⟨_, he⟩
    · rw [he]; exact h.pending_closed j (he ▸ hj)
    · rw [he, hz]
  case owns =>
    rintro j ⟨hlt, hi, hpub⟩ -
    refine ⟨lt_of_lt_of_eq (Nat.lt_succ_of_lt hlt) hsize.symm, ?_, (hpublished j).trans hpub⟩
    exact (congrArg Context.initialized (hold j hlt)).trans hi

/-! ## New parts -/

theorem Sound.newTracker (h : Sound l) {kind : TrackerKind} {parent : Option TrackerId}
    (hp : ∀ i ∈ parent, i < l.trackers.size) (hk : ∀ e, kind = .echo e → e.charges = []) :
    Sound (l.newTracker kind parent).1 := by
  let tr : Tracker := { kind, above := (parent.map l.route).getD [] }
  have hsize : (l.trackers.add tr).size = l.trackers.size + 1 := Table.size_add ..
  have hold : ∀ j < l.trackers.size, (l.trackers.add tr).get j = l.tracker j :=
    fun j hj => (Table.get_add ..).trans (if_neg (Nat.ne_of_lt hj))
  have hroute : ∀ p < l.trackers.size, (l.newTracker kind parent).1.route p = l.route p :=
    fun p hlt => congrArg (fun tr : Tracker => p :: tr.above) (hold p hlt)
  have hlt : ∀ {j}, j < l.trackers.size → j < (l.newTracker kind parent).1.trackers.size :=
    fun hj => lt_of_lt_of_eq (Nat.lt_succ_of_lt hj) hsize.symm
  exact { h with
    route := fun i hi => by
      show ((l.trackers.add tr).get i).above = [] ∨
        ∃ p < i, ((l.trackers.add tr).get i).above = (l.newTracker kind parent).1.route p
      rcases Nat.lt_or_ge i l.trackers.size with hi' | hi'
      · rw [hold i hi']
        rcases h.route i hi' with h0 | ⟨p, hpi, h1⟩
        · exact .inl h0
        · exact .inr ⟨p, hpi, h1.trans (hroute p (Nat.lt_trans hpi hi')).symm⟩
      · have hi : i = l.trackers.size := Nat.le_antisymm (Nat.le_of_lt_succ (lt_of_lt_of_eq hi hsize)) hi'
        rw [Table.get_add, if_pos hi, hi]
        cases hparent : parent with
        | none => exact .inl (by simp [tr, hparent])
        | some p =>
          have hlt := hp p (by simp [hparent])
          refine .inr ⟨p, hlt, ?_⟩
          rw [← hparent, hroute p hlt]
          simp [tr, hparent]
    context_tracker := fun c hc => hlt (h.context_tracker c hc)
    thread_tracker := fun s hs => hlt (h.thread_tracker s hs)
    echo_requests := fun j e he => by
      have he : ((l.trackers.add tr).get j).kind = .echo e := he
      rw [Table.get_add] at he
      split at he
      · rw [hk e he]; intro r hr; cases hr
      · exact h.echo_requests j e he
    thread := fun t => { h.thread t with } }

theorem thread_newThread (l : Ledger) (t : ThreadId) : l.newThread.1.thread t = l.thread t := by
  show (l.threads.add {}).get t = l.threads.get t
  rw [Table.get_add]
  split
  · rename_i ht; exact (Table.get_of_size_le (Nat.le_of_eq ht.symm)).symm
  · rfl

theorem Sound.newThread (h : Sound l) : Sound l.newThread.1 :=
  { h with
    thread := fun t => by
      rw [thread_newThread]
      exact { h.thread t with }
    home_inj := fun t t' s s' c ht ht' => by
      rw [thread_newThread] at ht ht'
      exact h.home_inj t t' s s' c ht ht' }

theorem Sound.addService (h : Sound l) {svc : Service} (ht : svc.threadTracker < l.trackers.size)
    (hs : ∀ i, (svc.slots.get i).cached = none) : Sound { l with services := l.services.add svc } := by
  have hsize : (l.services.add svc).size = l.services.size + 1 := Table.size_add ..
  have hold : ∀ j, j ≠ l.services.size → (l.services.add svc).get j = l.service j :=
    fun j hj => (Table.get_add ..).trans (if_neg hj)
  have hlt : ∀ {j}, j < l.services.size → j < (l.services.add svc).size :=
    fun hj => lt_of_lt_of_eq (Nat.lt_succ_of_lt hj) hsize.symm
  have hknown : ∀ s k c, s ≠ l.services.size → l.Known s k c →
      Known { l with services := l.services.add svc } s k c := by
    intro s k c hne hs
    show match ((l.services.add svc).get s).source with
      | .scopes => l.Opened ⟨k, c⟩
      | .roster _ => k ∈ (l.context c).published ∧ l.Awake k c
    rw [hold s hne]; exact hs
  exact { h with
    thread_tracker := fun s hlt => by
      show ((l.services.add svc).get s).threadTracker < l.trackers.size
      rw [Table.get_add]
      split
      · exact ht
      · exact h.thread_tracker s (by have := lt_of_lt_of_eq hlt hsize; omega)
    echo_requests := fun i e he r hr => hlt (h.echo_requests i e he r hr)
    future_requests := fun f =>
      ⟨fun p hp r hr => hlt ((h.future_requests f).1 p hp r hr), fun r hr => hlt ((h.future_requests f).2 r hr)⟩
    hook_services := fun m s hs => hlt (h.hook_services m s hs)
    thread := fun t =>
      { h.thread t with
        exit_requests := fun r hr => hlt ((h.thread t).exit_requests r hr)
        recent := fun e he => by
          obtain ⟨h1, h2⟩ := (h.thread t).recent e he
          exact ⟨hlt h1, hknown _ _ _ (Nat.ne_of_lt h1) h2⟩ }
    slot := fun s i k c hc => by
      have hc : (((l.services.add svc).get s).slots.get i).cached = some (k, c) := hc
      by_cases hne : s = l.services.size
      · rw [Table.get_add, if_pos hne, hs i] at hc; cases hc
      · rw [hold s hne] at hc; exact hknown s k c hne (h.slot s i k c hc) }

/-- An account is opened over a context that nobody has come to yet. -/
theorem Sound.open (h : Sound l) {a : Account} (ho : l.Own a.context) (hk : a.key.number < l.nextTask)
    (hi : (l.context a.context).identity = .task a.key)
    (hh : ∀ t s, (l.thread t).home ≠ .settled s a.context)
    (hf : ∀ b, l.Opened b → b.key ≠ a.key ∧ b.context ≠ a.context) : Sound (l.post (.opened a)) := by
  have hopened : ∀ b, (l.post (.opened a)).Opened b → b = a ∨ l.Opened b := by
    intro b hb
    rcases List.mem_cons.mp hb with hb | hb
    · exact .inl (Entry.opened.inj hb)
    · exact .inr hb
  have hmono : ∀ b, l.Opened b → (l.post (.opened a)).Opened b := fun b hb => List.mem_cons_of_mem _ hb
  have hknown : ∀ s k c, l.Known s k c → (l.post (.opened a)).Known s k c := by
    intro s k c hs
    show match (l.service s).source with
      | .scopes => (l.post (.opened a)).Opened ⟨k, c⟩
      | .roster _ => k ∈ (l.context c).published ∧ l.Awake k c
    unfold Known at hs
    cases hsource : (l.service s).source with
    | scopes => rw [hsource] at hs; exact hmono _ hs
    | roster r => rw [hsource] at hs; exact hs
  exact { h with
    thread := fun t =>
      { h.thread t with
        home := fun s c hc => by
          obtain ⟨h1, h2, h3⟩ := (h.thread t).home s c hc
          refine ⟨h1, h2, fun b hb => ?_⟩
          rcases hopened b hb with rfl | hb
          · intro he; exact hh t s (he ▸ hc)
          · exact h3 b hb
        scope := fun sc hsc => ⟨hmono _ ((h.thread t).scope sc hsc).1, ((h.thread t).scope sc hsc).2⟩
        recent := fun e he => ⟨((h.thread t).recent e he).1, hknown _ _ _ ((h.thread t).recent e he).2⟩ }
    opened := fun b hb => by
      rcases hopened b hb with rfl | hb
      · exact ⟨ho, hk, hi⟩
      · exact h.opened b hb
    opened_inj := fun b b' hb hb' he => by
      rcases hopened b hb with h1 | h1 <;> rcases hopened b' hb' with h2 | h2
      · rw [h1, h2]
      · subst h1; exact absurd he (not_or.mpr ⟨(hf b' h2).1.symm, (hf b' h2).2.symm⟩)
      · subst h2; exact absurd he (not_or.mpr (hf b h1))
      · exact h.opened_inj b b' h1 h2 he
    slot := fun s i k c hc => hknown s k c (h.slot s i k c hc) }

/-! ## Rosters, futures, blocks and numbers -/

theorem Awake.setRosters {k : TaskKey} {c : ContextId} (h : l.Awake k c) {rs : Table Roster}
    (ha : ∀ r, (rs.get r).active = (l.roster r).active) : Awake { l with rosters := rs } k c :=
  fun r t hk => h r t (ha r ▸ hk)

theorem Sound.setRosters (h : Sound l) (rs : Table Roster)
    (hm : ∀ r k c, (rs.get r).contexts.find? k = some c →
      k ∈ (l.context c).published ∧ Awake { l with rosters := rs } k c)
    (ha : ∀ k c, l.Names k c → l.Awake k c → Awake { l with rosters := rs } k c) :
    Sound { l with rosters := rs } := by
  have hknown : ∀ s k c, (∀ r, (l.service s).source = .roster r → l.Names k c) → l.Known s k c →
      Known { l with rosters := rs } s k c := by
    intro s k c hn hk
    show match (l.service s).source with
      | .scopes => l.Opened ⟨k, c⟩
      | .roster _ => k ∈ (l.context c).published ∧ Awake { l with rosters := rs } k c
    unfold Known at hk
    cases hsource : (l.service s).source with
    | scopes => rw [hsource] at hk; exact hk
    | roster r => rw [hsource] at hk; exact ⟨hk.1, ha k c (hn r hsource) hk.2⟩
  exact { h with
    thread := fun t =>
      { h.thread t with
        recent := fun e he =>
          ⟨((h.thread t).recent e he).1,
            hknown _ _ _ (fun r hr => .recent hr he) ((h.thread t).recent e he).2⟩ }
    mapped := hm
    slot := fun s i k c hc => hknown s k c (fun r hr => .slot hr hc) (h.slot s i k c hc) }

theorem Sound.setFutures (h : Sound l) (fs : Table Future)
    (hf : ∀ f, (∀ p ∈ (fs.get f).polls, l.Serves p.charges) ∧ l.Serves (fs.get f).onDrop) :
    Sound { l with futures := fs } :=
  { h with
    thread := fun t => { h.thread t with }
    future_requests := hf }

theorem Sound.setAllocators (h : Sound l) (ms : Table Allocator)
    (hm : ∀ m s, .adapter s ∈ (ms.get m).table.filled → s < l.services.size) :
    Sound { l with allocators := ms } :=
  { h with
    thread := fun t => { h.thread t with }
    hook_services := hm }

theorem Sound.setNumbers (h : Sound l) (heap : Directory Address Block) {nextTask : Nat} (nextThread : Nat)
    (deadKeys : List TaskKey) (orphans : List Account) (hn : l.nextTask ≤ nextTask) :
    Sound { l with heap, nextTask, nextThread, deadKeys, orphans } :=
  { h with
    thread := fun t => { h.thread t with }
    opened := fun a ha =>
      ⟨(h.opened a ha).1, Nat.lt_of_lt_of_le (h.opened a ha).2.1 hn, (h.opened a ha).2.2⟩ }

end

end Ledger

end HeapLedger
