import HeapLedger.Proofs.Agree
import HeapLedger.Proofs.Attribution
import HeapLedger.Proofs.Calm
import HeapLedger.Proofs.Shares

/-!
# A thread in two ledgers

A thread that finds two ledgers the same does the same in both: it is told the same, finds them the same afterwards, has
left alone what is not its own, and has raised what is shared by as much.
-/

namespace HeapLedger

open Ledger

namespace Ledger

/-- A thread has come from `l₀` to `l` as from `l₀'` to `l'`, and finds these the same. -/
structure Abreast (t : ThreadId) (P : Account → Prop) (l₀ l₀' l l' : Ledger) : Prop where
  placed : Placed t P l
  placed' : Placed t P l'
  same : SameTo t P l l'
  kept : KeepsTo t P l₀' l'
  step : InStep l₀ l₀' l l'

variable {l l' m m' l₀ l₀' : Ledger} {t : ThreadId} {P : Account → Prop} {s : ServiceId} {c c' : ContextId}
  {respond : Responder}

section
variable (h : Abreast t P l₀ l₀' l l')

include h

theorem Abreast.go (hk : KeepsTo t P l m) (hk' : KeepsTo t P l' m') (hs : SameTo t P m m')
    (hi : InStep l l' m m') : Abreast t P l₀ l₀' m m' where
  placed := h.placed.keeps hk
  placed' := h.placed'.keeps hk'
  same := hs
  kept := h.kept.trans hk'
  step := h.step.trans hi

/-! ## Single changes -/

theorem Abreast.post (e e' : Entry) : Abreast t P l₀ l₀' (l.post e) (l'.post e') :=
  h.go (keepsTo_post ..) (keepsTo_post ..) (h.same.post e e') (.still rfl rfl)

theorem Abreast.modifyThread {f : Thread → Thread} (hw : ∀ th, (f th).worker = th.worker)
    (hf : ∀ th x, f { th with home := x } = { f th with home := x })
    (hs : ∀ th, (∀ sc ∈ th.scopes, P sc.account) → ∀ sc ∈ (f th).scopes, P sc.account) :
    Abreast t P l₀ l₀' (l.modifyThread t f) (l'.modifyThread t f) := by
  have hkeeps : ∀ l : Ledger, KeepsTo t P l (l.modifyThread t f) := fun l =>
    keepsTo_modifyThread l t P hw (fun th => (congrArg Thread.home (hf th th.home) :)) hs
  exact h.go (hkeeps l) (hkeeps l') (h.same.modifyThread hw hf) (.still rfl rfl)

theorem Abreast.setInHook (b : Bool) : Abreast t P l₀ l₀' (l.setInHook t b) (l'.setInHook t b) :=
  h.modifyThread (fun _ => rfl) (fun _ _ => rfl) fun _ hs => hs

theorem Abreast.modifyContext (hc : Counterpart t P l l' c c') {f : Context → Context}
    (hf : ∀ ctx x, f { ctx with identity := x } = { f ctx with identity := x }) :
    Abreast t P l₀ l₀' (l.modifyContext c f) (l'.modifyContext c' f) := by
  have hbooks : ∀ (l : Ledger) c, (l.modifyContext c f).books = l.books := fun l c =>
    congrArg (fun contexts => { l.books with contexts }) (contexts_size_modifyContext ..)
  have hkeeps : ∀ ctx, (f ctx).identity = ctx.identity := fun ctx =>
    (congrArg Context.identity (hf ctx ctx.identity) :)
  exact h.go (keepsTo_modifyContext l t P hc.left hkeeps) (keepsTo_modifyContext l' t P hc.right hkeeps)
    (h.same.modifyContext h.placed h.placed' hc hf) (.still (hbooks ..) (hbooks ..))

theorem Abreast.modifyService (s : ServiceId) (looked skipped : Nat) {f : Service → Service}
    (hf : ∀ svc, f svc = { svc with lookups := svc.lookups + looked, skipped := svc.skipped + skipped }) :
    Abreast t P l₀ l₀' (l.modifyService s f) (l'.modifyService s f) := by
  have hplain : ∀ svc, (f svc).plain = svc.plain := fun svc => by rw [hf]; rfl
  have hslots : ∀ svc, (f svc).slots = svc.slots := fun svc => by rw [hf]
  exact h.go (keepsTo_modifyService l t P s hplain hslots) (keepsTo_modifyService l' t P s hplain hslots)
    (h.same.modifyService s hplain hslots)
    (h.same.inStep_modifyService s (fun svc => by rw [hf]) fun svc => by rw [hf])

theorem Abreast.countSkip (s : ServiceId) : Abreast t P l₀ l₀' (l.countSkip s) (l'.countSkip s) :=
  h.modifyService s 0 1 fun _ => rfl

theorem Abreast.newHome (ht : t < l.threads.size) (hh : (l.thread t).home = .absent) (s : ServiceId) :
    Abreast t P l₀ l₀' (l.newHome t s) (l'.newHome t s) :=
  h.go (keepsTo_newHome l t P ht hh)
    (keepsTo_newHome l' t P (lt_of_lt_of_eq ht h.same.threads_size.symm) (h.same.absent hh))
    (h.same.newHome h.placed h.placed' ht hh s) (inStep_newHome ..)

/-! ## Commits -/

theorem Abreast.propagate (i : TrackerId) (b : Delta) :
    Abreast t P l₀ l₀' (propagate respond l t i b) (propagate respond l' t i b) := by
  have hdeliver : ∀ i, AgreeOnly (Abreast t P l₀ l₀') (deliver respond t b · i) (deliver respond t b · i) := by
    intro i
    refine .of_keeps fun l l' h => ?_
    exact h.go (keepsTo_deliver l t P h.placed.counts respond b i) (keepsTo_deliver l' t P h.placed'.counts respond b i)
      (h.same.deliver h.placed.counts respond b i) (h.same.inStep_deliver h.placed.counts respond b i)
  unfold Ledger.propagate
  rw [h.same.toFrozen.route]
  exact (AgreeOnly.foldl hdeliver (l.route i)).keeps h

theorem Abreast.commit (hc : Counterpart t P l l' c c') (b : Delta) :
    Abreast t P l₀ l₀' (commit respond l t c b) (commit respond l' t c' b) := by
  have htracker : (l'.context c').tracker = (l.context c).tracker := (congrArg Context.tracker (h.same.like hc) :)
  unfold Ledger.commit
  rw [htracker]
  exact (h.post _ _).propagate _ b

theorem Abreast.setCache (hc : Counterpart t P l l' c c') (cache : Cache) :
    Abreast t P l₀ l₀' (l.modifyContext c fun ctx => { ctx with cache })
        (l'.modifyContext c' fun ctx => { ctx with cache }) ∧
      Counterpart t P (l.modifyContext c fun ctx => { ctx with cache })
        (l'.modifyContext c' fun ctx => { ctx with cache }) c c' :=
  ⟨h.modifyContext hc fun _ _ => rfl, hc.keeps (keepsTo_modifyContext l t P hc.left fun _ => rfl)
    (keepsTo_modifyContext l' t P hc.right fun _ => rfl)⟩

theorem Abreast.absorb (hc : Counterpart t P l l' c c') (d : Delta) :
    Abreast t P l₀ l₀' (l.absorb respond t c d) (l'.absorb respond t c' d) := by
  have hcache : (l'.context c').cache = (l.context c).cache := (congrArg Context.cache (h.same.like hc) :)
  obtain ⟨hset, hcset⟩ := h.setCache hc ((l.context c).cache.consume d).1
  unfold Ledger.absorb
  rw [hcache]
  dsimp only
  split
  · exact hset
  · exact hset.commit hcset _

theorem Abreast.flush (respond : Responder) (hc : Counterpart t P l l' c c') :
    Abreast t P l₀ l₀' (l.flush respond t c).1 (l'.flush respond t c').1 ∧
      (l.flush respond t c).2 = (l'.flush respond t c').2 := by
  have hcache : (l'.context c').cache = (l.context c).cache := (congrArg Context.cache (h.same.like hc) :)
  have hpost := h.post (.flushed c) (.flushed c')
  have hcpost := hc.keeps (keepsTo_post l t P (.flushed c)) (keepsTo_post l' t P (.flushed c'))
  obtain ⟨hset, hcset⟩ := hpost.setCache hcpost (l.context c).cache.take.1
  unfold Ledger.flush
  rw [hcache]
  exact ⟨hset.commit hcset _, rfl⟩

/-! ## Resolution -/

theorem Abreast.boundSlot (s : ServiceId) : l'.boundSlot t s = l.boundSlot t s :=
  h.same.read (fun th => th.worker.bind fun w => if w.service = s then some w.slot else none) fun _ _ => rfl

theorem Abreast.reused (s : ServiceId) (k : TaskKey) : l'.reused t s k = l.reused t s k := by
  have hremembered : l'.remembered t s k = l.remembered t s k := by
    unfold Ledger.remembered
    rw [h.boundSlot]
    cases hb : l.boundSlot t s with
    | none => exact h.same.read (·.recall? s k) fun _ _ => rfl
    | some i => exact congrArg (Slot.recall? · k) (h.same.slot s i (worker_of_boundSlot hb))
  unfold Ledger.reused
  rw [h.same.recalls, hremembered]

theorem Abreast.memorize (k : TaskKey) (answer : Option ContextId) :
    Abreast t P l₀ l₀' (l.memorize t s k answer) (l'.memorize t s k answer) := by
  rw [memorize_eq, memorize_eq, h.boundSlot]
  cases hb : l.boundSlot t s with
  | none =>
    cases answer with
    | none => exact h
    | some c => exact h.modifyThread (fun _ => rfl) (fun _ _ => rfl) fun _ hs => hs
  | some i =>
    have hw := worker_of_boundSlot hb
    have hw' : (l'.thread t).worker = some ⟨s, i⟩ := (h.same.read Thread.worker fun _ _ => rfl).trans hw
    have hbooks : ∀ (l : Ledger) f, (l.modifySlot s i f).books = l.books := by
      intro l f
      have hlookups : ∀ j, ((l.modifySlot s i f).service j).lookups = (l.service j).lookups := fun j =>
        Table.get_modify_of_eq _ s j Service.lookups fun _ => rfl
      have hskipped : ∀ j, ((l.modifySlot s i f).service j).skipped = (l.service j).skipped := fun j =>
        Table.get_modify_of_eq _ s j Service.skipped fun _ => rfl
      simp only [books, hlookups, hskipped]
      rfl
    exact h.go (keepsTo_modifySlot l t P hw _) (keepsTo_modifySlot l' t P hw' _) (h.same.modifySlot hw _)
      (.still (hbooks ..) (hbooks ..))

section
variable (hs : (l.service s).source = .scopes)

include hs

theorem Abreast.taskContext (k : TaskKey) : l'.taskContext t s k = l.taskContext t s k := by
  unfold Ledger.taskContext
  rw [h.same.toFrozen.source, hs]
  exact h.same.read (fun th => th.active.bind fun a => if a.key = k then some a.context else none) fun _ _ => rfl

theorem Abreast.activeTask : l'.activeTask t s = l.activeTask t s := by
  unfold Ledger.activeTask
  rw [h.same.toFrozen.source, hs]
  exact h.same.read (fun th => th.active.map (·.key)) fun _ _ => rfl

theorem Abreast.resolve (k : TaskKey) :
    Abreast t P l₀ l₀' (l.resolve t s k).1 (l'.resolve t s k).1 ∧ (l.resolve t s k).2 = (l'.resolve t s k).2 := by
  have hseek : Abreast t P l₀ l₀' (l.seek t s k).1 (l'.seek t s k).1 ∧ (l.seek t s k).2 = (l'.seek t s k).2 := by
    unfold Ledger.seek
    rw [h.reused]
    cases l.reused t s k with
    | some c => exact ⟨h, rfl⟩
    | none =>
      have hlookup := h.modifyService s 1 0 fun _ => rfl
      unfold Ledger.lookup
      rw [h.taskContext hs]
      exact ⟨hlookup.memorize k _, rfl⟩
  exact ⟨hseek.1.post _ _, hseek.2⟩

end

/-! ## Charges inside the hook -/

theorem Abreast.chargeContext (hc : Counterpart t P l l' c c') (d : Delta) (charge : Charge) :
    Abreast t P l₀ l₀' (l.chargeContext t s c d charge).1 (l'.chargeContext t s c' d charge).1 ∧
      (l.chargeContext t s c d charge).2 = (l'.chargeContext t s c' d charge).2 := by
  have hinit : (l'.context c').initialized = (l.context c).initialized :=
    (congrArg Context.initialized (h.same.like hc) :)
  unfold Ledger.chargeContext
  rw [hinit]
  split
  · refine ⟨(h.post _ _).absorb ?_ d, rfl⟩
    exact hc.keeps (keepsTo_post ..) (keepsTo_post ..)
  · exact ⟨h.post _ _, rfl⟩

theorem Abreast.park (d : Delta) :
    Abreast t P l₀ l₀' (l.park t s d).1 (l'.park t s d).1 ∧ (l.park t s d).2 = (l'.park t s d).2 := by
  have hparked : ∀ carry : Carry, Abreast t P l₀ l₀' (l.modifyThread t fun th => { th with carry := some carry })
      (l'.modifyThread t fun th => { th with carry := some carry }) :=
    fun carry => h.modifyThread (fun _ => rfl) (fun _ _ => rfl) fun _ hs => hs
  unfold Ledger.park
  rw [h.same.read Thread.carry fun _ _ => rfl]
  split
  · split
    · exact ⟨(hparked _).post _ _, rfl⟩
    · exact ⟨h.post _ _, rfl⟩
  · exact ⟨(hparked _).post _ _, rfl⟩

theorem Abreast.chargeThread (d : Delta) :
    Abreast t P l₀ l₀' (l.chargeThread t s d).1 (l'.chargeThread t s d).1 ∧
      (l.chargeThread t s d).2 = (l'.chargeThread t s d).2 := by
  have hhome := h.same.home
  unfold Ledger.chargeThread
  cases hh : (l.thread t).home <;> cases hh' : (l'.thread t).home <;> rw [hh, hh'] at hhome <;> cases hhome
  · exact h.park d
  · rename_i owner c c' hlike
    dsimp only
    split
    · exact h.chargeContext (.home hh hh') d .thread
    · exact ⟨h.post _ _, rfl⟩
  · exact ⟨h.post _ _, rfl⟩

end

def FindsOwn (l : Ledger) (t : ThreadId) (P : Account → Prop) (s : ServiceId) : Prop :=
  ∀ k, l.activeTask t s = some k → ∀ c, l.resolved t s k = some c → ∃ a, P a ∧ a.context = c

section
variable (h : Abreast t P l₀ l₀' l l') (hs : (l.service s).source = .scopes) (hf : FindsOwn l t P s)

include h hs hf

theorem Abreast.chargeInHook (d : Delta) :
    Abreast t P l₀ l₀' (l.chargeInHook t s d).1 (l'.chargeInHook t s d).1 ∧
      (l.chargeInHook t s d).2 = (l'.chargeInHook t s d).2 := by
  unfold Ledger.chargeInHook
  rw [h.activeTask hs]
  cases hk : l.activeTask t s with
  | none => exact h.chargeThread d
  | some k =>
    obtain ⟨hresolve, hsame⟩ := h.resolve hs k
    have hfound : ∀ c, (l.resolve t s k).2 = some c → ∃ a, P a ∧ a.context = c := fun c hc =>
      hf k hk c ((seek_snd k).symm.trans hc)
    simp only [Ledger.chargeTask]
    rw [← hsame]
    generalize (l.resolve t s k).2 = found at hfound
    cases found with
    | none => exact ⟨hresolve.post _ _, rfl⟩
    | some c =>
      obtain ⟨a, ha, rfl⟩ := hfound c rfl
      exact hresolve.chargeContext (.account ha) d (.task k)

end

/-! ## Charges and flushes -/

theorem findsOwn_setInHook {b : Bool} (hf : FindsOwn l t P s) : FindsOwn (l.setInHook t b) t P s := by
  intro k hk c hc
  rw [activeTask_setInHook] at hk
  rw [resolved_setInHook] at hc
  exact hf k hk c hc

section
variable (h : Abreast t P l₀ l₀' l l')

include h

theorem Abreast.inHook : l'.inHook t = l.inHook t := h.same.read Thread.inHook fun _ _ => rfl

theorem Abreast.settle (ht : t < l₀'.threads.size) (s : ServiceId) :
    Abreast t P l₀ l₀' (l.settle t s).1 (l'.settle t s).1 ∧ (l.settle t s).2 = (l'.settle t s).2 := by
  have ht' : t < l'.threads.size := lt_of_lt_of_eq ht h.kept.threads_size.symm
  have ht : t < l.threads.size := lt_of_lt_of_eq ht' h.same.threads_size
  by_cases hh : (l.thread t).home = .absent
  · have hh' := h.same.absent hh
    have hnew := h.newHome ht hh s
    have hcarried : (l'.thread t).carriedFor s = (l.thread t).carriedFor s :=
      h.same.read (·.carriedFor s) fun _ _ => rfl
    have hhome := home_newHome (s := s) ht
    have hhome' := home_newHome (s := s) ht'
    refine ⟨?_, (settle_of_absent hh).1.trans (settle_of_absent hh').1.symm⟩
    unfold Ledger.settle
    rw [hh, hh']
    dsimp only
    rw [hcarried, hnew.inHook]
    split
    · exact hnew
    · have hpost := (hnew.setInHook true).post (.carried t s l.contexts.size ((l.thread t).carriedFor s))
        (.carried t s l'.contexts.size ((l.thread t).carriedFor s))
      have hc : Counterpart t P ((l.newHome t s).setInHook t true) ((l'.newHome t s).setInHook t true) l.contexts.size
          l'.contexts.size := .home ((home_setInHook true t).trans hhome) ((home_setInHook true t).trans hhome')
      exact (hpost.absorb (hc.keeps (keepsTo_post ..) (keepsTo_post ..)) _).setInHook false
  · have hh' : (l'.thread t).home ≠ .absent := fun he => hh (h.same.symm.absent he)
    rw [settle_of_present hh, settle_of_present hh']
    exact ⟨h, rfl⟩

theorem Abreast.charge (hs : (l.service s).source = .scopes) (hf : FindsOwn l t P s) (ht : t < l₀'.threads.size)
    (d : Delta) :
    Abreast t P l₀ l₀' (l.charge t s d).1 (l'.charge t s d).1 ∧ (l.charge t s d).2 = (l'.charge t s d).2 := by
  obtain ⟨hinside, hsame⟩ := (h.setInHook true).chargeInHook hs (findsOwn_setInHook hf) d
  have hguarded : Abreast t P l₀ l₀' (l.guarded t (·.chargeInHook t s d)).1
      (l'.guarded t (·.chargeInHook t s d)).1 :=
    hinside.setInHook false
  have hsame : (l.guarded t (·.chargeInHook t s d)).2 = (l'.guarded t (·.chargeInHook t s d)).2 := hsame
  unfold Ledger.charge
  rw [h.inHook]
  split
  · exact ⟨h.countSkip s, rfl⟩
  · dsimp only
    rw [← hsame]
    split
    · exact ⟨(hguarded.settle ht s).1, rfl⟩
    · exact ⟨hguarded.countSkip s, rfl⟩
    · exact ⟨hguarded, hsame⟩

theorem Abreast.flushHome (respond : Responder) (s : ServiceId) :
    Abreast t P l₀ l₀' (l.flushHome respond t s).1 (l'.flushHome respond t s).1 ∧
      (l.flushHome respond t s).2 = (l'.flushHome respond t s).2 := by
  have hhome := h.same.home
  unfold Ledger.flushHome homeOf
  cases hh : (l.thread t).home <;> cases hh' : (l'.thread t).home <;> rw [hh, hh'] at hhome <;> cases hhome
  · exact ⟨h, rfl⟩
  · rename_i owner c c' hlike
    dsimp only
    by_cases ho : owner = s
    · rw [if_pos ho, if_pos ho]
      obtain ⟨hflush, hsame⟩ := h.flush respond (.home hh hh')
      exact ⟨hflush, congrArg some hsame⟩
    · rw [if_neg ho, if_neg ho]
      exact ⟨h, rfl⟩
  · exact ⟨h, rfl⟩

theorem Abreast.flushThread (s : ServiceId) :
    Abreast t P l₀ l₀' (l.flushThread t s).1 (l'.flushThread t s).1 ∧
      (l.flushThread t s).2 = (l'.flushThread t s).2 := by
  obtain ⟨hinside, hsame⟩ := (h.setInHook true).flushHome Ledger.charge s
  unfold Ledger.flushThread
  rw [h.inHook]
  split
  · exact ⟨h, rfl⟩
  · exact ⟨hinside.setInHook false, hsame⟩

/-! ## Scopes -/

theorem Abreast.enter {a : Account} (ha : P a) : Abreast t P l₀ l₀' (l.enter t a) (l'.enter t a) := by
  refine h.modifyThread (fun _ => rfl) (fun _ _ => rfl) fun th hs sc hsc => ?_
  rcases List.mem_cons.mp hsc with rfl | hsc
  · exact ha
  · exact hs sc hsc

theorem Abreast.leave : Abreast t P l₀ l₀' (l.leave t) (l'.leave t) := by
  refine h.modifyThread (f := Thread.leave) ?_ ?_ ?_
  · intro th
    unfold Thread.leave
    split <;> rfl
  · intro th x
    unfold Thread.leave
    dsimp only
    split <;> rfl
  · intro th hs sc hsc
    unfold Thread.leave at hsc
    split at hsc
    · exact hs sc hsc
    · rename_i outer rest hscopes
      exact hs sc (hscopes ▸ List.mem_cons_of_mem _ hsc)

theorem Abreast.inScope {a : Account} (ha : P a) : l'.inScope a = l.inScope a := by
  have hany : ∀ j, (l'.thread j).scopes.any (·.account = a) = (l.thread j).scopes.any (·.account = a) := by
    intro j
    by_cases hj : j = t
    · subst hj
      exact h.same.read (fun th => th.scopes.any (·.account = a)) fun _ _ => rfl
    · exact h.same.elsewhere a ha j hj
  have hiff : ∀ l : Ledger, l.inScope a = false ↔ ∀ j, (l.thread j).scopes.any (·.account = a) = false := by
    intro l
    rw [inScope_eq_false_iff]
    refine forall_congr' fun j => ?_
    simp
  refine Bool.eq_iff_iff.mpr ?_
  rw [← not_iff_not, Bool.not_eq_true, Bool.not_eq_true, hiff, hiff]
  exact forall_congr' fun j => by rw [hany]

theorem Abreast.closeAccount {a : Account} (ha : P a) :
    Abreast t P l₀ l₀' (l.closeAccount t a) (l'.closeAccount t a) := by
  have hnotice := h.post (.notice (.accountClosed a.key (l.context a.context).pending))
    (.notice (.accountClosed a.key (l'.context a.context).pending))
  have hclosed := hnotice.modifyContext (.account ha) (f := fun ctx => { ctx with closed := true }) fun _ _ => rfl
  exact (hclosed.flush Ledger.charge (.account ha)).1

theorem Abreast.closeOrphan {a : Account} (ha : P a) :
    Abreast t P l₀ l₀' (l.closeOrphan t a) (l'.closeOrphan t a) := by
  have hcontains : l'.orphans.contains a = l.orphans.contains a := by
    refine Bool.eq_iff_iff.mpr ?_
    rw [List.contains_iff_mem, List.contains_iff_mem, ← List.count_pos_iff, ← List.count_pos_iff,
      h.same.orphans a ha]
  have herased : Abreast t P l₀ l₀' { l with orphans := l.orphans.erase a }
      { l' with orphans := l'.orphans.erase a } :=
    h.go (keepsTo_eraseOrphan l t P ha) (keepsTo_eraseOrphan l' t P ha) h.same.eraseOrphan (.still rfl rfl)
  unfold Ledger.closeOrphan
  rw [hcontains, h.inScope ha]
  split
  · exact herased.closeAccount ha
  · exact h

theorem Abreast.leaveScope : Abreast t P l₀ l₀' (l.leaveScope t) (l'.leaveScope t) := by
  unfold Ledger.leaveScope
  rw [h.same.read Thread.scopes fun _ _ => rfl]
  cases hsc : (l.thread t).scopes with
  | nil => exact h
  | cons sc rest => exact h.leave.closeOrphan (h.placed.scopes sc (hsc ▸ List.mem_cons_self ..))

end

theorem unwind_abreast : ∀ n : Nat, AgreeOnly (Abreast t P l₀ l₀') (·.unwind t n) (·.unwind t n)
  | 0 => .done ()
  | n + 1 => (AgreeOnly.of_keeps fun _ _ h => h.leaveScope).seq (unwind_abreast n)

end Ledger

end HeapLedger
