import HeapLedger.Proofs.Nested

/-!
# Re-entrancy is harmless

A charge that is made inside the hook is skipped at once. So it makes no difference whether the charges that
trackers make meanwhile are skipped without further ado, or are tried like any other: the thread is inside the hook
for as long as an amount travels up. All that comes of them is that they are counted.
-/

namespace HeapLedger

open Ledger

variable {α : Type}

namespace Ledger

/-! ## Nested charges that are tried -/

section
variable (respond : Responder) (l : Ledger) (t : ThreadId) (s : ServiceId)

def chargeContextWith (c : ContextId) (d : Delta) (charge : Charge) : Ledger × Charge :=
  if (l.context c).initialized then
    let r := l.conclude t s d (some c) charge
    (r.1.absorb respond t c d, r.2)
  else l.conclude t s d (some c) (.skipped .contextUninitialized)

def chargeThreadWith (d : Delta) : Ledger × Charge :=
  match (l.thread t).home with
  | .absent => l.park t s d
  | .closed => l.conclude t s d none (.skipped .threadExiting)
  | .settled owner c =>
    if owner = s then chargeContextWith respond l t s c d .thread
    else l.conclude t s d none (.skipped .foreignThreadContext)

def chargeTaskWith (k : TaskKey) (d : Delta) : Ledger × Charge :=
  let r := l.resolve t s k
  match r.2 with
  | none => r.1.conclude t s d none (.skipped .taskContextAbsent)
  | some c => chargeContextWith respond r.1 t s c d (.task k)

def chargeInHookWith (d : Delta) : Ledger × Charge :=
  match l.activeTask t s with
  | some k => chargeTaskWith respond l t s k d
  | none => chargeThreadWith respond l t s d

def settleWith : Ledger × Bool :=
  match (l.thread t).home with
  | .absent =>
    let carried := (l.thread t).carriedFor s
    let c := l.contexts.size
    let l := l.newHome t s
    if carried = 0 ∨ l.inHook t then (l, true)
    else l.guarded t fun l => ((l.post (.carried t s c carried)).absorb respond t c carried, true)
  | _ => (l, false)

/-- A charge in whose course the charges of echoes are answered in some way. -/
def chargeWith (d : Delta) : Ledger × Charge :=
  if l.inHook t then refuse l t s d
  else
    let r := l.guarded t fun l => chargeInHookWith respond l t s d
    match r.2 with
    | .parked => ((settleWith respond r.1 t s).1, .parked)
    | .skipped reason => (r.1.countSkip s, .skipped reason)
    | _ => r

end

/-! ## Inside the hook they are skipped all the same -/

variable {l : Ledger} {t : ThreadId}

theorem foldl_of_inHook {f g : Ledger → α → Ledger} (hfg : ∀ l a, l.inHook t = true → f l a = g l a)
    (hg : ∀ a, KeepsHooks fun l => (g l a, ())) (h : l.inHook t = true) (as : List α) : as.foldl f l = as.foldl g l := by
  induction as generalizing l with
  | nil => rfl
  | cons a rest ih =>
    have hkeep : (g l a).inHook t = true := (congrArg Prod.fst (hg a l t)).trans h
    rw [List.foldl_cons, List.foldl_cons, hfg l a h]
    exact ih hkeep

theorem keepsHooks_refuse {f : Ledger → Ledger × α} (h : Built veil (Core t fun _ => True) f) : KeepsHooks f :=
  h.keepsHooks Core.keepsHooks

theorem answer_of_inHook (h : l.inHook t = true) (name : String) (r : Request) :
    answer charge t name l r = answer refuse t name l r := by
  unfold answer
  rw [charge_of_inHook h]

theorem deliver_of_inHook (h : l.inHook t = true) (b : Delta) (i : TrackerId) :
    deliver charge t b l i = deliver refuse t b l i := by
  have hanswers : ∀ {l : Ledger} (e : Echo), l.inHook t = true →
      e.charges.foldl (answer charge t e.name) l = e.charges.foldl (answer refuse t e.name) l := fun e h =>
    foldl_of_inHook (fun _ r h => answer_of_inHook h e.name r)
      (fun r => keepsHooks_refuse ((replies_refuse t).answer e.name r)) h e.charges
  unfold deliver
  cases (l.tracker i).kind with
  | counter label totals => rfl
  | echo e =>
    dsimp only
    cases e.spend? with
    | none => rfl
    | some e' => exact hanswers e h

theorem propagate_of_inHook (h : l.inHook t = true) (i : TrackerId) (b : Delta) :
    propagate charge l t i b = propagate refuse l t i b :=
  foldl_of_inHook (fun _ i h => deliver_of_inHook h b i)
    (fun i => keepsHooks_refuse ((replies_refuse t).deliver b i)) h (l.route i)

theorem commit_of_inHook (h : l.inHook t = true) (c : ContextId) (b : Delta) :
    commit charge l t c b = commit refuse l t c b :=
  propagate_of_inHook (l := l.post (.committed c b)) h _ b

theorem absorb_of_inHook (h : l.inHook t = true) (c : ContextId) (d : Delta) :
    absorb charge l t c d = absorb refuse l t c d := by
  let l₁ := l.modifyContext c fun ctx => { ctx with cache := ((l.context c).cache.consume d).1 }
  unfold absorb
  dsimp only
  split
  · rfl
  · exact commit_of_inHook (l := l₁) h c _

theorem flush_of_inHook (h : l.inHook t = true) (c : ContextId) : flush charge l t c = flush refuse l t c :=
  let l₁ := (l.post (.flushed c)).modifyContext c fun ctx => { ctx with cache := (l.context c).cache.take.1 }
  congrArg (·, (l.context c).cache.take.2) (commit_of_inHook (l := l₁) h c _)

theorem flushHome_of_inHook (h : l.inHook t = true) (s : ServiceId) :
    flushHome charge l t s = flushHome refuse l t s := by
  unfold flushHome
  split
  · rfl
  · rw [flush_of_inHook h]

variable (s : ServiceId) (d : Delta)

theorem chargeContextWith_charge (h : l.inHook t = true) (c : ContextId) (a : Charge) :
    chargeContextWith charge l t s c d a = l.chargeContext t s c d a := by
  unfold chargeContextWith chargeContext
  split
  · exact congrArg (·, a) (absorb_of_inHook (l := (l.conclude t s d (some c) a).1) h c d)
  · rfl

theorem chargeTaskWith_charge (h : l.inHook t = true) (k : TaskKey) :
    chargeTaskWith charge l t s k d = l.chargeTask t s k d := by
  have hresolve : (l.resolve t s k).1.inHook t = true :=
    (congrArg Prod.fst (flags_of_veil (veil_resolve l t s k) t)).trans h
  unfold chargeTaskWith chargeTask
  dsimp only
  cases (l.resolve t s k).2 with
  | none => rfl
  | some c => exact chargeContextWith_charge s d hresolve c _

theorem chargeThreadWith_charge (h : l.inHook t = true) :
    chargeThreadWith charge l t s d = l.chargeThread t s d := by
  unfold chargeThreadWith chargeThread
  cases (l.thread t).home with
  | absent | closed => rfl
  | settled owner c =>
    dsimp only
    rw [chargeContextWith_charge s d h]

theorem chargeInHookWith_charge (h : l.inHook t = true) :
    chargeInHookWith charge l t s d = l.chargeInHook t s d := by
  unfold chargeInHookWith chargeInHook
  cases l.activeTask t s with
  | some k => exact chargeTaskWith_charge s d h k
  | none => exact chargeThreadWith_charge s d h

/-- A section inside the hook is not told from another one that is the same there. -/
theorem guarded_of_inHook {f g : Ledger → Ledger × α} (ht : t < l.threads.size)
    (hfg : ∀ {l : Ledger}, l.inHook t = true → f l = g l) : l.guarded t f = l.guarded t g := by
  have hinside : (l.setInHook t true).inHook t = true := by
    rw [inHook, setInHook, thread_modifyThread, if_pos ⟨rfl, ht⟩]
  unfold guarded
  rw [hfg hinside]

/-- Only a thread that is there carries anything. -/
theorem lt_of_carriedFor (h : (l.thread t).carriedFor s ≠ 0) : t < l.threads.size :=
  Table.lt_size_of_get (·.carriedFor s ≠ 0) (fun hn => hn rfl) h

theorem settleWith_charge : settleWith charge l t s = l.settle t s := by
  unfold settleWith settle
  cases (l.thread t).home with
  | absent =>
    dsimp only
    split
    · rfl
    · rename_i hc
      have ht : t < (l.newHome t s).threads.size :=
        (threads_size_modifyThread l t _).symm ▸ lt_of_carriedFor s fun h => hc (.inl h)
      exact guarded_of_inHook ht fun h => by rw [absorb_of_inHook (l := post _ _) h]
  | settled | closed => rfl

theorem chargeWith_charge (ht : t < l.threads.size) : chargeWith charge l t s d = l.charge t s d := by
  have hguarded : (l.guarded t fun l => chargeInHookWith charge l t s d) = l.guarded t (·.chargeInHook t s d) :=
    guarded_of_inHook ht fun h => chargeInHookWith_charge s d h
  unfold chargeWith
  simp only [hguarded, settleWith_charge]
  rfl

theorem flushThread_of_lt (ht : t < l.threads.size) : l.flushThread t s =
    if l.inHook t then (l, none) else l.guarded t fun l => flushHome refuse l t s := by
  unfold flushThread
  rw [guarded_of_inHook ht fun h => flushHome_of_inHook h s]

theorem flushHome_mutes : Mutes fun l => flushHome refuse l t s := by
  have hflush : ∀ home : Option ContextId, Mutes fun l =>
      match home with
      | none => (l, none)
      | some c =>
        let r := l.flush refuse t c
        (r.1, some r.2) := by
    intro home
    cases home with
    | none => exact .done none
    | some c => exact (flush_mutes t c).map some
  exact (Mutes.read (·.homeOf t s) (fun l => by unfold homeOf; rw [home_shroud]) hflush :)

theorem flushThread_harmless (ht : t < l.threads.size) : l.Harmless fun l => l.flushThread t s := by
  have hmutes : Mutes fun l => if l.inHook t then (l, none) else l.guarded t fun l => flushHome refuse l t s :=
    .guarded t (flushHome_mutes s) (.done none)
  have hharmless := hmutes.harmless l
  unfold Harmless at hharmless ⊢
  dsimp only at hharmless ⊢
  rwa [flushThread_of_lt s ht, flushThread_of_lt (l := l.mute) s ht]

end Ledger

/-- Whatever the ledger, and whatever charges trackers make meanwhile. A charge inside the hook is skipped, and the
service counts it, and nothing else happens. A charge that is tried while an amount travels up inside the hook is
such a one. So what is done inside the hook ends in the same ledger and with the same answer as if trackers made no
charges, but for what is skipped. Nothing that is done on a thread lets any thread into the hook or out of it, but
for a thread that keeps itself there, and one that cannot enter lets nobody out. -/
theorem reentrancy_harmless {l : Ledger} {t : ThreadId} (ht : t < l.threads.size) :
    (∀ s d, l.inHook t = true → l.charge t s d =
      ({ l with services := l.services.modify s fun svc => { svc with skipped := svc.skipped + 1 } },
        .skipped .reentrant)) ∧
    (∀ s, l.settleWith charge t s = l.settle t s ∧ ∀ d, l.chargeWith charge t s d = l.charge t s d) ∧
    (∀ s, l.Harmless (·.settle t s) ∧ l.Harmless (·.flushThread t s) ∧
      ∀ d, l.Harmless (·.charge t s d) ∧ l.Harmless (·.chargeBare t s d)) ∧
    (∀ a, a ≠ .exit → a ≠ .guard → a ≠ .unguard → ∀ j, (l.perform t a).1.flags j = l.flags j) ∧
    (l.inHook t = true → l.guardThread t = (l, false)) ∧
    ((l.thread t).holdsGuard = false → l.unguardThread t = (l, false)) ∧
    ∀ j, (l.exit t).flags j = if j = t ∧ (l.thread t).holdsGuard then (false, false) else l.flags j := by
  refine ⟨fun s d h => charge_of_inHook h s d, fun s => ⟨settleWith_charge s, fun d => chargeWith_charge s d ht⟩,
    fun s => ⟨(settle_mutes t s).harmless l, flushThread_harmless s ht, fun d => ⟨?_, ?_⟩⟩, ?_, ?_, ?_, flags_exit t l⟩
  · exact (charge_mutes t s d).harmless l
  · exact (chargeBare_mutes t s d).harmless l
  · exact fun a he hg hu => perform_keepsHooks t he hg hu l
  · exact fun h => by rw [guardThread, if_pos h]
  · exact fun h => by rw [unguardThread, if_neg (h ▸ Bool.false_ne_true)]

def echoing : Ledger :=
  let l := (perform (newThread {}).1 0 (.newEcho "echo" none)).1
  let l := (l.perform 0 (.newService { threshold := 0, tracker := some 0 })).1
  (l.perform 0 (.bindEcho 0 [⟨0, 3⟩] none)).1

theorem reentrancy_harmless_echoing :
    (echoing.charge 0 0 7).2 = .parked ∧ (echoing.charge 0 0 7).1.answers = [.skipped .reentrant] ∧
      echoing.Harmless (·.charge 0 0 7) := by
  obtain ⟨-, -, hharmless, -⟩ := reentrancy_harmless (l := echoing) (t := 0) (by decide)
  exact ⟨by decide, by decide, ((hharmless 0).2.2 7).1⟩

end HeapLedger
