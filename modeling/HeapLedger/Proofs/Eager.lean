import HeapLedger.Proofs.Lifecycle
import HeapLedger.Proofs.Reentrancy
import HeapLedger.Proofs.Unread
import HeapLedger.Proofs.Written

/-!
# Early and late contexts

The first charge of a thread creates the thread's context on its way. Had the context been created before, the
same amount would have been taken in by the same context, with the same commits. The two ways differ in where
the charge is said to have gone, and in nothing that comes after.
-/

namespace HeapLedger

open Ledger

variable {l : Ledger} {t : ThreadId} {s : ServiceId} {d : Delta}

namespace Ledger

/-! ## Taking in an amount -/

/-- Nothing comes of an amount of zero in a context where nothing is pending. -/
theorem absorb_zero {c : ContextId} (respond : Responder) (h : (l.context c).pending = 0) :
    l.absorb respond t c 0 = l := by
  have hsum : (l.context c).cache.pending.addClamped 0 = 0 := by
    rw [show (l.context c).cache.pending = 0 from h]
    rfl
  have hkeep : (l.context c).cache.exceeded ((l.context c).cache.pending.addClamped 0) = false := by
    rw [hsum]
    exact decide_eq_false (Nat.not_lt.mpr (Nat.zero_le _))
  have hcache : ({ (l.context c).cache with pending := 0 } : Cache) = (l.context c).cache := by
    rw [← show (l.context c).cache.pending = 0 from h]
  unfold absorb
  rw [Cache.consume_of_not_exceeded hkeep, hsum, hcache]
  have hcontexts : l.contexts.modify c (fun ctx => { ctx with cache := (l.context c).cache }) = l.contexts := by
    refine (Table.modify_congr ?_).trans (l.contexts.modify_id c)
    rfl
  exact congrArg (fun contexts => { l with contexts }) hcontexts

theorem section_zero {c : ContextId} (hn : l.inHook t = false) (h : (l.context c).pending = 0) (e : Entry) :
    (((l.setInHook t true).post e).absorb refuse t c 0).setInHook t false = l.post e := by
  have habsorb : ((l.setInHook t true).post e).absorb refuse t c 0 = (l.setInHook t true).post e := absorb_zero refuse h
  rw [habsorb]
  exact congrArg (·.post e) (setInHook_setInHook hn)

theorem agree_absorb {j j' : List Entry} (c : ContextId) (d : Delta) :
    AgreeOnly (Parted j j') (·.absorb refuse t c d) (·.absorb refuse t c d) :=
  ((replies_refuse (S := fun _ => True) t).absorb c d).unread_core

/-! ## The new context -/

theorem thread_newHome (ht : t < l.threads.size) : (l.newHome t s).thread t =
    { l.thread t with
      home := .settled s l.contexts.size, carry := none, destructors := .home :: (l.thread t).destructors } :=
  Table.get_modify_self _ ht

theorem context_newHome : (l.newHome t s).context l.contexts.size =
    { identity := .thread ⟨l.nextThread⟩, tracker := (l.service s).threadTracker
      cache := { threshold := (l.service s).threshold }, initialized := true } := by
  show (l.contexts.add _).get l.contexts.size = _
  rw [Table.get_add, if_pos rfl]

theorem activeTask_newHome (ht : t < l.threads.size) : (l.newHome t s).activeTask t s = l.activeTask t s := by
  have hactive : ((l.newHome t s).thread t).active = (l.thread t).active := by
    rw [thread_newHome ht]
  have hsource : ((l.newHome t s).service s).source = (l.service s).source := rfl
  simp only [activeTask, hactive, hsource]
  rfl

/-! ## What is written down -/

section
variable (l t s d)

def direct : Verdict := (l.newHome t s).verdict t s d (some l.contexts.size) .thread

def parked : Verdict := l.verdict t s d none .parked

/-- What is written down, the latest first, before a context that was created first takes the amount in. -/
def writtenEarly : List Entry := [.charged (l.direct t s d)]

def writtenLate : List Entry :=
  if d = 0 then [.charged (l.parked t s d)] else [.carried t s l.contexts.size d, .charged (l.parked t s d)]

end

/-! ## A thread without a context that holds nothing -/

/-- A thread without a context, outside of the hook and of every task, for which nothing is held. -/
structure Fresh (l : Ledger) (t : ThreadId) (s : ServiceId) : Prop where
  thread : t < l.threads.size
  home : (l.thread t).home = .absent
  carry : (l.thread t).carry = none
  outside : l.inHook t = false
  idle : l.activeTask t s = none

namespace Fresh

variable (h : Fresh l t s)

include h

theorem carriedFor : (l.thread t).carriedFor s = 0 := Thread.carriedFor_of_none h.carry s

/-! ### The context comes first -/

theorem outside_newHome : (l.newHome t s).inHook t = false := by
  rw [Ledger.inHook, thread_newHome h.thread]
  exact h.outside

theorem settle : l.settle t s = (l.newHome t s, true) := by
  unfold Ledger.settle
  rw [h.home, h.carriedFor]
  exact if_pos (.inl rfl)

theorem charge_settled : (l.newHome t s).charge t s d =
    (((((l.newHome t s).setInHook t true).post (.charged (l.direct t s d))).absorb refuse t l.contexts.size d).setInHook
      t false, .thread) := by
  have hthread := thread_newHome (s := s) h.thread
  have hidle : ((l.newHome t s).setInHook t true).activeTask t s = none := by
    rw [activeTask_setInHook, activeTask_newHome h.thread, h.idle]
  have hhome : (((l.newHome t s).setInHook t true).thread t).home = .settled s l.contexts.size := by
    rw [thread_setInHook, hthread]
  have hready : (((l.newHome t s).setInHook t true).context l.contexts.size).initialized = true := by
    show ((l.newHome t s).context l.contexts.size).initialized = true
    rw [context_newHome]
  have hverdict : ((l.newHome t s).setInHook t true).verdict t s d (some l.contexts.size) .thread = l.direct t s d :=
    verdict_setInHook true _ _
  unfold charge
  simp only [h.outside_newHome, Bool.false_eq_true, if_false, guarded, chargeInHook, hidle, chargeThread, hhome, if_true,
    chargeContext, hready, conclude, hverdict]

/-! ### The charge comes first -/

theorem guarded_park :
    let r := l.guarded t (·.chargeInHook t s d)
    r.2 = .parked ∧ Parks l t s d r.1 ∧ r.1.journal = .charged (l.parked t s d) :: l.journal := by
  have hidle : (l.setInHook t true).activeTask t s = none := by
    rw [activeTask_setInHook, h.idle]
  have hhome : ((l.setInHook t true).thread t).home = .absent := by
    rw [thread_setInHook, h.home]
  have hcarry : ((l.setInHook t true).thread t).carry = none := by
    rw [thread_setInHook, h.carry]
  have hcharge : (l.setInHook t true).chargeInHook t s d = (l.setInHook t true).park t s d := by
    simp only [chargeInHook, hidle, chargeThread, hhome]
  have hparks : Parks (l.setInHook t true) t s d ((l.setInHook t true).park t s d).1 :=
    parks_park fun c hc => by
      rw [hcarry] at hc
      cases hc
  have hverdict : ((l.setInHook t true).modifyThread t fun th => { th with carry := some ⟨s, d⟩ }).verdict t s d none
      .parked = l.parked t s d := by
    refine Eq.trans ?_ (verdict_setInHook (l := l) true none .parked)
    exact congrArg (fun scope => ({ l.verdict t s d none .parked with scope } : Verdict))
      (Table.get_modify_of_eq _ t t Thread.innermost fun _ => by rfl)
  have hparked : ((l.setInHook t true).park t s d).2 = .parked := by
    unfold park
    rw [hcarry]
    rfl
  have hjournal : ((l.setInHook t true).park t s d).1.journal = .charged (l.parked t s d) :: l.journal := by
    unfold park
    rw [hcarry]
    exact congrArg (fun v => Entry.charged v :: l.journal) hverdict
  simp only [guarded, hcharge]
  exact ⟨hparked, hparks.unhook h.outside, hjournal⟩

/-- The context that is created last takes in what is parked, unless that is nothing. -/
theorem settle_parked {l₁ : Ledger} (hp : Parks l t s d l₁) : (l₁.settle t s).1 =
    if d = 0 then l₁.newHome t s
    else ((((l₁.newHome t s).setInHook t true).post (.carried t s l.contexts.size d)).absorb refuse t
      l.contexts.size d).setInHook t false := by
  have hthread := hp.thread h.thread
  have hhome : (l₁.thread t).home = .absent := by
    rw [hthread, h.home]
  have hsize : l₁.contexts.size = l.contexts.size := by
    have hrest := congrArg (fun l₂ : Ledger => l₂.contexts.size) hp.rest
    exact hrest
  have hcarried : (l₁.thread t).carriedFor s = d := by
    have hzero : Delta.addClamped 0 d = d := by simp [Delta.addClamped, Delta.clamp_toInt]
    rw [hthread, h.carriedFor, hzero]
    exact if_pos rfl
  have hout : (l₁.newHome t s).inHook t = false := by
    have hnew := congrArg (fun l₂ : Ledger => l₂.inHook t) hp.newHome
    exact Eq.trans hnew h.outside_newHome
  unfold Ledger.settle
  simp only [hhome, hcarried, hsize, hout, Bool.false_eq_true, or_false]
  split
  · rfl
  · rfl

/-- The ledgers differ in nothing but what is said of where the amount went. -/
theorem parted : Parted (l.writtenLate t s d ++ l.journal) (l.writtenEarly t s d ++ l.journal)
    (l.charge t s d).1 ((l.settle t s).1.charge t s d).1 := by
  obtain ⟨hparked, hparks, hjournal⟩ := h.guarded_park (d := d)
  have hlazy : (l.charge t s d).1 = ((l.guarded t (·.chargeInHook t s d)).1.settle t s).1 := by
    unfold charge
    simp only [h.outside, Bool.false_eq_true, if_false, hparked]
  generalize (l.guarded t (·.chargeInHook t s d)).1 = l₁ at hlazy hparks hjournal
  have hnew : l₁.newHome t s = { l.newHome t s with journal := .charged (l.parked t s d) :: l.journal } := by
    have hwith := congrArg (fun l₂ : Ledger => { l₂ with journal := l₁.journal }) hparks.newHome
    exact hjournal ▸ hwith
  rw [hlazy, h.settle_parked hparks, h.settle, h.charge_settled, hnew]
  by_cases hd : d = 0
  · subst hd
    have hzero : ((l.newHome t s).context l.contexts.size).pending = 0 := by
      rw [context_newHome]
      rfl
    rw [if_pos rfl, section_zero h.outside_newHome hzero, writtenLate, if_pos rfl]
    exact ⟨[], rfl, rfl⟩
  · rw [if_neg hd, writtenLate, if_neg hd]
    refine (agree_setInHook t false).keeps ((agree_absorb _ d).keeps ?_)
    exact ⟨[], rfl, rfl⟩

end Fresh

end Ledger

/-! ## Either way -/

/-- A thread without a context gets one from its first charge. Had it got the context right before, the ledger would
be the same, up to what is said of where the amount went: the context is the same and has as much pending, the same
commits were made, with the same answers of echoes, and the same charges were skipped. No history that follows is
different, either: it tells the same and writes down the same. -/
theorem settle_first_unseen {l : Ledger} {t : ThreadId} {s : ServiceId} (h : Fresh l t s) (d : Delta) :
    let late := l.charge t s d
    let settled := l.settle t s
    let early := settled.1.charge t s d
    late.2 = .parked ∧ settled.2 = true ∧ early.2 = .thread ∧
    ∀ ds : List Deed,
      Parted (l.writtenLate t s d ++ l.journal) (l.writtenEarly t s d ++ l.journal) (late.1.after ds) (early.1.after ds) ∧
      late.1.outcomes ds = early.1.outcomes ds := by
  refine ⟨?_, ?_, ?_, fun ds => h.parted.history ds⟩
  · obtain ⟨hparked, -⟩ := h.guarded_park (d := d)
    unfold charge
    simp only [h.outside, Bool.false_eq_true, if_false, hparked]
  · rw [h.settle]
  · rw [h.settle]
    exact congrArg Prod.snd h.charge_settled

theorem settle_first_unseen_echoing : Fresh echoing 0 0 ∧ (echoing.charge 0 0 11).2 = .parked ∧
    Parted (echoing.writtenLate 0 0 11 ++ echoing.journal) (echoing.writtenEarly 0 0 11 ++ echoing.journal)
      (echoing.charge 0 0 11).1 ((echoing.settle 0 0).1.charge 0 0 11).1 ∧
    ((echoing.charge 0 0 11).1.service 0).skipped = 1 := by
  have h : Fresh echoing 0 0 := ⟨by decide, rfl, rfl, rfl, rfl⟩
  obtain ⟨hparked, -, -, hsame⟩ := settle_first_unseen h 11
  exact ⟨h, hparked, (hsame []).1, by decide⟩

end HeapLedger
