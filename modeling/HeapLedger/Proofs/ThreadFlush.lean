import HeapLedger.Proofs.Lifecycle
import HeapLedger.Proofs.Reentrancy
import HeapLedger.Proofs.Written

/-!
# Flushing a thread

Who owns the context of a thread can have it hand over what is pending. The thread is inside the hook meanwhile, so
trackers that answer the amount with charges put nothing back. Anybody else is told that there is nothing to flush,
and so is the owner from inside the hook: no trace is left of such an attempt.
-/

namespace HeapLedger

open Ledger

namespace Ledger

def reach (l : Ledger) (c : ContextId) : List TrackerId := l.route (l.context c).tracker

/-- A context hands over all that is pending. The trackers on the way receive it once each, and all that comes of the
charges that they answer it with is that these are counted. -/
structure Empties (l : Ledger) (c : ContextId) (l' : Ledger) : Prop where
  contexts : l'.contexts = l.contexts.modify c fun ctx => { ctx with cache := { ctx.cache with pending := 0 } }
  totals : ∀ i ∈ l.reach c, (l'.tracker i).totals? = (l.tracker i).totals?.map (·.add (l.context c).pending)
  tracker : ∀ i, i ∉ l.reach c → l'.tracker i = l.tracker i
  receipts : receipts l'.journal = (l.echoes (l.reach c)).reverse.map (·, (l.context c).pending) ++ receipts l.journal
  journal : ∃ echoed, l'.journal = echoed ++ .committed c (l.context c).pending :: .flushed c :: l.journal ∧
    ∀ e ∈ echoed, e.Echoed
  service : ∀ s, l'.service s = (l.service s).skips (l.refusals (l.reach c) s)
  rest : { l' with
    contexts := l.contexts, trackers := l.trackers, services := l.services, journal := l.journal } = l

variable {l l' : Ledger} {t : ThreadId} {s : ServiceId} {c : ContextId}

/-! ## Inside the hook -/

theorem spread_flush (h : Sound l) (hc : c < l.contexts.size) :
    Spread (l.drain c) (l.reach c) (l.context c).pending (l.flush refuse t c).1 := by
  have htracker : (l.context c).tracker < l.trackers.size := h.context_tracker c hc
  rw [flush_eq]
  exact spread_delivers (l := l.drain c) (route_nodup h htracker) fun i hi =>
    ⟨route_lt h htracker i hi, serves_answers h i⟩

theorem empties_flush (h : Sound l) (hc : c < l.contexts.size) : Empties l c (l.flush refuse t c).1 := by
  have hspread : Spread (l.drain c) (l.reach c) (l.context c).pending (l.flush refuse t c).1 := spread_flush h hc
  exact {
    contexts := by
      have hsame := congrArg Ledger.contexts hspread.rest
      exact hsame.trans (Table.modify_congr rfl)
    totals := fun _ => hspread.totals
    tracker := hspread.tracker
    receipts := hspread.receipts
    journal := by
      obtain ⟨echoed, hjournal, hechoed⟩ := propagate_echoed (t := t) (l.drain c) (l.context c).tracker (l.context c).pending
      exact ⟨echoed, by rw [flush_eq, hjournal]; rfl, hechoed⟩
    service := hspread.service
    rest := congrArg (fun l₁ : Ledger => { l₁ with contexts := l.contexts, journal := l.journal }) hspread.rest }

/-- A context that has handed everything over has nothing more to hand over. -/
theorem Empties.pending (h : Empties l c l') (hc : c < l.contexts.size) : (l'.context c).pending = 0 := by
  rw [context, h.contexts, Table.get_modify_self _ hc]
  rfl

theorem Empties.threads (h : Empties l c l') : l'.threads = l.threads := by
  have hsame := congrArg Ledger.threads h.rest
  exact hsame

theorem Empties.unhook (hn : l.inHook t = false) (h : Empties (l.setInHook t true) c l') :
    Empties l c (l'.setInHook t false) where
  contexts := h.contexts
  totals := h.totals
  tracker := h.tracker
  receipts := h.receipts
  journal := h.journal
  service := h.service
  rest := (congrArg (fun l₁ : Ledger => l₁.setInHook t false) h.rest).trans (setInHook_setInHook hn)

/-! ## From outside -/

theorem homeOf_settled (hh : (l.thread t).home = .settled s c) : l.homeOf t s = some c := by
  rw [homeOf, hh]
  exact if_pos rfl

theorem homePending_eq_some_iff {p : Delta} :
    l.homePending t s = some p ↔ ∃ c, (l.thread t).home = .settled s c ∧ (l.context c).pending = p := by
  constructor
  · intro hp
    obtain ⟨c, hc, hpending⟩ := Option.map_eq_some_iff.mp hp
    exact ⟨c, homeOf_eq hc, hpending⟩
  · rintro ⟨c, hh, rfl⟩
    rw [homePending, homeOf_settled hh]
    rfl

theorem flushHome_of_settled (respond : Responder) (hh : (l.thread t).home = .settled s c) :
    l.flushHome respond t s = ((l.flush respond t c).1, some (l.context c).pending) := by
  rw [flushHome, homeOf_settled hh]
  rfl

theorem flushThread_of_settled (ht : t < l.threads.size) (hn : l.inHook t = false)
    (hh : (l.thread t).home = .settled s c) :
    l.flushThread t s =
      (((l.setInHook t true).flush refuse t c).1.setInHook t false, some (l.context c).pending) := by
  have hinside : ((l.setInHook t true).thread t).home = .settled s c := (home_setInHook true t).trans hh
  rw [flushThread_of_lt s ht, if_neg (Bool.eq_false_iff.mp hn)]
  exact congrArg (fun r : Ledger × Option Delta => (r.1.setInHook t false, r.2)) (flushHome_of_settled refuse hinside)

theorem flushThread_empties (h : Sound l) (ht : t < l.threads.size) (hn : l.inHook t = false)
    (hh : (l.thread t).home = .settled s c) : Empties l c (l.flushThread t s).1 := by
  have hc : c < l.contexts.size := ((h.thread t).home s c hh).1.1
  have hinside : Sound (l.setInHook t true) := h.discreet t fun _ => ⟨rfl, rfl, rfl, rfl, rfl, rfl, rfl⟩
  rw [flushThread_of_settled ht hn hh]
  exact (empties_flush hinside hc).unhook hn

theorem flushThread_cases (l : Ledger) (t : ThreadId) (s : ServiceId) :
    (l.inHook t = false ∧ ∃ c, (l.thread t).home = .settled s c) ∨ l.flushThread t s = (l, none) := by
  cases hi : l.inHook t with
  | true => exact .inr (if_pos hi)
  | false =>
    by_cases hh : ∃ c, (l.thread t).home = .settled s c
    · exact .inl ⟨rfl, hh⟩
    · exact .inr (flushThread_of_foreign fun c hc => hh ⟨c, hc⟩)

theorem flushThread_eq_some_iff (ht : t < l.threads.size) {p : Delta} :
    (l.flushThread t s).2 = some p ↔ l.inHook t = false ∧ l.homePending t s = some p := by
  constructor
  · intro hp
    rcases flushThread_cases l t s with ⟨hn, c, hh⟩ | hnone
    · rw [flushThread_of_settled ht hn hh] at hp
      exact ⟨hn, homePending_eq_some_iff.mpr ⟨c, hh, Option.some.inj hp⟩⟩
    · rw [hnone] at hp
      cases hp
  · rintro ⟨hn, hp⟩
    obtain ⟨c, hh, rfl⟩ := homePending_eq_some_iff.mp hp
    rw [flushThread_of_settled ht hn hh]

end Ledger

/-- At every moment of every run. What is pending in a thread's own context is told to its owner and to nobody else,
wherever the thread is. A flush from outside of the hook hands over just that, and leaves nothing pending, so that
another one right after it hands over zero. Any other flush, be it from inside the hook or by who does not own the
context, or of a thread without one, hands over nothing and changes nothing. -/
theorem thread_flush_exact {h : Holdings} {l₀ l : Ledger} (hr : Run h l₀) (hp : Passes l₀ l) {t : ThreadId}
    (ht : t < l.threads.size) (s : ServiceId) :
    (∀ p, l.homePending t s = some p ↔ ∃ c, (l.thread t).home = .settled s c ∧ (l.context c).pending = p) ∧
    l.perform t (.threadPending s) = (l, .pending (l.homePending t s)) ∧
    (∀ p, (l.flushThread t s).2 = some p ↔ l.inHook t = false ∧ l.homePending t s = some p) ∧
    (∀ c, l.inHook t = false → (l.thread t).home = .settled s c →
      let l' := (l.flushThread t s).1
      Empties l c l' ∧ l'.homePending t s = some 0 ∧ (l'.flushThread t s).2 = some 0) ∧
    ((l.flushThread t s).2 = none → l.flushThread t s = (l, none)) := by
  have hsound : Sound l := (hp.told hr.told).sound
  refine ⟨fun p => homePending_eq_some_iff, rfl, fun p => flushThread_eq_some_iff ht, fun c hn hh => ?_, fun hnone => ?_⟩
  · have hempties : Empties l c (l.flushThread t s).1 := flushThread_empties hsound ht hn hh
    have hthread : (l.flushThread t s).1.thread t = l.thread t := congrArg (·.get t) hempties.threads
    have hzero : (l.flushThread t s).1.homePending t s = some 0 :=
      homePending_eq_some_iff.mpr ⟨c, (congrArg Thread.home hthread).trans hh,
        hempties.pending ((hsound.thread t).home s c hh).1.1⟩
    have hout : (l.flushThread t s).1.inHook t = false := (congrArg Thread.inHook hthread).trans hn
    have hsize : t < (l.flushThread t s).1.threads.size := lt_of_lt_of_eq ht (congrArg Table.size hempties.threads).symm
    exact ⟨hempties, hzero, (flushThread_eq_some_iff hsize).mpr ⟨hout, hzero⟩⟩
  · rcases flushThread_cases l t s with ⟨hn, c, hh⟩ | hflush
    · rw [flushThread_of_settled ht hn hh] at hnone
      cases hnone
    · exact hflush

/-- A ledger in which 7 bytes are pending for a thread, and whose only tracker answers every amount with a charge. -/
def awaiting : Ledger :=
  let l := (perform (newThread {}).1 0 (.newEcho "echo" none)).1
  let l := (l.perform 0 (.newService { threshold := 10, tracker := some 0 })).1
  let l := (l.perform 0 (.bindEcho 0 [⟨0, 3⟩] none)).1
  (l.perform 0 (.charge 0 7)).1

theorem run_awaiting : Run {} awaiting := by
  have hstart : Run {} (newThread {}).1 := .start .nil
  have hecho := hstart.act (t := 0) (a := .newEcho "echo" none) (by decide) (by decide) nofun
  have hservice := hecho.act (t := 0) (a := .newService { threshold := 10, tracker := some 0 }) (by decide) (by decide)
    fun i hi => Option.mem_some_iff.mp hi ▸ show 0 < Table.size _ by decide
  have hbind := hservice.act (t := 0) (a := .bindEcho 0 [⟨0, 3⟩] none) (by decide) (by decide)
    fun r hr => List.mem_singleton.mp hr ▸ show 0 < Table.size _ by decide
  exact hbind.act (t := 0) (a := .charge 0 7) (by decide) (by decide) (show 0 < Table.size _ by decide)

/-- The echo receives the 7 bytes, and the charge that it answers them with is not pending afterwards. -/
theorem thread_flush_exact_awaiting :
    0 < awaiting.threads.size ∧ awaiting.homePending 0 0 = some 7 ∧ (awaiting.flushThread 0 0).2 = some 7 ∧
      (awaiting.flushThread 0 0).1.answers = [.skipped .reentrant] ∧
      (awaiting.flushThread 0 0).1.homePending 0 0 = some 0 ∧
      ((awaiting.flushThread 0 0).1.flushThread 0 0).2 = some 0 := by
  have hsize : 0 < awaiting.threads.size := by decide
  obtain ⟨hpending, -, hflush, hempties, -⟩ :=
    thread_flush_exact run_awaiting Relation.ReflTransGen.refl hsize 0
  have hhome : (awaiting.thread 0).home = .settled 0 0 := rfl
  have hseven : awaiting.homePending 0 0 = some 7 := (hpending 7).mpr ⟨0, hhome, by decide⟩
  obtain ⟨-, hzero, hagain⟩ := hempties 0 (by decide) hhome
  exact ⟨hsize, hseven, (hflush 7).mpr ⟨by decide, hseven⟩, by decide, hzero, hagain⟩

end HeapLedger
