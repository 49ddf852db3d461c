import HeapLedger.Proofs.Calm
import HeapLedger.Proofs.ActionBuilt
import HeapLedger.Proofs.Story

/-!
# Threads that only services charge

Whatever a thread does with services leaves its own context and what is held for one as they are, or gives the thread
its context. So if nobody charges a thread without the service around it, nothing is held between two actions: what the
thread parks, which is one amount at most, its new context takes in at once.
-/

namespace HeapLedger

open Ledger

/-! ## Runs of certain actions -/

/-- A run of nothing but certain actions. -/
inductive RunOf (P : ThreadId → Action → Prop) : Holdings → Ledger → Prop
  | nil : RunOf P {} {}
  | start {h l} (hr : RunOf P h l) : RunOf P h l.newThread.1
  | act {h l t a} (hr : RunOf P h l) (ht : t < l.threads.size) (he : t ∉ h.ended) (ha : l.Admits h a) (hp : P t a) :
      RunOf P (h.after t a (l.perform t a).2) (l.perform t a).1

theorem RunOf.run {P : ThreadId → Action → Prop} {h : Holdings} {l : Ledger} (hr : RunOf P h l) : Run h l := by
  induction hr with
  | nil => exact .nil
  | start _ ih => exact ih.start
  | act _ ht he ha _ ih => exact ih.act ht he ha

def Serviced (t j : ThreadId) (a : Action) : Prop := j = t → ∀ s d, a ≠ .chargeBare s d

namespace Ledger

/-! ## Turns of a thread -/

structure Rests (t : ThreadId) (l l' : Ledger) : Prop where
  threads_size : l.threads.size ≤ l'.threads.size
  home : (l'.thread t).home = (l.thread t).home
  carry : (l'.thread t).carry = (l.thread t).carry
  parkings : l'.parkings t = l.parkings t
  carryings : l'.carryings t = l.carryings t

inductive Turn (t : ThreadId) (l : Ledger) : Ledger → Prop
  | rests {l'} (h : Rests t l l') : Turn t l l'
  | settles {s} (hh : (l.thread t).home = .absent) : Turn t l (l.settle t s).1
  | pays {s d l₀} (h : Stores l t s d l₀) (hn : l₀.inHook t = false) : Turn t l (l₀.settle t s).1

section
variable {l l' : Ledger} {t : ThreadId}

theorem Rests.refl (l : Ledger) : Rests t l l := ⟨Nat.le_refl _, rfl, rfl, rfl, rfl⟩

theorem Rests.trans {l'' : Ledger} (h : Rests t l l') (h' : Rests t l' l'') : Rests t l l'' where
  threads_size := Nat.le_trans h.threads_size h'.threads_size
  home := h'.home.trans h.home
  carry := h'.carry.trans h.carry
  parkings := h'.parkings.trans h.parkings
  carryings := h'.carryings.trans h.carryings

theorem Calm.rests (h : Calm l l') : Rests t l l' :=
  ⟨Nat.le_of_eq h.threads_size.symm, h.home t, h.carry t, h.parkings t, h.carryings t⟩

theorem rests_of_eq (ht : l'.threads = l.threads) (hj : l'.journal = l.journal) : Rests t l l' where
  threads_size := Nat.le_of_eq (congrArg Table.size ht.symm)
  home := by rw [thread, ht]; rfl
  carry := by rw [thread, ht]; rfl
  parkings := by rw [Ledger.parkings, hj]; rfl
  carryings := by rw [Ledger.carryings, hj]; rfl

theorem Basic.rests {α : Type} {f : Ledger → Ledger × α} (h : Basic t α f) (l : Ledger) : Rests t l (f l).1 := by
  cases h with
  | @post e he =>
    refine (calm_post l (fun _ => ?_) fun _ => ?_).rests
    · cases e with
      | charged => exact absurd he id
      | _ => rfl
    · cases e with
      | carried => exact absurd he id
      | _ => rfl
  | thread hf hh => exact (calm_modifyThread l hh hf.carry).rests
  | addService source slots i threshold =>
    unfold addService
    dsimp only
    split <;> exact rests_of_eq rfl rfl
  | aside hf => exact rests_of_eq (hf.threads l) (hf.journal l)

theorem Outer.turn {α : Type} {f : Ledger → Ledger × α} (h : Outer t α f) (ht : t < l.threads.size) :
    Turn t l (f l).1 := by
  cases h with
  | basic h => exact .rests (Basic.rests h l)
  | charge s d =>
    rcases charge_stores_or_calm (s := s) (d := d) ht with ⟨l₀, hstores, hn, he⟩ | ⟨-, hcalm⟩
    · dsimp only
      rw [he]
      exact .pays hstores hn
    · exact .rests hcalm.rests
  | settle s =>
    by_cases hh : (l.thread t).home = .absent
    · exact .settles hh
    · dsimp only
      rw [settle_of_present hh]
      exact .rests (.refl l)

theorem Handling.turn {α : Type} {f : Ledger → Ledger × α} (h : Handling t α f) (ht : t < l.threads.size) :
    Turn t l (f l).1 := by
  cases h with
  | outer h => exact Outer.turn h ht
  | count => exact .rests (rests_of_eq rfl rfl)
  | report => exact .rests (calm_post l (fun _ => rfl) fun _ => rfl).rests
  | blocks hf => exact .rests (rests_of_eq (hf.threads l) (hf.journal l))

theorem threads_size_settle {s : ServiceId} (hh : (l.thread t).home = .absent) :
    l.threads.size ≤ (l.settle t s).1.threads.size := by
  have hnew : (l.newHome t s).threads.size = l.threads.size := Table.size_modify ..
  obtain ⟨-, hnothing, hcarried⟩ := settle_of_absent (s := s) hh
  by_cases hc : (l.thread t).carriedFor s = 0 ∨ (l.newHome t s).inHook t = true
  · rw [hnothing hc]
    exact Nat.le_of_eq hnew.symm
  · obtain ⟨hz, hn⟩ := not_or.mp hc
    exact Nat.le_of_eq ((hcarried hz (Bool.eq_false_iff.mpr hn)).threads_size.trans hnew).symm

theorem Turn.threads_size (h : Turn t l l') : l.threads.size ≤ l'.threads.size := by
  cases h with
  | rests h => exact h.threads_size
  | settles hh => exact threads_size_settle hh
  | pays h hn =>
    exact Nat.le_trans (Nat.le_of_eq h.threads_size.symm) (threads_size_settle ((h.home_eq t).trans h.home))

theorem Turn.home (ht : t < l.threads.size) (h : Turn t l l') (hh : (l.thread t).home ≠ .closed) :
    (l'.thread t).home ≠ .closed := by
  cases h with
  | rests h => exact h.home ▸ hh
  | settles hh' =>
    rw [(gives_settle ht hh').home]
    nofun
  | pays h hn =>
    have hsize := lt_of_lt_of_eq ht h.threads_size.symm
    rw [(gives_settle hsize ((h.home_eq t).trans h.home)).home]
    nofun

/-! ## Turns and actions -/

/-- What a thread keeps in each of its turns it keeps in whatever is built from them. -/
theorem Built.turns {I : Ledger → Prop} (hI : ∀ l l', t < l.threads.size → I l → Turn t l l' → I l') {α : Type}
    {f : Ledger → Ledger × α} (hf : Built veil (Handling t) f) (ht : t < l.threads.size) (hl : I l) :
    t < (f l).1.threads.size ∧ I (f l).1 := by
  refine hf.keeps (I := fun l => t < l.threads.size ∧ I l) (fun h l hl => ?_) (fun l j b hl => ?_) l ⟨ht, hl⟩
  · have hturn := Handling.turn h hl.1
    exact ⟨Nat.lt_of_lt_of_le hl.1 hturn.threads_size, hI _ _ hl.1 hl.2 hturn⟩
  · have hrests : Rests t l (l.setInHook j b) := (calm_setInHook l b).rests
    exact ⟨Nat.lt_of_lt_of_le hl.1 hrests.threads_size, hI _ _ hl.1 hl.2 (.rests hrests)⟩

/-- The same when the thread ends, if it is kept when the thread gives its context up. -/
theorem Built.turns_ending {I : Ledger → Prop} (hI : ∀ l l', t < l.threads.size → I l → Turn t l l' → I l')
    (he : ∀ l, I l → I (l.endHome t)) {α : Type} {f : Ledger → Ledger × α} (hf : Built veil (Ending t) f)
    (ht : t < l.threads.size) (hl : I l) : t < (f l).1.threads.size ∧ I (f l).1 := by
  refine hf.keeps (I := fun l => t < l.threads.size ∧ I l) (fun h l hl => ?_) (fun l j b hl => ?_) l ⟨ht, hl⟩
  · cases h with
    | outer h =>
      have hturn := Outer.turn h hl.1
      exact ⟨Nat.lt_of_lt_of_le hl.1 hturn.threads_size, hI _ _ hl.1 hl.2 hturn⟩
    | endHome => exact ⟨lt_of_lt_of_eq hl.1 (threads_size_modifyThread ..).symm, he l hl.2⟩
  · have hrests : Rests t l (l.setInHook j b) := (calm_setInHook l b).rests
    exact ⟨Nat.lt_of_lt_of_le hl.1 hrests.threads_size, hI _ _ hl.1 hl.2 (.rests hrests)⟩

theorem calm_guardThread : Calm l (l.guardThread t).1 := by
  unfold guardThread
  split
  · exact .refl l
  · exact calm_modifyThread l (fun _ => rfl) fun _ => rfl

theorem calm_unguardThread : Calm l (l.unguardThread t).1 := by
  unfold unguardThread
  split
  · exact calm_modifyThread l (fun _ => rfl) fun _ => rfl
  · exact .refl l

theorem calm_bindWorker (s : ServiceId) : Calm l (l.bindWorker t s).1 := by
  rw [bindWorker_eq]
  split
  · exact .refl l
  · split
    · exact .refl l
    · have hslot : ∀ i, Calm l (l.modifySlot s i fun _ => { bound := true }) := fun _ => calm_of_eq l rfl rfl rfl rfl
      refine (((hslot _).trans (calm_modifyThread _ ?_ ?_)).trans (calm_post _ ?_ ?_)).trans (calm_post _ ?_ ?_) <;>
        exact fun _ => rfl

theorem calm_unbindWorker : Calm l (l.unbindWorker t).1 := by
  rw [unbindWorker_eq]
  split
  · exact .refl l
  · rename_i w _
    have hslot : Calm l (l.modifySlot w.service w.slot fun _ => {}) := calm_of_eq l rfl rfl rfl rfl
    refine (hslot.trans (calm_modifyThread _ ?_ ?_)).trans (calm_post _ ?_ ?_) <;> exact fun _ => rfl

theorem exit_turns {I : Ledger → Prop} (hI : ∀ l l', t < l.threads.size → I l → Turn t l l' → I l')
    (he : ∀ l, I l → I (l.endHome t)) (ht : t < l.threads.size) (hl : I l) : I (l.exit t) := by
  have hcalm : ∀ l l', t < l.threads.size ∧ I l → Calm l l' → t < l'.threads.size ∧ I l' := fun l l' hl hc =>
    ⟨Nat.lt_of_lt_of_le hl.1 (Nat.le_of_eq hc.threads_size.symm), hI _ _ hl.1 hl.2 (.rests hc.rests)⟩
  have hunwind := Built.turns hI (unwind_built t (l.depth t)).handling ht hl
  have hunbind := hcalm _ _ hunwind (calm_unbindWorker (t := t))
  obtain ⟨ht', hl'⟩ := hcalm _ _ hunbind (calm_unguardThread (t := t))
  exact (Built.turns_ending hI he (destroys_built t) ht' hl').2

/-- What a thread keeps in each of its turns it keeps in every action but one that charges without a service around
it, and in its end, if it is kept there when the thread gives its context up. -/
theorem perform_turns {I : Ledger → Prop} (hI : ∀ l l', t < l.threads.size → I l → Turn t l l' → I l') {a : Action}
    (he : a = .exit → ∀ l, I l → I (l.endHome t)) (hb : ∀ s d, a ≠ .chargeBare s d) (ht : t < l.threads.size)
    (hl : I l) : I (l.perform t a).1 := by
  have hcalm : ∀ {l'}, Calm l l' → I l' := fun hc => hI _ _ ht hl (.rests hc.rests)
  by_cases hs : a.special = false
  · exact (Built.turns hI (perform_built t hs) ht hl).2
  · cases a with
    | exit => exact exit_turns hI (he rfl) ht hl
    | guard => exact hcalm calm_guardThread
    | unguard => exact hcalm calm_unguardThread
    | bindWorker s =>
      refine hcalm ?_
      unfold perform
      rw [toldOr_fst]
      exact calm_bindWorker s
    | unbindWorker => exact hcalm calm_unbindWorker
    | forgetBinding => exact hcalm (calm_modifyThread l (fun _ => rfl) fun _ => rfl)
    | chargeBare s d => exact absurd rfl (hb s d)
    | describe => exact hl
    | _ => exact absurd rfl hs

end

/-! ## Other threads -/

section
variable {j t : ThreadId}

theorem Proceeds.rests {l l' : Ledger} (hsize : l.threads.size ≤ l'.threads.size) (hne : t ≠ j) (h : Proceeds j l l') :
    Rests t l l' := by
  obtain ⟨new, hnew, hheeds⟩ := h.journal
  have hparked : new.filterMap (Entry.parking? t) = [] := by
    refine List.filterMap_eq_nil_iff.mpr fun e he => ?_
    cases e with
    | charged v =>
      refine if_neg fun hv => hne ?_
      exact hv.1.symm.trans ((hheeds _ he).verdict v rfl).1
    | _ => rfl
  have hcarried : new.filterMap (Entry.carrying? t) = [] := by
    refine List.filterMap_eq_nil_iff.mpr fun e he => ?_
    cases e with
    | carried i s c d =>
      refine if_neg fun hi => hne ?_
      exact Eq.trans hi.symm ((hheeds _ he).carrier i rfl)
    | _ => rfl
  refine ⟨hsize, congrArg Thread.home (h.others t hne), congrArg Thread.carry (h.others t hne), ?_, ?_⟩
  · rw [parkings, hnew, List.filterMap_append, hparked]
    rfl
  · rw [carryings, hnew, List.filterMap_append, hcarried]
    rfl

theorem Course.rests {l l' : Ledger} (hs : Sound l) (hsize : l.threads.size ≤ l'.threads.size) (hne : t ≠ j)
    (h : Course j l l') : Rests t l l' := by
  cases h with
  | proceeds hp => exact hp.rests hsize hne
  | @settles s hh =>
    have hthread := thread_newHome_of_ne (l := l) (s := s) hne
    exact ⟨hsize, congrArg Thread.home hthread, congrArg Thread.carry hthread, rfl, rfl⟩
  | @ends s c hh =>
    have hthread := thread_endHome_of_ne (l := l) hne
    have hend : Rests t l (l.endHome j) :=
      ⟨Nat.le_of_eq (threads_size_modifyThread ..).symm, congrArg Thread.home hthread, congrArg Thread.carry hthread,
        rfl, rfl⟩
    have hshut : Proceeds j (l.endHome j) ((l.endHome j).shut c) := proceeds_shut _ (closable_home hs hh).live
    exact hend.trans (hshut.rests (Nat.le_refl _) hne)

theorem rests_newThread (l : Ledger) : Rests t l l.newThread.1 where
  threads_size := Nat.le_trans (Nat.le_succ _) (Nat.le_of_eq (Table.size_add ..).symm)
  home := congrArg Thread.home (thread_newThread l t)
  carry := congrArg Thread.carry (thread_newThread l t)
  parkings := rfl
  carryings := rfl

end

end Ledger

section
variable {j t : ThreadId}

/-- What a thread does leaves every other thread's context alone, and what is held for one. -/
theorem Moves.rests {m m' : Moment} (hs : Sound m.1) (hne : t ≠ j) (h : Moves j m m') :
    Rests t m.1 m'.1 ∧ Sound m'.1 := by
  induction h with
  | refl => exact ⟨.refl _, hs⟩
  | tail _ hm ih =>
    obtain ⟨hrests, hsound⟩ := ih
    exact ⟨hrests.trans ((hm.course hsound).rests hsound hm.threads_size hne), hm.sound hsound⟩

theorem Run.rests {h : Holdings} {l : Ledger} (hr : Run h l) (hj : j < l.threads.size) {a : Action} (ha : l.Admits h a)
    (hne : t ≠ j) : Rests t l (l.perform j a).1 := by
  obtain ⟨hsound, hcarries, hheld⟩ := hr.reach
  exact (Moves.rests hsound hne (perform_moves hheld ⟨hsound, hcarries, hj⟩ ha)).1

end

/-! ## Nothing is held -/

namespace Ledger

/-- Nothing is held for a thread's context, and what was parked for it, which is one amount at most, it has taken in. -/
structure Even (l : Ledger) (t : ThreadId) : Prop where
  carry : (l.thread t).carry = none
  early : (l.thread t).home = .absent → l.parkings t = []
  once : (l.parkings t).length ≤ 1
  carried : l.carryings t = (l.parkings t).filter (· ≠ 0)

section
variable {l l' : Ledger} {t : ThreadId}

theorem even_empty (t : ThreadId) : Even {} t := ⟨rfl, fun _ => rfl, Nat.zero_le _, rfl⟩

theorem Even.rests (h : Even l t) (hr : Rests t l l') : Even l' t where
  carry := hr.carry.trans h.carry
  early hh := hr.parkings.trans (h.early (hr.home.symm.trans hh))
  once := hr.parkings ▸ h.once
  carried := by rw [hr.carryings, hr.parkings, h.carried]

theorem carryings_settle {s : ServiceId} (hh : (l.thread t).home = .absent)
    (hn : (l.thread t).carriedFor s ≠ 0 → l.inHook t = false) :
    (l.settle t s).1.parkings t = l.parkings t ∧
      (l.settle t s).1.carryings t = [(l.thread t).carriedFor s].filter (· ≠ 0) ++ l.carryings t := by
  have hinHook : (l.newHome t s).inHook t = l.inHook t := Table.get_modify_of_eq _ t t Thread.inHook fun _ => rfl
  obtain ⟨-, hnothing, hcarried⟩ := settle_of_absent (s := s) hh
  by_cases hz : (l.thread t).carriedFor s = 0
  · rw [hnothing (.inl hz), hz]
    exact ⟨rfl, rfl⟩
  · have hcalm := hcarried hz (hinHook.trans (hn hz))
    rw [hcalm.parkings, hcalm.carryings]
    refine ⟨rfl, ?_⟩
    rw [List.filter_cons_of_pos (by simpa using hz)]
    exact List.filterMap_cons_some (if_pos rfl)

theorem Even.turn (ht : t < l.threads.size) (h : Even l t) (hturn : Turn t l l') : Even l' t := by
  cases hturn with
  | rests hr => exact h.rests hr
  | @settles s hh =>
    have hz : (l.thread t).carriedFor s = 0 := Thread.carriedFor_of_none h.carry s
    obtain ⟨hparkings, hcarryings⟩ := carryings_settle (s := s) hh fun hn => absurd hz hn
    rw [hz] at hcarryings
    refine ⟨(gives_settle ht hh).carry, fun _ => hparkings.trans (h.early hh), hparkings ▸ h.once, ?_⟩
    rw [hparkings, hcarryings]
    exact h.carried
  | @pays s d l₀ hstores hn =>
    have hh : (l₀.thread t).home = .absent := (hstores.home_eq t).trans hstores.home
    have hsize : t < l₀.threads.size := lt_of_lt_of_eq ht hstores.threads_size.symm
    have hd : (l₀.thread t).carriedFor s = d := by
      rw [hstores.toParks.thread ht]
      simp [Thread.carriedFor, h.carry, Delta.addClamped, Delta.clamp_toInt]
    have hnone := h.early hstores.home
    obtain ⟨hparkings, hcarryings⟩ := carryings_settle (s := s) hh fun _ => hn
    have hgives := gives_settle (s := s) hsize hh
    rw [hstores.parkings, hnone] at hparkings
    rw [hd, hstores.carryings t, h.carried, hnone] at hcarryings
    refine ⟨hgives.carry, fun he => ?_, by rw [hparkings]; exact Nat.le_refl _, ?_⟩
    · rw [hgives.home] at he
      cases he
    · rw [hparkings, hcarryings]
      exact List.append_nil _

theorem carry_endHome (l : Ledger) (t : ThreadId) : ((l.endHome t).thread t).carry = (l.thread t).carry :=
  Table.get_modify_of_eq _ t t Thread.carry fun _ => by rfl

theorem Even.endHome (h : Even l t) : Even (l.endHome t) t where
  carry := (carry_endHome l t).trans h.carry
  early hh := by
    by_cases ht : t < l.threads.size
    · rw [Ledger.endHome, thread_modifyThread, if_pos ⟨rfl, ht⟩] at hh
      cases hh
    · rw [Ledger.endHome, thread_modifyThread, if_neg fun hn => ht hn.2] at hh
      exact h.early hh
  once := h.once
  carried := h.carried

end

end Ledger

/-- Between two actions nothing is held for the context of a thread that nobody charges without a service around it. -/
theorem RunOf.even {t : ThreadId} {h : Holdings} {l : Ledger} (hr : RunOf (Serviced t) h l) : Even l t := by
  induction hr with
  | nil => exact even_empty t
  | start _ ih => exact ih.rests (rests_newThread _)
  | @act h l j a hr ht he ha hp ih =>
    by_cases hj : j = t
    · subst hj
      exact perform_turns (I := (Even · j)) (fun _ _ hsize heven => heven.turn hsize) (fun _ _ => Even.endHome)
        (hp rfl) ht ih
    · exact ih.rests (hr.run.rests ht ha (Ne.symm hj))

/-! ## Services that are charged as such -/

def NeverBare (s : ServiceId) (_ : ThreadId) (a : Action) : Prop := ∀ d, a ≠ .chargeBare s d

section
variable {l l' : Ledger} {t j : ThreadId} {s : ServiceId}

theorem carriedFor_turn (ht : t < l.threads.size) (h : (l.thread t).carriedFor s = 0) (hturn : Turn t l l') :
    (l'.thread t).carriedFor s = 0 := by
  cases hturn with
  | rests hr => exact (Thread.carriedFor_congr hr.carry s).trans h
  | settles hh => exact Thread.carriedFor_of_none (gives_settle ht hh).carry s
  | pays hstores hn =>
    have hsize : t < _ := lt_of_lt_of_eq ht hstores.threads_size.symm
    exact Thread.carriedFor_of_none (gives_settle hsize ((hstores.home_eq t).trans hstores.home)).carry s

/-- What a thread does leaves nothing held for a service, unless the service is charged without itself around. -/
theorem carriedFor_perform {a : Action} (hb : NeverBare s t a) (ht : t < l.threads.size)
    (h : (l.thread t).carriedFor s = 0) : ((l.perform t a).1.thread t).carriedFor s = 0 := by
  by_cases hbare : ∃ s' d, a = .chargeBare s' d
  · obtain ⟨s', d, rfl⟩ := hbare
    show ((l.chargeBare t s' d).1.thread t).carriedFor s = 0
    rcases chargeBare_stores_or_calm (l := l) (t := t) (s := s') (d := d) with ⟨-, hstores⟩ | ⟨-, hcalm⟩
    · have hs : s' ≠ s := fun hs => hb d (hs ▸ rfl)
      rw [hstores.toParks.thread ht]
      exact if_neg hs
    · exact (Thread.carriedFor_congr (hcalm.carry t) s).trans h
  · exact perform_turns (I := fun l => (l.thread t).carriedFor s = 0)
      (fun _ _ hsize hl hturn => carriedFor_turn hsize hl hturn)
      (fun _ l hl => (Thread.carriedFor_congr (carry_endHome l t) s).trans hl) (fun s' d ha => hbare ⟨s', d, ha⟩) ht h

end

/-- Between two actions nothing is held for a service that nobody charges without the service around it. -/
theorem RunOf.carriedFor {s : ServiceId} {h : Holdings} {l : Ledger} (hr : RunOf (NeverBare s) h l) (t : ThreadId) :
    (l.thread t).carriedFor s = 0 := by
  induction hr with
  | nil => rfl
  | start _ ih =>
    rw [thread_newThread]
    exact ih
  | @act h l j a hr ht he ha hb ih =>
    by_cases hj : j = t
    · subst hj
      exact carriedFor_perform hb ht ih
    · exact (Thread.carriedFor_congr (hr.run.rests ht ha (Ne.symm hj)).carry s).trans ih

/-! ## Threads that have not ended -/

theorem Holdings.ended_after (h : Holdings) (t : ThreadId) (a : Action) (o : Outcome) :
    h.ended ⊆ (h.after t a o).ended ∧ (a = .exit → t ∈ (h.after t a o).ended) := by
  refine ⟨?_, fun ha => ?_⟩
  · unfold after
    split <;> first | exact fun _ => id | exact List.subset_cons_self ..
  · subst ha
    exact List.mem_cons_self ..

/-- Only a thread that has ended has given its context up. -/
theorem Run.alive {h : Holdings} {l : Ledger} (hr : Run h l) {t : ThreadId} (ht : t ∉ h.ended) :
    (l.thread t).home ≠ .closed := by
  induction hr with
  | nil => nofun
  | start _ ih =>
    rw [thread_newThread]
    exact ih ht
  | @act h l j a hr hlt he ha ih =>
    obtain ⟨hended, hexit⟩ := h.ended_after j a (l.perform j a).2
    have hh := ih fun hm => ht (hended hm)
    by_cases hj : j = t
    · subst hj
      by_cases hb : ∃ s d, a = .chargeBare s d
      · obtain ⟨s, d, rfl⟩ := hb
        show ((l.chargeBare j s d).1.thread j).home ≠ .closed
        rcases chargeBare_stores_or_calm (l := l) (t := j) (s := s) (d := d) with ⟨-, hstores⟩ | ⟨-, hcalm⟩
        · exact hstores.home_eq j ▸ hh
        · exact hcalm.home j ▸ hh
      · exact perform_turns (I := fun l => (l.thread j).home ≠ .closed)
          (fun _ _ hsize hl hturn => hturn.home hsize hl) (fun ha => absurd (hexit ha) ht)
          (fun s d hd => hb ⟨s, d, hd⟩) hlt hh
    · exact (hr.rests hlt ha (Ne.symm hj)).home ▸ hh

end HeapLedger
