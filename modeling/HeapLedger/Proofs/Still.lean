import HeapLedger.Proofs.Upkeep

/-!
# What tending leaves alone

Charges, and whatever else is not the close of a context, keep every scope, every orphan and every
future, and no context that is there already becomes an account's or a thread's own.
-/

namespace HeapLedger

open Ledger

namespace Ledger

structure Still (l l' : Ledger) : Prop where
  closed : ∀ c, (l'.context c).closed = (l.context c).closed
  scopes : ∀ t, (l'.thread t).scopes = (l.thread t).scopes
  home : ∀ t s c, (l'.thread t).home = .settled s c → (l.thread t).home = .settled s c ∨ l.contexts.size ≤ c
  opened : ∀ a, l.Opened a → l'.Opened a
  fresh : ∀ a, l'.Opened a → l.Opened a ∨ l.contexts.size ≤ a.context
  trackers_size : l.trackers.size ≤ l'.trackers.size
  contexts_size : l.contexts.size ≤ l'.contexts.size
  services_size : l.services.size ≤ l'.services.size
  threads_size : l.threads.size ≤ l'.threads.size
  orphans : l'.orphans = l.orphans
  futures : l'.futures = l.futures

theorem Still.refl (l : Ledger) : Still l l where
  closed _ := rfl
  scopes _ := rfl
  home _ _ _ h := .inl h
  opened _ h := h
  fresh _ h := .inl h
  trackers_size := Nat.le_refl _
  contexts_size := Nat.le_refl _
  services_size := Nat.le_refl _
  threads_size := Nat.le_refl _
  orphans := rfl
  futures := rfl

theorem Still.trans {l l' l'' : Ledger} (h : Still l l') (h' : Still l' l'') : Still l l'' where
  closed c := (h'.closed c).trans (h.closed c)
  scopes t := (h'.scopes t).trans (h.scopes t)
  home t s c hc := by
    rcases h'.home t s c hc with hc | hc
    · exact h.home t s c hc
    · exact .inr (Nat.le_trans h.contexts_size hc)
  opened a ha := h'.opened a (h.opened a ha)
  fresh a ha := by
    rcases h'.fresh a ha with ha | ha
    · exact h.fresh a ha
    · exact .inr (Nat.le_trans h.contexts_size ha)
  trackers_size := Nat.le_trans h.trackers_size h'.trackers_size
  contexts_size := Nat.le_trans h.contexts_size h'.contexts_size
  services_size := Nat.le_trans h.services_size h'.services_size
  threads_size := Nat.le_trans h.threads_size h'.threads_size
  orphans := h'.orphans.trans h.orphans
  futures := h'.futures.trans h.futures

theorem Still.serves {l l' : Ledger} (h : Still l l') {rs : List Request} (hr : l.Serves rs) : l'.Serves rs :=
  fun r hm => Nat.lt_of_lt_of_le (hr r hm) h.services_size

/-! ## Single changes -/

section
variable (l : Ledger)

theorem still_post {e : Entry} (he : ∀ a, e ≠ .opened a) : Still l (l.post e) :=
  { Still.refl l with
    opened := fun _ ha => (opened_post he).mpr ha
    fresh := fun _ ha => .inl ((opened_post he).mp ha) }

theorem still_modifyTracker (i : TrackerId) (f : Tracker → Tracker) : Still l (l.modifyTracker i f) :=
  { Still.refl l with trackers_size := Nat.le_of_eq (trackers_size_modifyTracker ..).symm }

theorem still_modifyService (s : ServiceId) (f : Service → Service) : Still l (l.modifyService s f) :=
  { Still.refl l with services_size := Nat.le_of_eq (services_size_modifyService ..).symm }

theorem still_modifyContext (c : ContextId) {f : Context → Context} (hf : ∀ ctx, (f ctx).closed = ctx.closed) :
    Still l (l.modifyContext c f) :=
  { Still.refl l with
    closed := fun j => Table.get_modify_of_eq _ c j Context.closed hf
    contexts_size := Nat.le_of_eq (contexts_size_modifyContext ..).symm }

theorem still_modifyThread (t : ThreadId) {f : Thread → Thread} (hs : ∀ th, (f th).scopes = th.scopes)
    (hh : ∀ s c, (f (l.thread t)).home = .settled s c → (l.thread t).home = .settled s c ∨ l.contexts.size ≤ c) :
    Still l (l.modifyThread t f) :=
  { Still.refl l with
    scopes := fun j => Table.get_modify_of_eq _ t j Thread.scopes hs
    home := fun j s c hj => by
      rw [thread_modifyThread] at hj
      split at hj
      · rename_i htj
        obtain ⟨rfl, _⟩ := htj
        exact hh s c hj
      · exact .inl hj
    threads_size := Nat.le_of_eq (threads_size_modifyThread ..).symm }

theorem still_addContext (ctx : Context) (hc : ctx.closed = false) :
    Still l { l with contexts := l.contexts.add ctx } := by
  have hsize : (l.contexts.add ctx).size = l.contexts.size + 1 := Table.size_add ..
  exact { Still.refl l with
    closed := fun j => by
      show ((l.contexts.add ctx).get j).closed = (l.contexts.get j).closed
      rw [Table.get_add]
      split
      · rename_i hj
        rw [Table.get_of_size_le (Nat.le_of_eq hj.symm)]
        exact hc
      · rfl
    contexts_size := Nat.le_trans (Nat.le_succ _) (Nat.le_of_eq hsize.symm) }

theorem still_seek {t : ThreadId} {s : ServiceId} {k : TaskKey} : Still l (l.seek t s k).1 := by
  obtain ⟨f, g, -, hg, heq⟩ := l.seek_eq t s k
  rw [heq]
  refine (still_modifyService l s f).trans (still_modifyThread _ t (fun th => (congrArg Thread.scopes (hg th) :)) ?_)
  exact fun s c h => .inl ((congrArg Thread.home (hg _) :).symm.trans h)

theorem still_park {t : ThreadId} {s : ServiceId} {d : Delta} : Still l (l.park t s d).1 := by
  have hcarry : ∀ c, Still l (l.modifyThread t fun th => { th with carry := some c }) :=
    fun c => still_modifyThread l t (fun _ => rfl) fun _ _ h => .inl h
  unfold park conclude
  cases (l.thread t).carry with
  | none => exact (hcarry _).trans (still_post _ fun _ => nofun)
  | some c =>
    dsimp only
    split
    · exact (hcarry _).trans (still_post _ fun _ => nofun)
    · exact still_post l fun _ => nofun

theorem still_takeIn {t : ThreadId} {e : Entry} {c : ContextId} {d : Delta} (hi : l.Intake t e c d) :
    Still l (l.takeIn e c d).1 := by
  have hne : ∀ a, e ≠ .opened a := by cases hi <;> exact fun _ => nofun
  have htake := (still_post l hne).trans
    (still_modifyContext (l.post e) c (f := fun ctx => { ctx with cache := ((l.context c).cache.consume d).1 })
      fun _ => rfl)
  exact takeIn_keeps htake fun _ _ h => h.trans (still_post _ fun _ => nofun)

theorem still_drain (c : ContextId) : Still l (l.drain c) := by
  have hpost : Still l (l.post (.flushed c)) := still_post l fun _ => nofun
  have htake := hpost.trans
    (still_modifyContext _ c (f := fun ctx => { ctx with cache := (l.context c).cache.take.1 }) fun _ => rfl)
  exact htake.trans (still_post _ fun _ => nofun)

theorem still_endHome {t : ThreadId} : Still l (l.endHome t) :=
  still_modifyThread l t (fun _ => rfl) fun _ _ h => by cases h

theorem still_newHome {t : ThreadId} {s : ServiceId} : Still l (l.newHome t s) := by
  have hadd := still_addContext l
    { identity := .thread ⟨l.nextThread⟩, tracker := (l.service s).threadTracker
      cache := { threshold := (l.service s).threshold }, initialized := true } rfl
  refine { hadd with scopes := ?_, home := ?_, threads_size := ?_ }
  · intro j
    exact Table.get_modify_of_eq _ t j Thread.scopes fun _ => rfl
  · intro j s' c hj
    have hj : ((l.threads.modify t _).get j).home = .settled s' c := hj
    rw [Table.get_modify] at hj
    split at hj
    · obtain ⟨-, rfl⟩ := Home.settled.inj hj
      exact .inr (Nat.le_refl _)
    · exact .inl hj
  · exact Nat.le_of_eq (Table.size_modify ..).symm

theorem still_openAccount {s : ServiceId} {i : TrackerId} : Still l (l.openAccount s i).1 := by
  have hadd := still_addContext l
    { identity := .task ⟨l.nextTask⟩, tracker := i, initialized := true
      cache := { threshold := (l.service s).threshold } } rfl
  refine { hadd with opened := ?_, fresh := ?_ }
  · intro a ha
    exact List.mem_cons_of_mem _ (List.mem_cons_of_mem _ ha)
  · intro a ha
    rcases List.mem_cons.mp ha with ha | ha
    · obtain rfl := Entry.opened.inj ha
      exact .inr (Nat.le_refl _)
    · exact .inl ((List.mem_cons.mp ha).resolve_left nofun)

end

end Ledger

/-! ## Moves -/

theorem Charging.still {t : ThreadId} {m m' : Moment} (h : Charging t m m') : Still m.1 m'.1 := by
  cases h with
  | receive | spend => exact still_modifyTracker ..
  | hear | event | decline => exact still_post _ fun _ => nofun
  | skip => exact still_modifyService ..
  | hook b => exact still_modifyThread _ t (fun _ => rfl) fun _ _ h => .inl h
  | resolve => exact (still_seek _).trans (still_post _ fun _ => nofun)
  | park => exact still_park _
  | take hi => exact still_takeIn _ hi
  | settle => exact still_newHome _

theorem Tending.still {t : ThreadId} {m m' : Moment} (h : Tending t m m') : Still m.1 m'.1 := by
  cases h with
  | charging h => exact h.still
  | notice | bound | report | consume => exact still_post _ fun _ => nofun
  | flush => exact still_drain _ _
  | markInitialized | succeed => exact still_modifyContext _ _ fun _ => rfl
  | @newTracker l =>
    exact { Still.refl l with
      trackers_size := Nat.le_trans (Nat.le_succ _) (Nat.le_of_eq (Table.size_add ..).symm) }
  | bindEcho => exact still_modifyTracker ..
  | newContext => exact still_addContext _ _ rfl
  | @newThread l =>
    exact { Still.refl l with
      scopes := fun j => congrArg Thread.scopes (thread_newThread l j)
      home := fun j s c hj => .inl (thread_newThread l j ▸ hj)
      threads_size := Nat.le_trans (Nat.le_succ _) (Nat.le_of_eq (Table.size_add ..).symm) }
  | discreet hf =>
    exact still_modifyThread _ t (fun th => (hf th).2.2.2.1) fun _ _ h => .inl ((hf _).1.symm.trans h)
  | atExit => exact still_modifyThread _ t (fun _ => rfl) fun _ _ h => .inl h
  | openAccount => exact still_openAccount _
  | @addService l q i source slots threshold =>
    have hadd : ∀ svc, Still l { l with services := l.services.add svc } := fun svc =>
      { Still.refl l with
        services_size := Nat.le_trans (Nat.le_succ _) (Nat.le_of_eq (Table.size_add ..).symm) }
    show Still l (l.addService source slots i threshold).1
    unfold Ledger.addService
    dsimp only
    split <;> exact hadd _
  | count | slot => exact still_modifyService ..
  | @publish l q c r k =>
    have hctx : Still l (l.modifyContext c fun ctx => { ctx with published := k :: ctx.published }) :=
      still_modifyContext l c fun _ => rfl
    exact { hctx with }
  | @newRoster l | @unpublish l | @withdraw l | @activate l | @allocators l | @numbers l =>
    exact { Still.refl l with }

theorem Tendings.still {t : ThreadId} {m m' : Moment} (h : Tendings t m m') : Still m.1 m'.1 := by
  induction h with
  | refl => exact Still.refl _
  | tail _ hm ih => exact ih.trans hm.still

end HeapLedger
