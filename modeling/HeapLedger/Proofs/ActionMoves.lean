import HeapLedger.Proofs.ChargeMoves

/-!
# Actions are made of moves

What is done outside of charges, piece by piece: flushes and closes, scopes and orphans, hooks of
allocators, futures, and the end of a thread.
-/

namespace HeapLedger

open Ledger

section
variable {t : ThreadId} {m m' : Moment}

theorem Move.threads_size (hm : Move t m m') : m.1.threads.size ≤ m'.1.threads.size := by
  cases hm with
  | tending hm => exact hm.still.threads_size
  | enter | leave | closeHome => exact Nat.le_of_eq (threads_size_modifyThread ..).symm
  | _ => exact Nat.le_refl _

theorem Move.ready (h : Ready t m.1) (hm : Move t m m') : Ready t m'.1 where
  sound := hm.sound h.sound
  carries := hm.carries h.carries
  thread := Nat.lt_of_lt_of_le h.thread hm.threads_size

theorem Moves.ready (h : Ready t m.1) (hm : Moves t m m') : Ready t m'.1 := by
  induction hm with
  | refl => exact h
  | tail _ hstep ih => exact hstep.ready ih

theorem Leavings.ready (h : Ready t m.1) (hm : Leavings t m m') : Ready t m'.1 := hm.moves.ready h

end

namespace Ledger

variable {t : ThreadId} {l : Ledger} {q : List (TrackerId × Delta)}

/-! ## Commits from outside of a charge -/

theorem consume_tendings {i : TrackerId} (b : Delta) (hi : i < l.trackers.size) (h : Ready t l) :
    Tendings t (l, q) (l.consume t i b, q) := by
  have hpost : Tending t (l, q) (l.post (.consumed i b), l.sent i b ++ q) := .consume b hi
  exact Relation.ReflTransGen.head hpost
    (propagate_chargings obliges_charge (Tendings.ready h (.single hpost)) i b).tendings

theorem flush_eq (respond : Responder) (c : ContextId) :
    (l.flush respond t c).1 = propagate respond (l.drain c) t (l.context c).tracker (l.context c).pending := by
  have htracker : (((l.post (.flushed c)).modifyContext c fun ctx =>
      { ctx with cache := (l.context c).cache.take.1 }).context c).tracker = (l.context c).tracker :=
    Table.get_modify_of_eq _ c c Context.tracker fun _ => rfl
  simp only [flush, commit, drain]
  rw [htracker]
  rfl

theorem flush_tendings {c : ContextId} (hc : c < l.contexts.size) (ho : (l.context c).closed = false)
    (h : Ready t l) : Tendings t (l, q) ((l.flush charge t c).1, q) := by
  have hdrain : Tending t (l, q) (l.drain c, l.sent (l.context c).tracker (l.context c).pending ++ q) :=
    .flush hc ho
  rw [flush_eq]
  exact Relation.ReflTransGen.head hdrain
    (propagate_chargings obliges_charge (Tendings.ready h (.single hdrain)) _ _).tendings

theorem homeOf_eq {s : ServiceId} {c : ContextId} (h : l.homeOf t s = some c) :
    (l.thread t).home = .settled s c := by
  unfold homeOf at h
  split at h
  · split at h
    · rename_i hh ho
      rw [hh, ho, Option.some.inj h]
    · cases h
  · cases h

theorem flushHome_tendings {s : ServiceId} (h : Ready t l) :
    Tendings t (l, q) ((l.flushHome charge t s).1, q) := by
  unfold flushHome
  cases hc : l.homeOf t s with
  | none => exact .refl
  | some c =>
    obtain ⟨hown, hopen, -⟩ := (h.sound.thread t).home s c (homeOf_eq hc)
    exact flush_tendings hown.1 hopen h

theorem flushThread_tendings {s : ServiceId} (h : Ready t l) :
    Tendings t (l, q) ((l.flushThread t s).1, q) := by
  unfold flushThread
  split
  · exact .refl
  · exact guarded_steps .charging h fun h' => flushHome_tendings h'

/-! ## Closes -/

theorem closeContext_eq (c : ContextId) :
    l.closeContext t c = propagate charge (l.shut c) t (l.context c).tracker (l.context c).pending := by
  let closed : Ledger := l.modifyContext c fun ctx => { ctx with closed := true }
  have htracker : (closed.context c).tracker = (l.context c).tracker :=
    Table.get_modify_of_eq _ c c Context.tracker fun _ => rfl
  have hpending : (closed.context c).pending = (l.context c).pending :=
    Table.get_modify_of_eq _ c c Context.pending fun _ => rfl
  unfold closeContext
  rw [flush_eq, htracker, hpending]
  rfl

theorem shut_chargings {c : ContextId} (h : Ready t (l.shut c)) :
    Chargings t (l.shut c, l.sent (l.context c).tracker (l.context c).pending ++ q) (l.closeContext t c, q) := by
  rw [closeContext_eq]
  exact propagate_chargings obliges_charge h _ _

theorem closeContext_moves {c : ContextId} (hcl : l.Closable c) (h : Ready t l) :
    Moves t (l, q) (l.closeContext t c, q) := by
  have hclose : Move t (l, q) (l.shut c, l.sent (l.context c).tracker (l.context c).pending ++ q) := .close hcl
  exact Relation.ReflTransGen.head hclose (shut_chargings (hclose.ready h)).tendings.moves

theorem inScope_of_mem {sc : Scope} (h : sc ∈ (l.thread t).scopes) : l.inScope sc.account = true := by
  rcases l.threads.get_mem t with hm | hd
  · refine List.any_eq_true.mpr ⟨_, hm, List.any_eq_true.mpr ⟨sc, h, ?_⟩⟩
    simp
  · rw [thread, hd] at h
    cases h

/-- An account in no scope can be closed: no thread has its context as its own, and it is under no key. -/
theorem closable_account (h : Sound l) {a : Account} (ha : l.Opened a)
    (ho : (l.context a.context).closed = false) (hs : l.inScope a = false) : l.Closable a.context where
  lt := (h.opened a ha).1.1
  live := ho
  home t s hc := ((h.thread t).home s _ hc).2.2 a ha rfl
  scope t sc hsc he := by
    obtain rfl := h.opened_inj _ _ ((h.thread t).scope sc hsc).1 ha (.inr he)
    exact absurd ((inScope_of_mem hsc).symm.trans hs) nofun
  key r t k _ hk := by
    rw [(h.opened a ha).1.2.2] at hk
    cases hk

theorem closeAccount_leavings {a : Account} (ha : l.Opened a) (ho : (l.context a.context).closed = false)
    (hs : l.inScope a = false) (h : Ready t l) : Leavings t (l, q) (l.closeAccount t a, q) := by
  let told : Ledger := l.notice (.accountClosed a.key (l.context a.context).pending)
  have hnotice : Leaving t (l, q) (told, q) := .minor (.notice _)
  have hready := Leavings.ready h (.single hnotice)
  have hclose : Leaving t (told, q)
      (told.shut a.context, told.sent (told.context a.context).tracker (told.context a.context).pending ++ q) :=
    .close ((opened_post (by simp)).mpr ha) { closable_account h.sound ha ho hs with }
  exact Relation.ReflTransGen.head hnotice (Relation.ReflTransGen.head hclose
    (shut_chargings (hclose.move.ready hready)).leavings)

/-! ## Scopes and orphans -/

theorem closeOrphan_leavings {a : Account} (ha : l.Opened a) (ho : (l.context a.context).closed = false)
    (h : Ready t l) : Leavings t (l, q) (l.closeOrphan t a, q) := by
  unfold closeOrphan
  split
  · rename_i hc
    have hs : l.inScope a = false := by
      simp only [Bool.and_eq_true, Bool.not_eq_true'] at hc
      exact hc.2
    have horphan : Leaving t (l, q) ({ l with orphans := l.orphans.erase a }, q) := .orphans _
    exact Relation.ReflTransGen.head horphan (closeAccount_leavings ha ho hs (horphan.move.ready h))
  · exact .refl

theorem release_leavings {a : Account} (ha : l.Opened a) (ho : (l.context a.context).closed = false)
    (h : Ready t l) : Leavings t (l, q) (l.release t a, q) := by
  unfold release
  split
  · exact .single (.orphans _)
  · rename_i hs
    exact closeAccount_leavings ha ho (Bool.eq_false_iff.mpr hs) h

theorem leaveScope_leavings (h : Ready t l) : Leavings t (l, q) (l.leaveScope t, q) := by
  unfold leaveScope
  cases hs : (l.thread t).scopes with
  | nil => exact .refl
  | cons sc outer =>
    have hleave : Leaving t (l, q) (l.leave t, q) := .leave
    obtain ⟨ha, ho⟩ := (h.sound.thread t).scope sc (hs ▸ List.mem_cons_self ..)
    exact Relation.ReflTransGen.head hleave (closeOrphan_leavings ha ho (hleave.move.ready h))

theorem unwind_leavings : ∀ (n : Nat) {l : Ledger}, Ready t l → Leavings t (l, q) (l.unwind t n, q)
  | 0, _, _ => .refl
  | n + 1, _, h =>
    have hfirst := leaveScope_leavings h
    hfirst.trans (unwind_leavings n (hfirst.ready h))

theorem within_moves (h : Ready t l) {a : Account} (f : Ledger → Ledger) (ha : l.Opened a)
    (ho : (l.context a.context).closed = false)
    (hf : Ready t (l.enter t a) → Chargings t (l.enter t a, q) (f (l.enter t a), q)) :
    Moves t (l, q) (l.within t a f, q) := by
  have henter : Move t (l, q) (l.enter t a, q) := .enter ha ho
  exact (Relation.ReflTransGen.head henter (hf (henter.ready h)).tendings.moves).tail .leave

/-! ## Workers and the guard -/

theorem bindWorker_minors (s : ServiceId) : Minors t (l, q) ((l.bindWorker t s).1, q) := by
  rw [bindWorker_eq]
  split
  · exact .refl
  · split
    · exact .refl
    · rename_i i hi
      have hslot : Minors t (l, q) (l.modifySlot s i fun _ => { bound := true }, q) := .single (.slot s i rfl)
      exact ((hslot.tail (.discreet fun _ => by simp)).tail (.bound s i)).tail (.notice _)

theorem unbindWorker_minors : Minors t (l, q) ((l.unbindWorker t).1, q) := by
  rw [unbindWorker_eq]
  split
  · exact .refl
  · rename_i w hw
    have hslot : Minors t (l, q) (l.modifySlot w.service w.slot fun _ => {}, q) :=
      .single (.slot w.service w.slot rfl)
    exact (hslot.tail (.discreet fun _ => by simp)).tail (.notice _)

theorem guardThread_minors : Minors t (l, q) ((l.guardThread t).1, q) := by
  unfold guardThread
  split
  · exact .refl
  · exact .single (.discreet fun _ => by simp)

theorem unguardThread_minors : Minors t (l, q) ((l.unguardThread t).1, q) := by
  unfold unguardThread
  split
  · exact .single (.discreet fun _ => by simp)
  · exact .refl

/-! ## The end of a thread -/

theorem ready_endHome (h : Ready t l) : Ready t (l.endHome t) :=
  ⟨h.sound.endHome, h.carries.endHome, lt_of_lt_of_eq h.thread (threads_size_modifyThread ..).symm⟩

theorem closeHome_leavings (h : Ready t l) : Leavings t (l, q) (l.closeHome t, q) := by
  unfold closeHome
  cases hh : (l.thread t).home with
  | settled s c =>
    have hclose : Leaving t (l, q) ((l.endHome t).shut c, _) := .closeHome hh
    exact Relation.ReflTransGen.head hclose (shut_chargings (l := l.endHome t) (hclose.move.ready h)).leavings
  | absent => exact .refl
  | closed => exact .refl

theorem runExitCharges_leavings (h : Ready t l) : Leavings t (l, q) (l.runExitCharges t, q) := by
  have hall : Chargings t (l, q) (l.chargeAll t .atExit (l.thread t).exitCharges, q) :=
    chargeAll_chargings (h.sound.thread t).exit_requests h
  unfold runExitCharges
  dsimp only
  split
  · exact hall.leavings.trans (closeHome_leavings (hall.ready h))
  · exact hall.leavings

theorem destroy_leavings (h : Ready t l) (d : Destructor) : Leavings t (l, q) (destroy t l d, q) := by
  cases d with
  | home => exact closeHome_leavings h
  | exitCharges => exact runExitCharges_leavings h

theorem destroys_leavings : ∀ {ds : List Destructor} {l : Ledger}, Ready t l →
    Leavings t (l, q) (ds.foldl (destroy t) l, q)
  | [], _, _ => .refl
  | d :: _, _, h =>
    have hfirst := destroy_leavings h d
    hfirst.trans (destroys_leavings (hfirst.ready h))

def unloaded (l : Ledger) (t : ThreadId) : Ledger :=
  (((l.unwind t (l.depth t)).unbindWorker t).1.unguardThread t).1

theorem unloaded_leavings (h : Ready t l) : Leavings t (l, q) (l.unloaded t, q) :=
  ((unwind_leavings _ h).trans unbindWorker_minors.leavings).trans unguardThread_minors.leavings

theorem exit_leavings (h : Ready t l) : Leavings t (l, q) (l.exit t, q) :=
  (unloaded_leavings h).trans (destroys_leavings ((unloaded_leavings (q := q) h).ready h))

/-! ## Blocks -/

theorem countCall_tendings (h : Ready t l) (m : AllocatorId) : Tendings t (l, q) (l.countCall t m, q) := by
  unfold countCall
  split
  · refine .single (.allocators fun j s hs => h.sound.hook_services j s ?_)
    have htable := Table.get_modify_of_eq l.allocators m j
      (f := fun al => { al with nested := al.nested + 1 }) Allocator.table fun _ => rfl
    exact htable ▸ hs
  · exact .refl

theorem chargeBlock_tendings {s : ServiceId} (hs : s < l.services.size) (h : Ready t l) (m : AllocatorId)
    (kind : BlockEvent) (a : Address) (layout : Layout) :
    Tendings t (l, q) (l.chargeBlock t m s kind a layout, q) := by
  have hcount := countCall_tendings (q := q) h m
  exact hcount.trans
    (obliges_charge _ q s _ (hcount.ready h) (Nat.lt_of_lt_of_le hs hcount.still.services_size)).tendings

theorem tellHook_tendings {hook : Hook × Nat} (hs : ∀ s, hook.1 = .adapter s → s < l.services.size) (h : Ready t l)
    (m : AllocatorId) (kind : BlockEvent) (a : Address) (layout : Layout) :
    Tendings t (l, q) (tellHook t m kind a layout l hook, q) := by
  let told : Ledger := l.post (.reported ⟨m, hook.2, kind, a, layout, l.heap.find? a⟩)
  have hreport : Tendings t (l, q) (told, q) := .single (.report _)
  unfold tellHook runHook
  split
  · next s heq =>
    have hs' : s < told.services.size := hs s heq
    exact hreport.trans (chargeBlock_tendings hs' (hreport.ready h) m kind a layout)
  · exact hreport.tail (.charging (.event _))

theorem hooks_tendings {m : AllocatorId} {kind : BlockEvent} {a : Address} {layout : Layout} :
    ∀ {hooks : List (Hook × Nat)} {l : Ledger}, (∀ hook ∈ hooks, ∀ s, hook.1 = .adapter s → s < l.services.size) →
      Ready t l → Tendings t (l, q) (hooks.foldl (tellHook t m kind a layout) l, q)
  | [], _, _, _ => .refl
  | hook :: hooks, l, hs, h => by
    have hfirst : Tendings t (l, q) (tellHook t m kind a layout l hook, q) :=
      tellHook_tendings (hs hook (List.mem_cons_self ..)) h m kind a layout
    refine hfirst.trans (hooks_tendings (fun hook hm s heq => ?_) (hfirst.ready h))
    exact Nat.lt_of_lt_of_le (hs hook (List.mem_cons_of_mem _ hm) s heq) hfirst.still.services_size

theorem runHooks_tendings (h : Ready t l) (m : AllocatorId) (kind : BlockEvent) (a : Address)
    (layout : Layout) : Tendings t (l, q) (l.runHooks t m kind a layout, q) := by
  refine hooks_tendings (fun hook hm s heq => h.sound.lt_of_adapter (m := m) ?_) h
  exact heq ▸ List.fst_mem_of_mem_zipIdx hm

theorem heap_tending (heap : Directory Address Block) : Tending t (l, q) ({ l with heap }, q) :=
  .numbers heap l.nextThread l.deadKeys (Nat.le_refl l.nextTask) (Nat.le_refl l.nextThread)

/-- A block is written down, and the hooks are told. -/
theorem Tendings.heapHooks {l' : Ledger} (h : Ready t l) (hm : Tendings t (l, q) (l', q))
    (heap : Directory Address Block) (m : AllocatorId) (kind : BlockEvent) (a : Address) (layout : Layout) :
    Tendings t (l, q) ({ l' with heap }.runHooks t m kind a layout, q) := by
  have hput : Tendings t (l, q) ({ l' with heap }, q) := hm.tail (heap_tending heap)
  exact hput.trans (runHooks_tendings (hput.ready h) m kind a layout)

theorem allocate_tendings (h : Ready t l) (m : AllocatorId) (layout : Layout) (granted : Option Address) :
    Tendings t (l, q) (l.allocate t m layout granted, q) := by
  have hcount := countCall_tendings (q := q) h m
  unfold allocate
  cases granted with
  | none => exact hcount
  | some a => exact Tendings.heapHooks h hcount _ m .alloc a layout

theorem deallocate_tendings (h : Ready t l) (a : Address) : Tendings t (l, q) (l.deallocate t a, q) := by
  unfold deallocate
  split
  · exact .refl
  · rename_i block hb
    have hhooks := runHooks_tendings (q := q) h block.allocator .free a block.layout
    exact (hhooks.trans (countCall_tendings (hhooks.ready h) _)).tail (heap_tending _)

theorem reallocate_tendings (h : Ready t l) (a : Address) (size : UInt64) (granted : Option Address) :
    Tendings t (l, q) (l.reallocate t a size granted, q) := by
  unfold reallocate
  split
  · exact .refl
  · rename_i block hb
    have hhooks := runHooks_tendings (q := q) h block.allocator .free a block.layout
    have hfree := hhooks.trans (countCall_tendings (hhooks.ready h) block.allocator)
    cases granted with
    | none => exact hfree.trans (runHooks_tendings (Tendings.ready h hfree) ..)
    | some a' => exact Tendings.heapHooks h hfree _ block.allocator .alloc a' _

theorem install_tendings (h : Ready t l) (m : AllocatorId) (hook : Hook)
    (hs : ∀ s, hook = .adapter s → s < l.services.size) : Tendings t (l, q) ((l.install m hook).1, q) := by
  refine .single (.allocators fun j s hj => ?_)
  rw [Table.get_modify] at hj
  split at hj
  · rcases HookTable.mem_filled_install hj with rfl | hj
    · exact hs s rfl
    · exact h.sound.hook_services m s hj
  · exact h.sound.hook_services j s hj

theorem countRegistration_tendings (s : ServiceId) : Tendings t (l, q) (l.countRegistration s, q) := by
  have hcount : Tendings t (l, q) (l.modifyService s fun svc =>
      { svc with registrations := svc.registrations + 1 }, q) := .single (.count s)
  unfold countRegistration
  dsimp only
  split
  · exact hcount
  · exact hcount.tail (.notice _)

theorem tellInstalled_tendings (threshold : UInt64) (installed : Except RegisterError Nat) :
    Tendings t (l, q) (l.tellInstalled threshold installed, q) := by
  unfold tellInstalled
  split
  · exact .single (.notice _)
  · exact .single (.notice _)
  · exact .refl

theorem register_tendings (h : Ready t l) {s : ServiceId} (hs : s < l.services.size) (m : AllocatorId) :
    Tendings t (l, q) ((l.register m s).1, q) := by
  have hcount : Tendings t (l, q) (l.countRegistration s, q) := countRegistration_tendings s
  have hinstall := install_tendings (q := q) (hcount.ready h) m (.adapter s) fun s' hs' =>
    Hook.adapter.inj hs' ▸ Nat.lt_of_lt_of_le hs hcount.still.services_size
  exact (hcount.trans hinstall).trans (tellInstalled_tendings _ _)

theorem newAllocator_tending (h : Sound l) (usable : UsableSize) :
    Tending t (l, q) ((l.newAllocator usable).1, q) := by
  refine .allocators fun j s hj => ?_
  rw [Table.get_add] at hj
  split at hj
  · cases hj
  · exact h.hook_services j s hj

theorem Tendings.foldl {α : Type} {f : Ledger → α → Ledger} (h : Ready t l)
    (hf : ∀ l a, Ready t l → Tendings t (l, q) (f l a, q)) (xs : List α) {l' : Ledger}
    (hm : Tendings t (l, q) (l', q)) : Tendings t (l, q) (xs.foldl f l', q) := by
  induction xs generalizing l' with
  | nil => exact hm
  | cons x xs ih => exact ih (hm.trans (hf _ x (hm.ready h)))

theorem systemBlocks_tendings (h : Ready t l) {s : ServiceId} (hs : s < l.services.size) (sizes : List UInt64)
    (align : UInt64) : Tendings t (l, q) ((l.systemBlocks t s sizes align).1, q) := by
  have hnew : Tendings t (l, q) ((l.newAllocator .exact).1, q) := .single (newAllocator_tending h.sound .exact)
  have hregister := hnew.trans (register_tendings (hnew.ready h) hs l.allocators.size)
  refine Tendings.foldl h (fun l b h => deallocate_tendings h b.2) _ (Tendings.foldl h ?_ _ hregister)
  exact fun l b h => allocate_tendings h _ b.1 (some b.2)

/-! ## Services and futures -/

theorem newService_tendings {settings : ServiceSettings} (hi : ∀ i ∈ settings.tracker, i < l.trackers.size) :
    Tendings t (l, q) ((l.newService settings).1, q) := by
  have hadd : ∀ {l' : Ledger} {i}, Tendings t (l, q) (l', q) → i < l'.trackers.size →
      Tendings t (l, q) (((l'.notice (.serviceCreated l'.services.size settings.threshold settings.slots
        settings.source)).addService settings.source settings.slots i settings.threshold).1, q) :=
    fun hm hlt => (hm.tail (.notice _)).tail (.addService settings.source settings.slots settings.threshold hlt)
  unfold newService trackerFor
  cases ht : settings.tracker with
  | some i => exact hadd .refl (hi i ht)
  | none =>
    refine hadd (.single (.newTracker (.counter "threads" {}) none (fun _ h => by cases h)
      (fun _ h => by cases h) fun _ _ h => (TrackerKind.counter.inj h).2.symm)) ?_
    exact lt_of_lt_of_eq (Nat.lt_succ_self _) (Table.size_add ..).symm

theorem newFuture_moves (h : Sound l) {s : ServiceId} {i : TrackerId} (name : String) {polls : List PollScript}
    {onDrop : List Request} (hi : i < l.trackers.size) (hp : ∀ p ∈ polls, l.Serves p.charges)
    (hd : l.Serves onDrop) : Moves t (l, q) ((l.newFuture s i name polls onDrop).1, q) := by
  have hopen : Tending t (l, q) ((l.openAccount s i).1, q) := .openAccount s hi
  refine (Relation.ReflTransGen.single (.tending hopen)).tail (.futures fun f => ?_)
  rw [Table.get_add]
  split
  · exact ⟨hp, hd⟩
  · exact h.future_requests f

theorem serves_next (h : Sound l) (f : FutureId) : l.Serves (l.future f).next.charges := by
  unfold Future.next
  cases hp : (l.future f).polls.head? with
  | none => exact fun _ hr => by cases hr
  | some p => exact (h.future_requests f).1 p (List.mem_of_mem_head? hp)

theorem nextPoll_move (h : Sound l) (f : FutureId) :
    Move t (l, q) ({ l with
      futures := l.futures.modify f fun future => { future with polls := future.polls.tail } }, q) := by
  refine .futures fun j => ?_
  rw [Table.get_modify]
  split
  · exact ⟨fun p hp => (h.future_requests j).1 p (List.mem_of_mem_tail hp), (h.future_requests j).2⟩
  · exact h.future_requests j

theorem poll_moves {f : FutureId} (ha : l.Opened (l.future f).account)
    (ho : (l.context (l.future f).account.context).closed = false) (h : Ready t l) :
    Moves t (l, q) ((l.poll t f).1, q) := by
  have hnext := nextPoll_move (t := t) (q := q) h.sound f
  have hwithin := within_moves (q := q) (hnext.ready h)
    (·.chargeAll t (.polled (l.future f).name) (l.future f).next.charges) ha ho
    fun h' => chargeAll_chargings (serves_next h.sound f) h'
  exact Relation.ReflTransGen.head hnext hwithin

/-- Scopes are as before after something is done within one more. -/
theorem within_still {a : Account} (f : Ledger → Ledger) (ht : t < l.threads.size)
    (hf : Still (l.enter t a) (f (l.enter t a))) : Still l (l.within t a f) := by
  have hinner : ((f (l.enter t a)).thread t).scopes = ⟨a, (l.thread t).active⟩ :: (l.thread t).scopes := by
    rw [hf.scopes, enter, thread_modifyThread, if_pos ⟨rfl, ht⟩, Thread.enter]
  have hsize : l.threads.size ≤ (f (l.enter t a)).threads.size :=
    Nat.le_trans (Nat.le_of_eq (threads_size_modifyThread ..).symm) hf.threads_size
  have hleave : ∀ th : Thread, th.leave.home = th.home := by
    intro th
    unfold Thread.leave
    split <;> rfl
  exact { hf with
    scopes := fun j => by
      show ((f (l.enter t a)).leave t |>.thread j).scopes = _
      rw [leave, thread_modifyThread]
      by_cases htj : t = j
      · subst htj
        rw [if_pos ⟨rfl, Nat.lt_of_lt_of_le ht hsize⟩, Thread.leave, hinner]
      · rw [if_neg fun hn => htj hn.1, hf.scopes, enter, thread_modifyThread, if_neg fun hn => htj hn.1]
    home := fun j s c hj => by
      have hj : (((f (l.enter t a)).threads.modify t Thread.leave).get j).home = .settled s c := hj
      rw [Table.get_modify_of_eq _ t j Thread.home hleave] at hj
      rcases hf.home j s c hj with hj | hj
      · left
        rw [← hj]
        exact (Table.get_modify_of_eq _ t j Thread.home fun _ => by rfl).symm
      · exact .inr hj
    threads_size := Nat.le_trans hsize (Nat.le_of_eq (threads_size_modifyThread ..).symm) }

theorem inScope_eq_false_iff {a : Account} :
    l.inScope a = false ↔ ∀ t, ∀ sc ∈ (l.thread t).scopes, sc.account ≠ a := by
  constructor
  · rintro h t sc hsc rfl
    exact absurd ((inScope_of_mem hsc).symm.trans h) nofun
  · intro h
    refine Bool.eq_false_iff.mpr fun ht => ?_
    obtain ⟨th, hth, hany⟩ := List.any_eq_true.mp ht
    obtain ⟨sc, hsc, he⟩ := List.any_eq_true.mp hany
    obtain ⟨i, hi⟩ := List.getElem?_of_mem hth
    have hget : l.thread i = th := by simp [thread, Table.get, List.getD_eq_getElem?_getD, hi]
    exact h i sc (hget ▸ hsc) (of_decide_eq_true he)

theorem Still.inScope {l' : Ledger} (h : Still l l') {a : Account} (hs : l.inScope a = false) :
    l'.inScope a = false :=
  inScope_eq_false_iff.mpr fun t sc hsc => inScope_eq_false_iff.mp hs t sc (h.scopes t ▸ hsc)

theorem dropFuture_moves {f : FutureId} (ha : l.Opened (l.future f).account)
    (ho : (l.context (l.future f).account.context).closed = false)
    (hs : l.inScope (l.future f).account = false) (h : Ready t l) :
    Moves t (l, q) (l.dropFuture t f, q) := by
  let drop : Ledger → Ledger := (·.chargeAll t (.dropped (l.future f).name) (l.future f).onDrop)
  have hdrop : Ready t (l.enter t (l.future f).account) →
      Chargings t (l.enter t (l.future f).account, q) (drop (l.enter t (l.future f).account), q) :=
    chargeAll_chargings (h.sound.future_requests f).2
  have henter : Move t (l, q) (l.enter t (l.future f).account, q) := .enter ha ho
  have hwithin := within_moves h drop ha ho hdrop
  have hstill := within_still drop h.thread (hdrop (henter.ready h)).still
  exact hwithin.trans (closeAccount_leavings (hstill.opened _ ha) ((hstill.closed _).trans ho) (hstill.inScope hs)
    (Moves.ready h hwithin)).moves

end Ledger

end HeapLedger
