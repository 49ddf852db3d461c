import HeapLedger.Proofs.ActionBuilt

/-!
# What hooks are told

Only what is done with blocks is told to hooks: each hook of the allocator is told once, in the order of
installation, and sees the block in use. Whatever else is done leaves the blocks and the hooks alone.
-/

namespace HeapLedger

open Ledger

def Entry.report? : Entry → Option Report
  | reported r => some r
  | _ => none

def reports (entries : List Entry) : List Report := entries.filterMap Entry.report?

theorem reports_cons {e : Entry} (h : e.report? = none) (older : List Entry) : reports (e :: older) = reports older :=
  List.filterMap_cons_none h

theorem Entry.Plain.report {e : Entry} (he : e.Plain) : e.report? = none := by
  cases e with
  | reported => cases he
  | _ => rfl

namespace Ledger

/-- Some reports are made, and otherwise blocks and allocators stay as they are, but for how often the memory
behind an allocator was called from inside a hook. Nobody registers. -/
structure Tells (rs : List Report) (l l' : Ledger) : Prop where
  heap : l'.heap = l.heap
  table : ∀ m, (l'.allocator m).table = (l.allocator m).table
  usable : ∀ m, (l'.allocator m).usable = (l.allocator m).usable
  allocators_size : l'.allocators.size = l.allocators.size
  registrations : ∀ s, (l'.service s).registrations = (l.service s).registrations
  reports : reports l'.journal = rs ++ reports l.journal

section
variable {rs rs' : List Report} {l l' l'' : Ledger} {t : ThreadId}

theorem Tells.refl (l : Ledger) : Tells [] l l := ⟨rfl, fun _ => rfl, fun _ => rfl, rfl, fun _ => rfl, rfl⟩

theorem Tells.hooks (h : Tells rs l l') (m : AllocatorId) : (l'.allocator m).hooks = (l.allocator m).hooks :=
  congrArg HookTable.hooks (h.table m)

theorem Tells.trans (h : Tells rs l l') (h' : Tells rs' l' l'') : Tells (rs' ++ rs) l l'' where
  heap := h'.heap.trans h.heap
  table m := (h'.table m).trans (h.table m)
  usable m := (h'.usable m).trans (h.usable m)
  allocators_size := h'.allocators_size.trans h.allocators_size
  registrations s := (h'.registrations s).trans (h.registrations s)
  reports := by rw [h'.reports, h.reports, List.append_assoc]

theorem Tells.still (h : Tells rs l l') (h' : Tells [] l' l'') : Tells rs l l'' := h.trans h'

theorem tells_of_eq (hh : l'.heap = l.heap) (ha : l'.allocators = l.allocators)
    (hs : ∀ s, (l'.service s).registrations = (l.service s).registrations)
    (hj : HeapLedger.reports l'.journal = HeapLedger.reports l.journal) : Tells [] l l' where
  heap := hh
  table m := by rw [allocator, ha]; rfl
  usable m := by rw [allocator, ha]; rfl
  allocators_size := congrArg Table.size ha
  registrations := hs
  reports := hj

theorem tells_modifyService (s : ServiceId) {f : Service → Service} (hf : ∀ svc, (f svc).registrations = svc.registrations) :
    Tells [] l (l.modifyService s f) :=
  tells_of_eq rfl rfl (Table.get_modify_of_eq _ s · Service.registrations hf) rfl

theorem tells_post {e : Entry} (he : e.report? = none) : Tells [] l (l.post e) :=
  tells_of_eq rfl rfl (fun _ => rfl) (reports_cons he _)

theorem tells_countCall (m : AllocatorId) : Tells [] l (l.countCall t m) := by
  unfold countCall
  split
  · exact ⟨rfl, fun j => Table.get_modify_of_eq _ m j Allocator.table fun _ => rfl,
      fun j => Table.get_modify_of_eq _ m j Allocator.usable fun _ => rfl, Table.size_modify .., fun _ => rfl, rfl⟩
  · exact .refl l

end

end Ledger

/-! ## Everything but blocks -/

theorem Ledger.tells_addService {l : Ledger} (source : TaskSource) (slots : Nat) (i : TrackerId) (threshold : UInt64) :
    Tells [] l (l.addService source slots i threshold).1 := by
  have hadd : ∀ svc : Service, svc.registrations = 0 → Tells [] l { l with services := l.services.add svc } := by
    intro svc hsvc
    refine tells_of_eq rfl rfl (fun s => ?_) rfl
    show ((l.services.add svc).get s).registrations = (l.services.get s).registrations
    rw [Table.get_add]
    split
    · rename_i hs
      rw [hsvc, Table.get_of_size_le (Nat.le_of_eq hs.symm)]
      rfl
    · rfl
  unfold addService
  dsimp only
  split <;> exact hadd _ rfl

theorem Core.tells {α : Type} {t : ThreadId} {S : ServiceId → Prop} {f : Ledger → Ledger × α} (h : Core t S α f)
    (l : Ledger) : Tells [] l (f l).1 := by
  cases h with
  | basic h =>
    cases h with
    | post he => exact tells_post he.report
    | thread => exact tells_of_eq rfl rfl (fun _ => rfl) rfl
    | addService source slots i threshold => exact tells_addService source slots i threshold
    | aside hf hb =>
      refine tells_of_eq (hb l).1 (hb l).2 (fun s => ?_) (congrArg HeapLedger.reports (hf.journal l))
      rw [service, hf.services]
      rfl
  | charged | carried => exact tells_post rfl
  | thread | carry => exact tells_of_eq rfl rfl (fun _ => rfl) rfl
  | skip s => exact tells_modifyService s fun _ => rfl
  | @resolve s hs k =>
    have hveil := veil_resolve l t s k
    have hseek : reports (l.seek t s k).1.journal = reports l.journal := congrArg reports (journal_seek l t s k)
    have hseen : ∀ (l : Ledger) (j : ServiceId), (l.veil.service j).registrations = (l.service j).registrations := by
      intro l j
      rw [service_veil]
      rfl
    have hservice : ∀ j, ((l.resolve t s k).1.service j).registrations = (l.service j).registrations := by
      intro j
      rw [← hseen, hveil, hseen]
    exact tells_of_eq (congrArg Ledger.heap hveil :) (congrArg Ledger.allocators hveil :) hservice
      ((reports_cons rfl _).trans hseek)

theorem Built.tells {α : Type} {u : Ledger → Ledger} {P : StepKind}
    (hP : ∀ {α : Type} {f : Ledger → Ledger × α}, P α f → ∀ l, Tells [] l (f l).1) {f : Ledger → Ledger × α}
    (h : Built u P f) (l : Ledger) : Tells [] l (f l).1 := by
  have hhook : ∀ (l' : Ledger) (t : ThreadId) (b : Bool), Tells [] l' (l'.setInHook t b) := fun _ _ _ =>
    tells_of_eq rfl rfl (fun _ => rfl) rfl
  exact h.keeps (I := Tells [] l) (fun hf l' hl => hl.still (hP hf l')) (fun l' t b hl => hl.still (hhook l' t b)) l
    (.refl l)

theorem Built.tells_outer {α : Type} {t : ThreadId} {f : Ledger → Ledger × α} (h : Built veil (Outer t) f) (l : Ledger) :
    Tells [] l (f l).1 :=
  (h.mono veil_veil Outer.built).tells Core.tells l

namespace Ledger

section
variable (l : Ledger) (t : ThreadId)

theorem charge_tells (s : ServiceId) (d : Delta) : Tells [] l (l.charge t s d).1 :=
  (charge_step t s d).tells_outer l

theorem unbindWorker_tells : Tells [] l (l.unbindWorker t).1 := by
  rw [unbindWorker_eq]
  split
  · exact .refl l
  · rename_i w _
    have hslot : Tells [] l (l.modifySlot w.service w.slot fun _ => {}) := tells_modifyService w.service fun _ => rfl
    exact hslot.still (tells_of_eq rfl rfl (fun _ => rfl) rfl)

theorem exit_tells : Tells [] l (l.exit t) := by
  have hunwind : Tells [] l (l.unwind t (l.depth t)) := (unwind_built t (l.depth t)).tells_outer l
  have hunguard : ∀ l' : Ledger, Tells [] l' (l'.unguardThread t).1 := by
    intro l'
    unfold unguardThread
    split <;> exact tells_of_eq rfl rfl (fun _ => rfl) rfl
  exact ((hunwind.still (unbindWorker_tells ..)).still (hunguard _)).still ((destroys_core t).tells Core.tells _)

/-- Only what is done with blocks is told to hooks. -/
theorem perform_tells {a : Action} (ha : a.handles = false) : Tells [] l (l.perform t a).1 := by
  cases hs : a.special with
  | false => exact (perform_outer t hs ha).tells_outer l
  | true =>
    cases a with
    | exit => exact exit_tells l t
    | guard =>
      show Tells [] l (l.guardThread t).1
      unfold guardThread
      split <;> exact tells_of_eq rfl rfl (fun _ => rfl) rfl
    | unguard =>
      show Tells [] l (l.unguardThread t).1
      unfold unguardThread
      split <;> exact tells_of_eq rfl rfl (fun _ => rfl) rfl
    | bindWorker s =>
      show Tells [] l (toldOr .bind .bound (l.bindWorker t s)).1
      rw [toldOr_fst]
      rw [bindWorker_eq]
      split
      · exact .refl l
      · split
        · exact .refl l
        · rename_i i _
          have hslot : Tells [] l (l.modifySlot s i fun _ => { bound := true }) := tells_modifyService s fun _ => rfl
          exact hslot.still (tells_of_eq rfl rfl (fun _ => rfl) rfl)
    | unbindWorker => exact unbindWorker_tells l t
    | forgetBinding => exact tells_of_eq rfl rfl (fun _ => rfl) rfl
    | chargeBare s d => exact (chargeBare_built (S := fun _ => True) t trivial d).tells Core.tells l
    | describe => exact .refl l
    | _ => cases hs

/-! ## Hooks -/

variable (m : AllocatorId) (kind : BlockEvent) (a : Address) (layout : Layout)

theorem chargeBlock_tells (s : ServiceId) : Tells [] l (l.chargeBlock t m s kind a layout) :=
  (tells_countCall m).still (charge_tells _ t s _)

theorem runHook_tells (hook : Hook) : Tells [] l (runHook t m kind a layout l hook) := by
  cases hook with
  | adapter s => exact chargeBlock_tells l t m kind a layout s
  | recorder name => exact tells_post rfl

def report (i : Nat) : Report := { allocator := m, hook := i, kind, address := a, layout, found := l.heap.find? a }

theorem tellHook_tells (hook : Hook × Nat) :
    Tells [l.report m kind a layout hook.2] l (tellHook t m kind a layout l hook) :=
  have hpost : Tells [l.report m kind a layout hook.2] l (l.post (.reported (l.report m kind a layout hook.2))) :=
    ⟨rfl, fun _ => rfl, fun _ => rfl, rfl, fun _ => rfl, rfl⟩
  hpost.still (runHook_tells _ t m kind a layout hook.1)

theorem tellHooks_tells : ∀ (hooks : List (Hook × Nat)) (l : Ledger),
    Tells (hooks.map fun hook => l.report m kind a layout hook.2).reverse l (hooks.foldl (tellHook t m kind a layout) l)
  | [], l => .refl l
  | hook :: hooks, l => by
    have hfirst := tellHook_tells l t m kind a layout hook
    have hrest := hfirst.trans (tellHooks_tells hooks _)
    simpa only [report, hfirst.heap, List.map_cons, List.reverse_cons, List.foldl_cons] using hrest

/-- Every hook of an allocator is told of a block, the first installed first. -/
theorem runHooks_tells : Tells ((List.range (l.allocator m).hooks.length).map (l.report m kind a layout)).reverse l
    (l.runHooks t m kind a layout) := by
  have hhooks := tellHooks_tells t m kind a layout (l.allocator m).hooks.zipIdx l
  have hplaces : (l.allocator m).hooks.zipIdx.map Prod.snd = List.range (l.allocator m).hooks.length := by
    rw [List.zipIdx_map_snd, List.range_eq_range']
  rw [← hplaces, List.map_map]
  exact hhooks

end

end Ledger

end HeapLedger
