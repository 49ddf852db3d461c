import HeapLedger.Proofs.ActionBuilt

/-!
# What leaves a slot alone

Whatever is done on a thread leaves all bindings as they are, unless it is to bind or to unbind. It comes to a slot
only by way of a charge through the service of the slot, and only if the thread is bound to that slot. To any
other slot it does nothing, and it would have done the same had something else been remembered there.
-/

namespace HeapLedger

open Ledger

namespace Ledger

def recache (l : Ledger) (s : ServiceId) (i : Nat) (cells : Option TaskKey × Option ContextId) : Ledger :=
  l.modifySlot s i fun slot => { slot with key := cells.1, context := cells.2 }

/-- Nobody is bound or unbound, services keep their slots, and no slot is left with one cell set. -/
structure Steady (l l' : Ledger) : Prop where
  worker : ∀ t, (l'.thread t).worker = (l.thread t).worker
  binding : ∀ t, (l'.thread t).binding = (l.thread t).binding
  bound : ∀ s i, (l'.slot s i).bound = (l.slot s i).bound
  paired : ∀ s i, (l.slot s i).Paired → (l'.slot s i).Paired
  threads_size : l.threads.size ≤ l'.threads.size
  services_size : l.services.size ≤ l'.services.size
  slots_size : ∀ s < l.services.size, (l'.service s).slots.size = (l.service s).slots.size

def Apart (l : Ledger) (t : ThreadId) (S : ServiceId → Prop) (s : ServiceId) (i : Nat) : Prop :=
  S s → (l.thread t).worker ≠ some ⟨s, i⟩

end Ledger

/-- A step of a thread that charges through some services leaves alone every slot that it does not come to. -/
structure Spares (t : ThreadId) (S : ServiceId → Prop) {α : Type} (f : Ledger → Ledger × α) : Prop where
  steady : ∀ l, Steady l (f l).1
  slot : ∀ {l s i}, l.Apart t S s i → (f l).1.slot s i = l.slot s i
  blind : ∀ {l s i}, s < l.services.size → l.Apart t S s i → ∀ cells,
    f (l.recache s i cells) = ((f l).1.recache s i cells, (f l).2)

namespace Ledger

variable {l l' : Ledger} {t : ThreadId} {S : ServiceId → Prop} {s : ServiceId} {i : Nat}

/-! ## Nobody is bound or unbound -/

theorem Steady.refl (l : Ledger) : Steady l l where
  worker _ := rfl
  binding _ := rfl
  bound _ _ := rfl
  paired _ _ h := h
  threads_size := Nat.le_refl _
  services_size := Nat.le_refl _
  slots_size _ _ := rfl

theorem Steady.trans {l'' : Ledger} (h : Steady l l') (h' : Steady l' l'') : Steady l l'' where
  worker t := (h'.worker t).trans (h.worker t)
  binding t := (h'.binding t).trans (h.binding t)
  bound s i := (h'.bound s i).trans (h.bound s i)
  paired s i hp := h'.paired s i (h.paired s i hp)
  threads_size := Nat.le_trans h.threads_size h'.threads_size
  services_size := Nat.le_trans h.services_size h'.services_size
  slots_size s hs := (h'.slots_size s (Nat.lt_of_lt_of_le hs h.services_size)).trans (h.slots_size s hs)

theorem Steady.apart (h : Steady l l') (ha : l.Apart t S s i) : l'.Apart t S s i :=
  fun hs => h.worker t ▸ ha hs

theorem steady_of_eq (hs : l'.services = l.services) (ht : l'.threads = l.threads) : Steady l l' where
  worker t := by rw [thread, ht]; rfl
  binding t := by rw [thread, ht]; rfl
  bound s i := by rw [slot, service, hs]; rfl
  paired s i hp := by rw [slot, service, hs]; exact hp
  threads_size := Nat.le_of_eq (congrArg Table.size ht.symm)
  services_size := Nat.le_of_eq (congrArg Table.size hs.symm)
  slots_size s _ := by rw [service, hs]; rfl

theorem steady_modifyThread (t : ThreadId) {f : Thread → Thread} (hw : ∀ th, (f th).worker = th.worker)
    (hb : ∀ th, (f th).binding = th.binding) : Steady l (l.modifyThread t f) :=
  { Steady.refl l with
    worker := fun j => Table.get_modify_of_eq _ t j Thread.worker hw
    binding := fun j => Table.get_modify_of_eq _ t j Thread.binding hb
    threads_size := Nat.le_of_eq (threads_size_modifyThread ..).symm }

theorem steady_modifyService (s : ServiceId) {f : Service → Service}
    (hf : ∀ svc, (f svc).slots.size = svc.slots.size ∧ ∀ i, ((f svc).slots.get i).bound = (svc.slots.get i).bound ∧
      ((svc.slots.get i).Paired → ((f svc).slots.get i).Paired)) :
    Steady l (l.modifyService s f) :=
  { Steady.refl l with
    bound := fun j i => Table.get_modify_of_eq _ s j (fun svc => (svc.slots.get i).bound) fun svc => ((hf svc).2 i).1
    paired := fun j i hp => by
      unfold slot at hp ⊢
      rw [service_modifyService]
      split
      · exact ((hf _).2 i).2 hp
      · exact hp
    services_size := Nat.le_of_eq (services_size_modifyService ..).symm
    slots_size := fun j _ => Table.get_modify_of_eq _ s j (fun svc => svc.slots.size) fun svc => (hf svc).1 }

theorem slot_replicate (n i : Nat) : (⟨List.replicate n {}⟩ : Table Slot).get i = {} := by
  rcases Table.get_mem (⟨List.replicate n {}⟩ : Table Slot) i with h | h
  · exact List.eq_of_mem_replicate h
  · exact h

theorem steady_addService {svc : Service} (hs : ∀ i, svc.slots.get i = {}) :
    Steady l { l with services := l.services.add svc } := by
  have hread : ∀ j, j ≠ l.services.size → (l.services.add svc).get j = l.services.get j := fun j hj => by
    rw [Table.get_add, if_neg hj]
  exact { Steady.refl l with
    bound := fun j i => by
      show (((l.services.add svc).get j).slots.get i).bound = ((l.services.get j).slots.get i).bound
      by_cases hj : j = l.services.size
      · rw [Table.get_add, if_pos hj, hs, Table.get_of_size_le (Nat.le_of_eq hj.symm)]
        rfl
      · rw [hread j hj]
    paired := fun j i hp => by
      show (((l.services.add svc).get j).slots.get i).Paired
      by_cases hj : j = l.services.size
      · rw [Table.get_add, if_pos hj, hs]
        rfl
      · rw [hread j hj]
        exact hp
    services_size := Nat.le_trans (Nat.le_succ _) (Nat.le_of_eq (Table.size_add ..).symm)
    slots_size := fun j hj => by
      rw [service, hread j (Nat.ne_of_lt hj)]
      rfl }

/-! ## What is remembered elsewhere -/

theorem veil_recache (cells : Option TaskKey × Option ContextId) : (l.recache s i cells).veil = l.veil := by
  have hservices : (l.recache s i cells).services.map Service.veil = l.services.map Service.veil :=
    Table.map_modify_of_eq _ s fun _ => rfl
  unfold veil
  rw [hservices]
  rfl

theorem slot_recache (cells : Option TaskKey × Option ContextId) {j : ServiceId} {n : Nat} (h : (s, i) ≠ (j, n)) :
    (l.recache s i cells).slot j n = l.slot j n := by
  unfold recache modifySlot slot
  rw [service_modifyService]
  split
  · rename_i hs
    obtain ⟨rfl, -⟩ := hs
    exact Table.get_modify_ne _ _ fun hi => h (hi ▸ rfl)
  · rfl

theorem modifyService_recache (j : ServiceId) {f : Service → Service}
    (hf : ∀ svc slots, f { svc with slots } = { f svc with slots }) (cells : Option TaskKey × Option ContextId) :
    (l.recache s i cells).modifyService j f = (l.modifyService j f).recache s i cells := by
  have hslots : ∀ svc, (f svc).slots = svc.slots := fun svc => (congrArg Service.slots (hf svc svc.slots) :)
  refine congrArg (fun services => { l with services }) (Table.modify_comm _ fun _ svc => ?_)
  refine Eq.trans ?_ (hf svc _).symm
  rw [hslots]

theorem modifySlot_recache {j : ServiceId} {n : Nat} (h : (s, i) ≠ (j, n)) (f : Slot → Slot)
    (cells : Option TaskKey × Option ContextId) :
    (l.recache s i cells).modifySlot j n f = (l.modifySlot j n f).recache s i cells := by
  refine congrArg (fun services => { l with services }) (Table.modify_comm _ fun hs svc => ?_)
  have hslots := Table.modify_comm svc.slots (i := i) (j := n)
    (f := fun slot => { slot with key := cells.1, context := cells.2 }) (g := f)
    fun hi => absurd (by rw [hs, hi]) h
  exact congrArg (fun slots => { svc with slots }) hslots.symm

theorem recache_addService (svc : Service) (hs : s < l.services.size) (cells : Option TaskKey × Option ContextId) :
    { l.recache s i cells with services := (l.recache s i cells).services.add svc } =
      ({ l with services := l.services.add svc } : Ledger).recache s i cells :=
  congrArg (fun services => { l with services }) (Table.modify_add _ hs _ _).symm

/-! ## A key is resolved -/

theorem worker_of_boundSlot {i : Nat} (h : l.boundSlot t s = some i) : (l.thread t).worker = some ⟨s, i⟩ := by
  obtain ⟨w, hw, he⟩ := Option.bind_eq_some_iff.mp h
  split at he
  · rename_i hs
    rw [hw, ← hs, ← Option.some.inj he]
  · cases he

section
variable (h : l.Apart t S s i) {j : ServiceId} (hj : S j)

include h hj

/-- A service that charges does not look into the slot. -/
theorem Apart.ne {n : Nat} (hn : l.boundSlot t j = some n) : (s, i) ≠ (j, n) := by
  rintro ⟨⟩
  exact h hj (worker_of_boundSlot hn)

theorem remembered_recache (cells : Option TaskKey × Option ContextId) (k : TaskKey) :
    (l.recache s i cells).remembered t j k = l.remembered t j k := by
  have hslot : (l.recache s i cells).boundSlot t j = l.boundSlot t j := rfl
  unfold remembered
  rw [hslot]
  cases hn : l.boundSlot t j with
  | none => rfl
  | some n => exact congrArg (Slot.recall? · k) (slot_recache cells (h.ne hj hn))

theorem memorize_recache (cells : Option TaskKey × Option ContextId) (k : TaskKey) (answer : Option ContextId) :
    (l.recache s i cells).memorize t j k answer = (l.memorize t j k answer).recache s i cells := by
  have hslot : (l.recache s i cells).boundSlot t j = l.boundSlot t j := rfl
  rw [memorize_eq, memorize_eq, hslot]
  cases hn : l.boundSlot t j with
  | none => cases answer <;> rfl
  | some n => exact modifySlot_recache (h.ne hj hn) _ cells

theorem slot_memorize (k : TaskKey) (answer : Option ContextId) :
    (l.memorize t j k answer).slot s i = l.slot s i := by
  rw [memorize_eq]
  cases hn : l.boundSlot t j with
  | none => cases answer <;> rfl
  | some n =>
    show ((l.modifyService j _).service s).slots.get i = _
    rw [service_modifyService]
    split
    · rename_i hs
      exact Table.get_modify_ne _ _ fun hi => h.ne hj hn (by rw [hs.1, hi])
    · rfl

end

theorem source_recache (cells : Option TaskKey × Option ContextId) (j : ServiceId) :
    ((l.recache s i cells).service j).source = (l.service j).source :=
  Table.get_modify_of_eq _ s j Service.source fun _ => rfl

theorem taskContext_recache (cells : Option TaskKey × Option ContextId) (j : ServiceId) (k : TaskKey) :
    (l.recache s i cells).taskContext t j k = l.taskContext t j k := by
  unfold taskContext
  rw [source_recache]
  rfl

theorem steady_seek (j : ServiceId) (k : TaskKey) : Steady l (l.seek t j k).1 := by
  have hlookup : Steady l (l.lookup t j k).1 := steady_modifyService j fun _ => ⟨rfl, fun _ => ⟨rfl, id⟩⟩
  have hmemorize : ∀ {l : Ledger} (answer : Option ContextId), Steady l (l.memorize t j k answer) := by
    intro l answer
    rw [memorize_eq]
    cases l.boundSlot t j with
    | some n =>
      refine steady_modifyService j fun svc => ⟨Table.size_modify .., fun m => ⟨?_, fun hp => ?_⟩⟩
      · exact Table.get_modify_of_eq _ n m Slot.bound fun _ => rfl
      · show ((svc.slots.modify n _).get m).Paired
        rw [Table.get_modify]
        split
        · cases answer <;> rfl
        · exact hp
    | none =>
      cases answer with
      | none => exact .refl l
      | some c => exact steady_modifyThread t (fun _ => rfl) fun _ => rfl
  unfold seek
  split
  · exact .refl l
  · exact hlookup.trans (hmemorize _)

theorem spares_resolve {j : ServiceId} (hj : S j) (k : TaskKey) : Spares t S fun l => l.resolve t j k where
  steady l := (steady_seek j k).trans (steady_of_eq rfl rfl)
  slot {l s i} h := by
    show (l.seek t j k).1.slot s i = l.slot s i
    unfold seek
    split
    · rfl
    · have hlookup : Steady l (l.lookup t j k).1 := steady_modifyService j fun _ => ⟨rfl, fun _ => ⟨rfl, id⟩⟩
      refine (slot_memorize (hlookup.apart h) hj k _).trans ?_
      exact Table.get_modify_of_eq _ j s (fun svc : Service => svc.slots.get i) fun _ => rfl
  blind {l s i} _ h cells := by
    have hreused : (l.recache s i cells).reused t j k = l.reused t j k := by
      unfold reused
      rw [remembered_recache h hj]
      rfl
    have hseek : (l.recache s i cells).seek t j k = ((l.seek t j k).1.recache s i cells, (l.seek t j k).2) := by
      unfold seek
      rw [hreused]
      cases l.reused t j k with
      | some c => rfl
      | none =>
        have hlookup : Steady l (l.lookup t j k).1 := steady_modifyService j fun _ => ⟨rfl, fun _ => ⟨rfl, id⟩⟩
        have hcount : ((l.recache s i cells).lookup t j k).1 = (l.lookup t j k).1.recache s i cells :=
          modifyService_recache j (fun _ _ => rfl) cells
        have hanswer : ((l.recache s i cells).lookup t j k).2 = (l.lookup t j k).2 := taskContext_recache cells j k
        dsimp only
        rw [hcount, hanswer, memorize_recache (hlookup.apart h) hj]
    unfold resolve
    dsimp only
    rw [hseek, source_recache, taskContext_recache]
    rfl

end Ledger

/-! ## Whatever is built -/

variable {α β : Type} {t : ThreadId} {S : ServiceId → Prop} {f : Ledger → Ledger × α}

theorem spares_modifyService (s : ServiceId) {f : Service → Service}
    (hf : ∀ svc slots, f { svc with slots } = { f svc with slots }) :
    Spares t S fun l => (l.modifyService s f, ()) := by
  have hslots : ∀ svc, (f svc).slots = svc.slots := fun svc => (congrArg Service.slots (hf svc svc.slots) :)
  exact {
    steady := fun l => steady_modifyService s fun svc => by rw [hslots]; exact ⟨rfl, fun _ => ⟨rfl, id⟩⟩
    slot := fun {l j i} _ => Table.get_modify_of_eq _ s j (fun svc : Service => svc.slots.get i) fun svc => by rw [hslots]
    blind := fun _ _ cells => congrArg (·, ()) (modifyService_recache s hf cells) }

theorem spares_modifyThread (j : ThreadId) {f : Thread → Thread} (hw : ∀ th, (f th).worker = th.worker)
    (hb : ∀ th, (f th).binding = th.binding) (a : α) : Spares t S fun l => (l.modifyThread j f, a) where
  steady _ := steady_modifyThread j hw hb
  slot _ := rfl
  blind _ _ _ := rfl

theorem Aside.spares (hf : Aside f) : Spares t S f where
  steady l := steady_of_eq (hf.services l) (hf.threads l)
  slot {l s i} _ := by rw [slot, service, hf.services]; rfl
  blind {l s i} _ _ cells := by
    refine (hf l (l.recache s i cells).services l.threads l.recalls l.journal).trans ?_
    exact congrArg (·, (f l).2) (congrArg (·.recache s i cells) (hf.fst_eq l)).symm

theorem spares_addService (source : TaskSource) (slots : Nat) (i : TrackerId) (threshold : UInt64) :
    Spares t S fun l => l.addService source slots i threshold := by
  have hadd : ∀ {svc : Service} {ε γ : Type} (r : Nat → Except ε γ), (∀ i, svc.slots.get i = {}) →
      Spares t S fun l => ({ l with services := l.services.add svc }, r l.services.size) := fun {svc} _ _ r hs =>
    { steady := fun _ => steady_addService hs
      slot := fun {l s i} _ => by
        show ((l.services.add svc).get s).slots.get i = (l.services.get s).slots.get i
        rw [Table.get_add]
        split
        · rename_i hnew
          rw [hs, Table.get_of_size_le (Nat.le_of_eq hnew.symm)]
          rfl
        · rfl
      blind := fun {l s i} hlt _ cells => by
        have hsize : (l.recache s i cells).services.size = l.services.size := services_size_modifyService ..
        rw [recache_addService svc hlt, hsize] }
  unfold addService
  by_cases hslots : slots ≤ maxSlots
  · simp only [hslots, if_true]
    exact hadd (fun n => (.ok n : Except BuildError ServiceId)) fun i => slot_replicate slots i
  · simp only [hslots, if_false]
    exact hadd (fun _ => (.error .capacityOverflow : Except BuildError ServiceId)) fun _ => rfl

theorem Core.spares (h : Core t S α f) : Spares t S f := by
  cases h with
  | basic h =>
    cases h with
    | post he => exact ⟨fun _ => steady_of_eq rfl rfl, fun _ => rfl, fun _ _ _ => rfl⟩
    | thread hf => exact spares_modifyThread t hf.worker hf.binding ()
    | addService source slots i threshold => exact spares_addService source slots i threshold
    | aside hf => exact hf.spares
  | charged | carried => exact ⟨fun _ => steady_of_eq rfl rfl, fun _ => rfl, fun _ _ _ => rfl⟩
  | thread hf => exact spares_modifyThread t hf.worker hf.binding ()
  | skip s => exact spares_modifyService s fun _ _ => rfl
  | carry carry => exact spares_modifyThread (f := fun th => { th with carry }) t (fun _ => rfl) (fun _ => rfl) ()
  | resolve hs k => exact spares_resolve hs k

theorem Spares.done (a : α) : Spares t S fun l => (l, a) := ⟨Steady.refl, fun _ => rfl, fun _ _ _ => rfl⟩

theorem Spares.bind {g : α → Ledger → Ledger × β} (hf : Spares t S f) (hg : ∀ a, Spares t S (g a)) :
    Spares t S fun l => g (f l).2 (f l).1 where
  steady l := (hf.steady l).trans ((hg _).steady _)
  slot {l s i} h := ((hg _).slot ((hf.steady l).apart h)).trans (hf.slot h)
  blind {l s i} hs h cells := by
    rw [hf.blind hs h cells]
    exact (hg _).blind (Nat.lt_of_lt_of_le hs (hf.steady l).services_size) ((hf.steady l).apart h) cells

theorem Spares.read {g : α → Ledger → Ledger × β} (v : Ledger → α) (hv : ∀ l, v l.veil = v l)
    (hg : ∀ a, Spares t S (g a)) : Spares t S fun l => g (v l) l where
  steady l := (hg (v l)).steady l
  slot {l s i} h := (hg (v l)).slot h
  blind {l s i} hs h cells := by
    have hseen : v (l.recache s i cells) = v l := by rw [← hv, veil_recache, hv]
    rw [hseen]
    exact (hg (v l)).blind hs h cells

theorem Built.spares {P : StepKind} (hP : ∀ {α : Type} {f : Ledger → Ledger × α}, P α f → Spares t S f)
    (h : Built veil P f) : Spares t S f := by
  induction h with
  | step h => exact hP h
  | done a => exact .done a
  | bind hf hg ihf ihg => exact ihf.bind ihg
  | read v hv hg ih => exact .read v hv ih
  | @guarded _ j f g hf hg ihf ihg =>
    have hhook : ∀ (b : Bool) {α : Type} (a : α), Spares t S fun l => (l.setInHook j b, a) := fun b _ a =>
      spares_modifyThread (f := fun th => { th with inHook := b }) j (fun _ => rfl) (fun _ => rfl) a
    have hleave := ihf.bind fun a => hhook false a
    have hguarded : Spares t S fun l => l.guarded j f := (hhook true ()).bind fun _ => hleave
    have hchoice : ∀ inHook : Bool, Spares t S fun l => if inHook then g l else l.guarded j f := by
      intro inHook
      cases inHook with
      | true => simpa using ihg
      | false => simpa using hguarded
    exact (Spares.read (t := t) (S := S) (·.inHook j) (inHook_veil · j) hchoice :)

theorem Built.spares_outer (h : Built veil (Outer t) f) : Spares t (fun _ => True) f :=
  (h.mono veil_veil Outer.built).spares Core.spares

theorem Handling.spares (h : Handling t α f) : Spares t (fun _ => True) f := by
  cases h with
  | outer h => exact (Outer.built h).spares Core.spares
  | count s => exact spares_modifyService s fun _ _ => rfl
  | report => exact ⟨fun _ => steady_of_eq rfl rfl, fun _ => rfl, fun _ _ _ => rfl⟩
  | blocks hf => exact hf.spares

namespace Ledger

/-! ## Charges -/

/-- A charge comes to no slot but one of the service that it is made through. -/
theorem charge_spares (t : ThreadId) (s : ServiceId) (d : Delta) : Spares t (· = s) fun l => l.charge t s d :=
  (charge_built (S := (· = s)) t rfl d).spares Core.spares

theorem chargeBare_spares (t : ThreadId) (s : ServiceId) (d : Delta) : Spares t (· = s) fun l => l.chargeBare t s d :=
  (chargeBare_built (S := (· = s)) t rfl d).spares Core.spares

end Ledger

end HeapLedger
