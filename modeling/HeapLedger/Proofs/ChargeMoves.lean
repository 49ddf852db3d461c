import HeapLedger.Proofs.Still

/-!
# Charges are made of moves

Every charge, whether it comes from outside or from an echo, is a sequence of charging moves. What is
handed to a tracker is on its way at first, and has arrived everywhere when the charge is over.
-/

namespace HeapLedger

open Ledger

namespace Ledger

structure Ready (t : ThreadId) (l : Ledger) : Prop where
  sound : Sound l
  carries : Carries l
  thread : t < l.threads.size

end Ledger

def Obliges (respond : Responder) (t : ThreadId) : Prop :=
  ∀ l q s d, Ready t l → s < l.services.size → Chargings t (l, q) ((respond l t s d).1, q)

section
variable {t : ThreadId} {m m' : Moment}

theorem Charging.ready (h : Ready t m.1) (hm : Charging t m m') : Ready t m'.1 where
  sound := hm.sound h.sound
  carries := hm.carries h.carries
  thread := Nat.lt_of_lt_of_le h.thread hm.still.threads_size

theorem Chargings.ready (h : Ready t m.1) (hm : Chargings t m m') : Ready t m'.1 := by
  induction hm with
  | refl => exact h
  | tail _ hstep ih => exact hstep.ready ih

theorem Chargings.still (h : Chargings t m m') : Still m.1 m'.1 := h.tendings.still

theorem Tendings.ready (h : Ready t m.1) (hm : Tendings t m m') : Ready t m'.1 := by
  induction hm with
  | refl => exact h
  | tail _ hstep ih =>
    exact ⟨hstep.sound ih.sound, hstep.carries ih.carries, Nat.lt_of_lt_of_le ih.thread hstep.still.threads_size⟩

end

namespace Ledger

variable {t : ThreadId} {l : Ledger} {q : List (TrackerId × Delta)} {respond : Responder}

/-! ## Up the trackers -/

theorem requests_chargings {f : Ledger → Request → Ledger}
    (hf : ∀ l q r, Ready t l → r.service < l.services.size → Chargings t (l, q) (f l r, q)) :
    ∀ {rs : List Request} {l : Ledger}, Ready t l → l.Serves rs → Chargings t (l, q) (rs.foldl f l, q)
  | [], _, _, _ => .refl
  | r :: rs, l, h, hs => by
    have hfirst := hf l q r h (hs r (List.mem_cons_self ..))
    refine hfirst.trans (requests_chargings hf (hfirst.ready h) ?_)
    exact hfirst.still.serves fun r' hr' => hs r' (List.mem_cons_of_mem _ hr')

theorem answer_chargings (hr : Obliges respond t) (name : String) (r : Request) (h : Ready t l)
    (hs : r.service < l.services.size) : Chargings t (l, q) (answer respond t name l r, q) :=
  (hr l q r.service r.delta h hs).tail (.event _)

theorem deliver_chargings (hr : Obliges respond t) (h : Ready t l) (i : TrackerId) (b : Delta) :
    Chargings t (l, (i, b) :: q) (deliver respond t b l i, q) := by
  unfold deliver
  cases hk : (l.tracker i).kind with
  | counter label totals => exact .single (.receive hk)
  | echo e =>
    have hhear : Charging t (l, (i, b) :: q) (l.event (.received e.name b (l.inHook t)), q) := .hear hk
    dsimp only
    cases hs : e.spend? with
    | none => exact .single hhear
    | some e' =>
      have hspend : Chargings t (l, (i, b) :: q) (_, q) := (Relation.ReflTransGen.single hhear).tail (.spend hk hs)
      refine hspend.trans (requests_chargings (fun l q r => answer_chargings hr e.name r) (hspend.ready h) ?_)
      exact hspend.still.serves (h.sound.echo_requests i e hk)

theorem delivers_chargings (hr : Obliges respond t) (b : Delta) :
    ∀ {is : List TrackerId} {l : Ledger}, Ready t l →
      Chargings t (l, is.map (·, b) ++ q) (is.foldl (deliver respond t b) l, q)
  | [], _, _ => .refl
  | i :: is, l, h => by
    have hfirst := deliver_chargings (q := is.map (·, b) ++ q) hr h i b
    exact hfirst.trans (delivers_chargings hr b (hfirst.ready h))

theorem propagate_chargings (hr : Obliges respond t) (h : Ready t l) (i : TrackerId) (b : Delta) :
    Chargings t (l, l.sent i b ++ q) (propagate respond l t i b, q) :=
  delivers_chargings hr b h

/-! ## Contexts -/

theorem obliges_refuse : Obliges refuse t := fun _ _ s _ _ _ => .single (.skip s)

/-- An intake is followed by the way of what it makes the context commit. -/
theorem absorb_post (respond : Responder) (e : Entry) (c : ContextId) (d : Delta) :
    (l.post e).absorb respond t c d =
      match (l.takeIn e c d).2 with
      | none => (l.takeIn e c d).1
      | some b => propagate respond (l.takeIn e c d).1 t (l.context c).tracker b := by
  have htracker : (((l.post e).modifyContext c fun ctx =>
      { ctx with cache := ((l.context c).cache.consume d).1 }).context c).tracker = (l.context c).tracker :=
    Table.get_modify_of_eq _ c c Context.tracker fun _ => rfl
  have hcache : ((l.post e).context c).cache = (l.context c).cache := rfl
  unfold absorb takeIn
  dsimp only
  rw [hcache]
  cases ((l.context c).cache.consume d).2 with
  | none => rfl
  | some b => simp only [commit, htracker]

theorem absorb_chargings (hr : Obliges respond t) {e : Entry} {c : ContextId} {d : Delta} (h : Ready t l)
    (hi : l.Intake t e c d) : Chargings t (l, q) ((l.post e).absorb respond t c d, q) := by
  have htake : Charging t (l, q) ((l.takeIn e c d).1, l.due c (l.takeIn e c d).2 ++ q) := .take hi
  have hready := htake.ready h
  have hsent : ∀ b, (l.takeIn e c d).1.sent (l.context c).tracker b = l.sent (l.context c).tracker b := by
    exact fun b => takeIn_keeps (I := fun l' => l'.sent (l.context c).tracker b = _) rfl fun _ _ h => h
  refine Relation.ReflTransGen.head htake ?_
  rw [absorb_post]
  cases (l.takeIn e c d).2 with
  | none => exact .refl
  | some b =>
    simp only [due]
    rw [← hsent]
    exact propagate_chargings hr hready _ b

/-! ## Whoever is active -/

section
variable {s : ServiceId} {k : TaskKey}

theorem active_modifyThread (f : Thread → Thread) (hf : ∀ th, (f th).active = th.active) (j : ThreadId) :
    ((l.modifyThread t f).thread j).active = (l.thread j).active :=
  Table.get_modify_of_eq _ t j Thread.active hf

theorem source_seek (j : ServiceId) : ((l.seek t s k).1.service j).source = (l.service j).source := by
  obtain ⟨f, g, hf, -, heq⟩ := l.seek_eq t s k
  rw [heq]
  exact Table.get_modify_of_eq _ s j Service.source fun svc => (congrArg Service.source (hf svc) :)

theorem active_seek (j : ThreadId) : ((l.seek t s k).1.thread j).active = (l.thread j).active := by
  obtain ⟨f, g, -, hg, heq⟩ := l.seek_eq t s k
  rw [heq]
  exact active_modifyThread g (fun th => (congrArg Thread.active (hg th) :)) j

theorem rosters_seek : (l.seek t s k).1.rosters = l.rosters := by
  obtain ⟨f, g, -, -, heq⟩ := l.seek_eq t s k
  rw [heq]
  rfl

theorem activeTask_seek (j : ThreadId) (i : ServiceId) :
    (l.seek t s k).1.activeTask j i = l.activeTask j i := by
  simp only [activeTask, source_seek, active_seek, roster, rosters_seek]

theorem taskContext_seek (j : ThreadId) (i : ServiceId) (k' : TaskKey) :
    (l.seek t s k).1.taskContext j i k' = l.taskContext j i k' := by
  simp only [taskContext, scopedContext, source_seek, active_seek, roster, rosters_seek]

theorem finds_seek {c : ContextId} (h : (l.seek t s k).2 = some c) : (l.seek t s k).1.Finds t s k c := by
  cases hr : l.reused t s k with
  | some c' =>
    simp only [seek, hr] at h ⊢
    obtain rfl := Option.some.inj h
    left
    unfold reused at hr
    split at hr
    · exact hr
    · cases hr
  | none =>
    right
    rw [taskContext_seek]
    simpa only [seek, hr, lookup] using h

theorem taskContext_of_seek (h : (l.seek t s k).2 = none) : (l.seek t s k).1.taskContext t s k = none := by
  rw [taskContext_seek]
  unfold seek at h
  split at h
  · cases h
  · exact h

end

/-! ## A charge -/

section
variable {s : ServiceId} (hs : s < l.services.size)

include hs

theorem chargeTask_chargings {k : TaskKey} (d : Delta) (h : Ready t l) (hk : l.activeTask t s = some k) :
    Chargings t (l, q) ((l.chargeTask t s k d).1, q) := by
  have hresolve : Charging t (l, q) ((l.resolve t s k).1, q) := .resolve hs hk
  have hready := hresolve.ready h
  have hactive : (l.resolve t s k).1.activeTask t s = some k := (activeTask_seek t s).trans hk
  refine Relation.ReflTransGen.head hresolve ?_
  unfold chargeTask
  dsimp only
  cases hc : (l.resolve t s k).2 with
  | none => exact .single (.decline (.absent hactive (taskContext_of_seek hc)))
  | some c =>
    have hfinds : (l.resolve t s k).1.Finds t s k c := finds_seek hc
    dsimp only [chargeContext]
    cases hi : ((l.resolve t s k).1.context c).initialized with
    | true => exact absorb_chargings obliges_refuse hready (.task hactive hfinds hi)
    | false => exact .single (.decline (.uninitialized hactive hfinds hi))

theorem chargeThread_chargings (d : Delta) (h : Ready t l) (hk : l.activeTask t s = none) :
    Chargings t (l, q) ((l.chargeThread t s d).1, q) := by
  unfold chargeThread
  cases hh : (l.thread t).home with
  | absent => exact .single (.park h.thread hk hh)
  | closed => exact .single (.decline (.exiting hk hh))
  | settled owner c =>
    dsimp only
    split
    · rename_i ho
      subst ho
      dsimp only [chargeContext]
      cases hi : (l.context c).initialized with
      | true => exact absorb_chargings obliges_refuse h (.thread hk hh hi)
      | false => exact .single (.decline (.unset hk hh hi))
    · rename_i ho
      exact .single (.decline (.foreign hk hh ho))

theorem chargeInHook_chargings (d : Delta) (h : Ready t l) :
    Chargings t (l, q) ((l.chargeInHook t s d).1, q) := by
  unfold chargeInHook
  cases hk : l.activeTask t s with
  | some k => exact chargeTask_chargings hs d h hk
  | none => exact chargeThread_chargings hs d h hk

end

theorem guarded_steps {R : Moment → Moment → Prop} (hR : ∀ {m m'}, Charging t m m' → R m m') {α : Type}
    {f : Ledger → Ledger × α} (h : Ready t l)
    (hf : Ready t (l.setInHook t true) →
      Relation.ReflTransGen R (l.setInHook t true, q) ((f (l.setInHook t true)).1, q)) :
    Relation.ReflTransGen R (l, q) ((l.guarded t f).1, q) := by
  have hhook : Charging t (l, q) (l.setInHook t true, q) := .hook true
  exact (Relation.ReflTransGen.head (hR hhook) (hf (hhook.ready h))).tail (hR (.hook false))

theorem home_setInHook (b : Bool) (j : ThreadId) : ((l.setInHook t b).thread j).home = (l.thread j).home :=
  Table.get_modify_of_eq _ t j Thread.home fun _ => rfl

theorem home_newHome {s : ServiceId} (ht : t < l.threads.size) :
    ((l.newHome t s).thread t).home = .settled s l.contexts.size :=
  congrArg Thread.home (Table.get_modify_self _ ht)

theorem settle_chargings {s : ServiceId} (hs : s < l.services.size) (h : Ready t l) :
    Chargings t (l, q) ((l.settle t s).1, q) := by
  unfold settle
  cases hh : (l.thread t).home with
  | absent =>
    have hnew : Charging t (l, q) (l.newHome t s, q) := .settle hs hh
    have hhome : (((l.newHome t s).setInHook t true).thread t).home = .settled s l.contexts.size :=
      (home_setInHook true t).trans (home_newHome h.thread)
    dsimp only
    split
    · exact .single hnew
    · refine Relation.ReflTransGen.head hnew (guarded_steps id (hnew.ready h) fun hready => ?_)
      exact absorb_chargings obliges_refuse hready (.carried hhome (h.carries.carry t hh s) (h.carries.uncarried t hh))
  | settled => exact .refl
  | closed => exact .refl

theorem guarded_chargings {s : ServiceId} (hs : s < l.services.size) (d : Delta) (h : Ready t l) :
    Chargings t (l, q) ((l.guarded t (·.chargeInHook t s d)).1, q) :=
  guarded_steps id h fun h' => chargeInHook_chargings (l := l.setInHook t true) hs d h'

/-- A charge consists of charging moves, and so do the charges of the echoes that it reaches. -/
theorem obliges_charge : Obliges charge t := by
  intro l q s d h hs
  unfold charge
  split
  · exact obliges_refuse l q s d h hs
  · have hcharge := guarded_chargings (q := q) hs d h
    have hready := hcharge.ready h
    dsimp only
    split
    · exact hcharge.trans (settle_chargings (Nat.lt_of_lt_of_le hs hcharge.still.services_size) hready)
    · exact hcharge.tail (.skip s)
    · exact hcharge

theorem chargeBare_chargings {s : ServiceId} (hs : s < l.services.size) (d : Delta) (h : Ready t l) :
    Chargings t (l, q) ((l.chargeBare t s d).1, q) := by
  unfold chargeBare
  split
  · exact chargeInHook_chargings hs d h
  · exact guarded_chargings hs d h

theorem chargeAll_chargings {event : Charge → Event} {rs : List Request} (hs : l.Serves rs) (h : Ready t l) :
    Chargings t (l, q) (l.chargeAll t event rs, q) :=
  requests_chargings (fun l q r h hs => (obliges_charge l q r.service r.delta h hs).tail (.event _)) h hs

end Ledger

end HeapLedger
