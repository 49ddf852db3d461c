import HeapLedger.Proofs.HookFlag

/-!
# Charges that trackers make meanwhile

A tracker that receives an amount inside the hook may make charges of its own. Each of them is skipped, and the
service that it was made through counts it. Nothing else comes of it: what is done inside the hook is the same,
and ends in the same ledger, as if the tracker had made no charge.
-/

namespace HeapLedger

open Ledger

variable {α β : Type}

/-! ## Without the charges of echoes -/

/-- An echo goes on answering as often as before, but with no charges. -/
def TrackerKind.mute : TrackerKind → TrackerKind
  | counter label totals => counter label totals
  | echo e => echo { e with charges := [] }

def Tracker.mute (tr : Tracker) : Tracker := { tr with kind := tr.kind.mute }

def Entry.answer? : Entry → Option Charge
  | event (.answered _ charge) => some charge
  | _ => none

def Service.unskip (svc : Service) : Service := { svc with skipped := 0 }

namespace Ledger

def mute (l : Ledger) : Ledger := { l with trackers := l.trackers.map Tracker.mute }

def answers (l : Ledger) : List Charge := l.journal.filterMap Entry.answer?

def hush (l : Ledger) : Ledger :=
  { l with
    trackers := l.trackers.map Tracker.mute
    services := l.services.map Service.unskip
    journal := l.journal.filter (·.answer?.isNone) }

structure Spared (asked : List Request) (before : List Charge) (l l' : Ledger) : Prop where
  same : l.hush = l'.hush
  mute : l'.trackers = l.trackers.map Tracker.mute
  skipped : ∀ s < l.services.size,
    (l.service s).skipped = (l'.service s).skipped + asked.countP (·.service = s)
  answers : l.answers = asked.map (fun _ => .skipped .reentrant) ++ before
  alone : l'.answers = before

end Ledger

def Ledger.Harmless (l : Ledger) (f : Ledger → Ledger × α) : Prop :=
  (f l).2 = (f l.mute).2 ∧ ∃ asked, Spared asked l.answers (f l).1 (f l.mute).1

structure Mutes (f : Ledger → Ledger × α) : Prop where
  spared : ∀ {asked before l l'}, Spared asked before l l' →
    (f l).2 = (f l').2 ∧ ∃ more, Spared (more ++ asked) before (f l).1 (f l').1

abbrev MutesOnly (f : Ledger → Ledger) : Prop := Mutes fun l => (f l, ())

/-! ## Echoes that make no charges -/

theorem TrackerKind.mute_mute (kind : TrackerKind) : kind.mute.mute = kind.mute := by
  cases kind <;> rfl

theorem Echo.spend?_mute (e : Echo) :
    { e with charges := [] }.spend? = e.spend?.map fun e => { e with charges := [] } := by
  obtain ⟨name, charges, answers⟩ := e
  match answers with
  | none | some 0 | some (_ + 1) => rfl

namespace Ledger

section
variable (l : Ledger)

theorem service_hush (s : ServiceId) : l.hush.service s = (l.service s).unskip := Table.get_map _ s rfl

theorem shroud_hush : l.hush.shroud = l.shroud := by
  have hservices : (l.services.map Service.unskip).map Service.veil = l.services.map Service.veil :=
    Table.map_map_of_eq _ fun _ => rfl
  unfold shroud veil
  rw [← hservices]
  rfl

theorem spared_mute : Spared [] l.answers l l.mute where
  same := by
    have htrackers : (l.trackers.map Tracker.mute).map Tracker.mute = l.trackers.map Tracker.mute :=
      Table.map_map_of_eq _ fun tr => congrArg (fun kind => { tr with kind }) tr.kind.mute_mute
    unfold hush
    rw [← htrackers]
    rfl
  mute := rfl
  skipped _ _ := rfl
  answers := rfl
  alone := rfl

theorem hush_setKind (i : TrackerId) (kind : TrackerKind) :
    (l.modifyTracker i fun tr => { tr with kind }).hush =
      l.hush.modifyTracker i fun tr => { tr with kind := kind.mute } := by
  refine congrArg (fun trackers => { l.hush with trackers }) (Table.map_modify l.trackers i ?_)
  exact fun _ => rfl

theorem hush_modifyService (s : ServiceId) {f : Service → Service} (h : ∀ svc, (f svc).unskip = f svc.unskip) :
    (l.modifyService s f).hush = l.hush.modifyService s f :=
  congrArg (fun services => { l.hush with services }) (Table.map_modify _ s h)

theorem hush_post {e : Entry} (he : e.answer? = none) : (l.post e).hush = l.hush.post e := by
  unfold hush post
  simp [he]

theorem hush_countSkip (s : ServiceId) : (l.countSkip s).hush = l.hush := by
  have hservices : (l.countSkip s).services.map Service.unskip = l.services.map Service.unskip :=
    Table.map_modify_of_eq _ s fun _ => rfl
  unfold hush
  rw [hservices]
  rfl

theorem skipped_countSkip (s : ServiceId) {j : ServiceId} (hj : j < l.services.size) :
    ((l.countSkip s).service j).skipped = (l.service j).skipped + if s = j then 1 else 0 := by
  unfold countSkip
  rw [service_modifyService]
  by_cases hs : s = j
  · rw [if_pos ⟨hs, hs ▸ hj⟩, if_pos hs]
  · rw [if_neg fun h => hs h.1, if_neg hs, Nat.add_zero]

end

namespace Spared

variable {asked : List Request} {before : List Charge} {l l' : Ledger} (h : Spared asked before l l')

include h

theorem read (v : Ledger → α) (hv : ∀ l, v l.shroud = v l) : v l = v l' := by
  have hshroud : l.shroud = l'.shroud := by rw [← shroud_hush, h.same, shroud_hush]
  rw [← hv, hshroud, hv]

theorem services_size : l.services.size = l'.services.size := by
  have hsize := congrArg (fun l : Ledger => l.services.size) h.same
  simpa only [hush, Table.size_map] using hsize

theorem tracker (i : TrackerId) : l'.tracker i = (l.tracker i).mute := by
  rw [Ledger.tracker, h.mute]
  exact Table.get_map _ i rfl

theorem setKind (i : TrackerId) (kind : TrackerKind) :
    Spared asked before (l.modifyTracker i fun tr => { tr with kind })
      (l'.modifyTracker i fun tr => { tr with kind := kind.mute }) :=
  { h with
    same := by
      rw [hush_setKind, hush_setKind, h.same, kind.mute_mute]
    mute := by
      show l'.trackers.modify i _ = (l.trackers.modify i _).map Tracker.mute
      rw [h.mute]
      refine (Table.map_modify l.trackers i ?_).symm
      exact fun _ => rfl }

theorem answer (t : ThreadId) (name : String) (r : Request) :
    Spared (r :: asked) before (answer refuse t name l r) l' where
  same := by
    refine Eq.trans ?_ h.same
    rw [← hush_countSkip l r.service]
    unfold hush
    rfl
  mute := h.mute
  skipped s hs := by
    have hs : s < l.services.size := (services_size_modifyService l r.service _) ▸ hs
    show ((l.countSkip r.service).service s).skipped = _
    rw [skipped_countSkip l r.service hs, h.skipped s hs, List.countP_cons]
    simp [Nat.add_assoc]
  answers := congrArg (Charge.skipped .reentrant :: ·) h.answers
  alone := h.alone

theorem answers_all (t : ThreadId) (name : String) (requests : List Request) :
    ∃ more, Spared (more ++ asked) before (requests.foldl (Ledger.answer refuse t name) l) l' := by
  induction requests generalizing l asked with
  | nil => exact ⟨[], h⟩
  | cons r rest ih =>
    obtain ⟨more, hmore⟩ := ih (h.answer t name r)
    exact ⟨more ++ [r], by simpa using hmore⟩

end Spared

end Ledger

/-! ## Steps in a row -/

namespace Mutes

theorem done (a : α) : Mutes fun l => (l, a) := ⟨fun h => ⟨rfl, [], h⟩⟩

theorem bind {f : Ledger → Ledger × α} {g : α → Ledger → Ledger × β} (hf : Mutes f) (hg : ∀ a, Mutes (g a)) :
    Mutes fun l => g (f l).2 (f l).1 where
  spared {asked before l l'} h := by
    obtain ⟨hanswer, more, hmid⟩ := hf.spared h
    obtain ⟨hanswer', more', hend⟩ := (hg (f l).2).spared hmid
    rw [← hanswer]
    exact ⟨hanswer', more' ++ more, by simpa using hend⟩

theorem read {g : α → Ledger → Ledger × β} (v : Ledger → α) (hv : ∀ l, v l.shroud = v l) (hg : ∀ a, Mutes (g a)) :
    Mutes fun l => g (v l) l where
  spared {asked before l l'} h := by
    rw [← h.read v hv]
    exact (hg (v l)).spared h

/-- A step that trackers and counts have no part in. -/
theorem of_hush {f : Ledger → Ledger × α} (hf : ∀ l, f l.hush = ((f l).1.hush, (f l).2))
    (htrackers : ∀ l, (f l).1.trackers = l.trackers) (hsize : ∀ l, (f l).1.services.size = l.services.size)
    (hskipped : ∀ l s, ((f l).1.service s).skipped = (l.service s).skipped)
    (hanswers : ∀ l, (f l).1.answers = l.answers) : Mutes f where
  spared {asked before l l'} h := by
    have heq : ((f l).1.hush, (f l).2) = ((f l').1.hush, (f l').2) := by rw [← hf, h.same, hf]
    obtain ⟨hsame, hanswer⟩ := Prod.ext_iff.mp heq
    exact ⟨hanswer, [], {
      same := hsame
      mute := by rw [htrackers, htrackers, h.mute]
      skipped := fun s hs => by
        rw [hskipped, hskipped]
        exact h.skipped s (hsize l ▸ hs)
      answers := (hanswers l).trans h.answers
      alone := (hanswers l').trans h.alone }⟩

theorem map {f : Ledger → Ledger × α} (hf : Mutes f) (v : α → β) : Mutes fun l => ((f l).1, v (f l).2) :=
  hf.bind fun a => .done (v a)

theorem harmless {f : Ledger → Ledger × α} (hf : Mutes f) (l : Ledger) : l.Harmless f := by
  obtain ⟨hanswer, asked, h⟩ := hf.spared l.spared_mute
  exact ⟨hanswer, asked, by simpa using h⟩

end Mutes

theorem MutesOnly.seq {f : Ledger → Ledger} {g : Ledger → Ledger × α} (hf : MutesOnly f) (hg : Mutes g) :
    Mutes fun l => g (f l) :=
  Mutes.bind hf fun _ => hg

theorem MutesOnly.answer {f : Ledger → Ledger} (hf : MutesOnly f) (a : α) : Mutes fun l => (f l, a) :=
  Mutes.map hf fun _ => a

theorem MutesOnly.foldl {f : Ledger → α → Ledger} (hf : ∀ a, MutesOnly (f · a)) :
    ∀ as : List α, MutesOnly fun l => as.foldl f l
  | [] => .done ()
  | a :: as => (hf a).seq (foldl hf as)

namespace Ledger

variable (t : ThreadId)

/-! ## Steps inside the hook -/

theorem mutes_post {e : Entry} (he : e.answer? = none) : MutesOnly (·.post e) :=
  .of_hush (fun l => congrArg (·, ()) (hush_post l he).symm) (fun _ => rfl) (fun _ => rfl) (fun _ _ => rfl)
    fun _ => List.filterMap_cons_none he

theorem mutes_modifyThread (j : ThreadId) (f : Thread → Thread) : MutesOnly (·.modifyThread j f) :=
  .of_hush (fun _ => rfl) (fun _ => rfl) (fun _ => rfl) (fun _ _ => rfl) fun _ => rfl

theorem mutes_modifyContext (c : ContextId) (f : Context → Context) : MutesOnly (·.modifyContext c f) :=
  .of_hush (fun _ => rfl) (fun _ => rfl) (fun _ => rfl) (fun _ _ => rfl) fun _ => rfl

theorem mutes_countSkip (s : ServiceId) : MutesOnly (·.countSkip s) where
  spared {asked before l l'} h := by
    refine ⟨rfl, [], { h with same := ?_, skipped := fun j hj => ?_ }⟩
    · rw [hush_countSkip, hush_countSkip, h.same]
    · have hj : j < l.services.size := (services_size_modifyService l s _) ▸ hj
      rw [skipped_countSkip l s hj, skipped_countSkip l' s (h.services_size ▸ hj), h.skipped j hj]
      exact Nat.add_right_comm ..

theorem mutes_resolve (s : ServiceId) (k : TaskKey) : Mutes fun l => l.resolve t s k := by
  have hsource : ∀ (l : Ledger) (j : ServiceId), (l.hush.service j).source = (l.service j).source := fun l j => by
    rw [service_hush]; rfl
  have hslots : ∀ (l : Ledger) (j : ServiceId), (l.hush.service j).slots = (l.service j).slots := fun l j => by
    rw [service_hush]; rfl
  have hcontext : ∀ l : Ledger, l.hush.taskContext t s k = l.taskContext t s k := fun l => by
    unfold taskContext; rw [hsource]; rfl
  have hreused : ∀ l : Ledger, l.hush.reused t s k = l.reused t s k := fun l => by
    unfold reused remembered slot
    rw [hslots]
    rfl
  have hmemorize : ∀ (l : Ledger) answer, l.hush.memorize t s k answer = (l.memorize t s k answer).hush := by
    intro l answer
    rw [memorize_eq, memorize_eq, show l.hush.boundSlot t s = l.boundSlot t s from rfl]
    cases l.boundSlot t s with
    | some i =>
      let f (svc : Service) : Service :=
        { svc with slots := svc.slots.modify i fun slot =>
          { slot with key := answer.map fun _ => k, context := answer } }
      exact (hush_modifyService (f := f) l s fun _ => rfl).symm
    | none => cases answer <;> rfl
  have hlookup : ∀ l : Ledger, (l.hush.lookup t s k).1 = (l.lookup t s k).1.hush := fun l =>
    (hush_modifyService (f := fun svc => { svc with lookups := svc.lookups + 1 }) l s fun _ => rfl).symm
  have hseek : ∀ l : Ledger, l.hush.seek t s k = ((l.seek t s k).1.hush, (l.seek t s k).2) := by
    intro l
    unfold seek
    rw [hreused]
    cases l.reused t s k with
    | some c => rfl
    | none =>
      have hanswer : (l.hush.lookup t s k).2 = (l.lookup t s k).2 := hcontext l
      dsimp only
      rw [hlookup, hanswer, hmemorize]
  refine .of_hush (fun l => ?_) (fun l => (congrArg trackers (veil_resolve l t s k) :)) (fun l => ?_)
    (skipped_seek · t s k) fun l => ?_
  · unfold resolve
    dsimp only
    rw [hseek, hsource, hcontext, hush_post _ rfl]
    rfl
  · have hsize := congrArg (fun l : Ledger => l.services.size) (veil_resolve l t s k)
    simpa only [veil, Table.size_map] using hsize
  · show (l.seek t s k).1.answers = l.answers
    exact congrArg (List.filterMap Entry.answer?) (journal_seek l t s k)

/-! ## Up the trackers -/

theorem deliver_mutes (b : Delta) (i : TrackerId) : MutesOnly fun l => deliver refuse t b l i where
  spared {asked before l l'} h := by
    have hkind : (l'.tracker i).kind = (l.tracker i).kind.mute := congrArg Tracker.kind (h.tracker i)
    refine ⟨rfl, ?_⟩
    dsimp only
    unfold deliver
    rw [hkind]
    cases (l.tracker i).kind with
    | counter label totals => exact ⟨[], h.setKind i (.counter label (totals.add b))⟩
    | echo e =>
      have hhook : l.inHook t = l'.inHook t := h.read (·.inHook t) (inHook_veil · t)
      obtain ⟨-, more, hreceived⟩ := (mutes_post (e := .event (.received e.name b (l.inHook t))) rfl).spared h
      dsimp only [TrackerKind.mute]
      rw [e.spend?_mute, ← hhook]
      cases hs : e.spend? with
      | none => exact ⟨more, hreceived⟩
      | some e' =>
        obtain ⟨more', hanswers⟩ := (hreceived.setKind i (.echo e')).answers_all t e.name e.charges
        exact ⟨more' ++ more, (List.append_assoc more' more asked).symm ▸ hanswers⟩

theorem propagate_mutes (i : TrackerId) (b : Delta) : MutesOnly fun l => propagate refuse l t i b where
  spared {asked before l l'} h := by
    have hroute : l'.route i = l.route i := by
      unfold route
      rw [h.tracker]
      rfl
    show _ ∧ ∃ more, Spared _ _ ((l.route i).foldl _ l) ((l'.route i).foldl _ l')
    rw [hroute]
    exact (MutesOnly.foldl (deliver_mutes t b) (l.route i)).spared h

theorem commit_mutes (c : ContextId) (b : Delta) : MutesOnly fun l => commit refuse l t c b :=
  (Mutes.read (fun l => (l.context c).tracker) (fun _ => rfl) fun i =>
    (mutes_post (e := .committed c b) rfl).seq (propagate_mutes t i b) :)

theorem commitSum_mutes (c : ContextId) (sum : Option Delta) : MutesOnly fun l =>
    match sum with
    | none => l
    | some b => commit refuse l t c b := by
  cases sum with
  | none => exact .done ()
  | some b => exact commit_mutes t c b

theorem absorb_mutes (c : ContextId) (d : Delta) : MutesOnly fun l => absorb refuse l t c d :=
  (Mutes.read (fun l => (l.context c).cache.consume d) (fun _ => rfl) fun r =>
    (mutes_modifyContext c fun ctx => { ctx with cache := r.1 }).seq (commitSum_mutes t c r.2) :)

theorem flush_mutes (c : ContextId) : Mutes fun l => flush refuse l t c :=
  (Mutes.read (fun l => (l.context c).cache.take) (fun _ => rfl) fun r =>
    (mutes_post (e := .flushed c) rfl).seq
      ((mutes_modifyContext c fun ctx => { ctx with cache := r.1 }).seq ((commit_mutes t c r.2).answer r.2)) :)

theorem Inner.mutes {s : ServiceId} {f : Ledger → Ledger × α} (h : Inner t s α f) : Mutes f := by
  cases h with
  | charged v => exact mutes_post rfl
  | carry carry => exact mutes_modifyThread t _
  | resolve k => exact mutes_resolve t s k
  | absorb c d => exact absorb_mutes t c d

end Ledger

/-! ## Whatever is done inside the hook -/

theorem Mutes.guarded (t : ThreadId) {f g : Ledger → Ledger × α} (hf : Mutes f) (hg : Mutes g) :
    Mutes fun l => if l.inHook t then g l else l.guarded t f := by
  have hhook : ∀ b, MutesOnly (·.setInHook t b) := fun b => mutes_modifyThread t fun th => { th with inHook := b }
  have hleave := hf.bind fun a => (hhook false).answer a
  have hguarded : Mutes fun l => l.guarded t f := (hhook true).seq hleave
  have hchoice : ∀ inHook : Bool, Mutes fun l => if inHook then g l else l.guarded t f := by
    intro inHook
    cases inHook with
    | true => simpa using hg
    | false => simpa using hguarded
  exact (Mutes.read (·.inHook t) (inHook_veil · t) hchoice :)

theorem Built.mutes {P : StepKind} (hP : ∀ {α : Type} {f : Ledger → Ledger × α}, P α f → Mutes f)
    {f : Ledger → Ledger × α} (h : Built cover P f) : Mutes f := by
  induction h with
  | step h => exact hP h
  | done a => exact .done a
  | bind hf hg ihf ihg => exact ihf.bind ihg
  | read v hv hg ih => exact .read v (fun l => shroud_of_cover l hv) ih
  | guarded t hf hg ihf ihg => exact .guarded t ihf ihg

namespace Ledger

variable (t : ThreadId) (s : ServiceId) (d : Delta)

theorem chargeInHook_mutes : Mutes fun l => l.chargeInHook t s d :=
  (chargeInHook_built t s d).mutes (Inner.mutes t)

theorem newHome_mutes : MutesOnly fun l => l.newHome t s := by
  have hsource : ∀ l : Ledger, ((l.hush.service s).threadTracker, (l.hush.service s).threshold) =
      ((l.service s).threadTracker, (l.service s).threshold) := fun l => by rw [service_hush]; rfl
  refine .of_hush (fun l => ?_) (fun _ => rfl) (fun _ => rfl) (fun _ _ => rfl) fun _ => rfl
  obtain ⟨htracker, hthreshold⟩ := Prod.ext_iff.mp (hsource l)
  unfold newHome
  dsimp only at htracker hthreshold ⊢
  rw [htracker, hthreshold]
  rfl

variable {t s} in
theorem Settling.mutes {α : Type} {f : Ledger → Ledger × α} (h : Settling t s α f) : Mutes f := by
  cases h with
  | skip => exact mutes_countSkip s
  | newHome => exact newHome_mutes t s
  | carried c d => exact mutes_post rfl
  | absorb c d => exact absorb_mutes t c d

theorem settle_mutes : Mutes fun l => l.settle t s := (settle_parts t s).mutes Settling.mutes

theorem charge_mutes : Mutes fun l => l.charge t s d := by
  refine (charge_parts t s d).mutes fun h => ?_
  cases h with
  | inner h => exact Inner.mutes t h
  | settling h => exact Settling.mutes h

theorem chargeBare_mutes : Mutes fun l => l.chargeBare t s d :=
  .guarded t (chargeInHook_mutes t s d) (chargeInHook_mutes t s d)

end Ledger

end HeapLedger
