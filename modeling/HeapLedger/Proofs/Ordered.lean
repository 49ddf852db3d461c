import HeapLedger.Proofs.Calls

/-!
# Order among calls

Only a charge, a thread's flush and what is carried into a new context enter the hook, and they do so from outside and
leave it again. So the thread is in the middle of at most one charge that has entered the hook, and a tracker that is
called meanwhile finds the thread inside of it.
-/

namespace HeapLedger

open Ledger

variable (habit : Habit) {t : ThreadId}

/-! ## What no call changes -/

structure Fixed (l l' : Ledger) : Prop where
  above : ∀ i, (l'.tracker i).above = (l.tracker i).above
  threads_size : l'.threads.size = l.threads.size

structure Unmoving (t : ThreadId) (l l' : Ledger) : Prop extends Fixed l l' where
  flags : l'.flags t = l.flags t

theorem Fixed.refl (l : Ledger) : Fixed l l := ⟨fun _ => rfl, rfl⟩

theorem Fixed.trans {l l' l'' : Ledger} (h : Fixed l l') (h' : Fixed l' l'') : Fixed l l'' where
  above i := (h'.above i).trans (h.above i)
  threads_size := h'.threads_size.trans h.threads_size

theorem Unmoving.refl (l : Ledger) : Unmoving t l l := ⟨.refl l, rfl⟩

theorem Unmoving.trans {l l' l'' : Ledger} (h : Unmoving t l l') (h' : Unmoving t l' l'') : Unmoving t l l'' :=
  ⟨h.toFixed.trans h'.toFixed, h'.flags.trans h.flags⟩

section
variable {l l' : Ledger}

theorem unmoving_of_veil (h : l'.veil = l.veil) : Unmoving t l l' where
  above i := by
    have habove := congrArg (fun l : Ledger => (l.tracker i).above) h
    exact habove
  threads_size := by
    have hsize := congrArg (fun l : Ledger => l.threads.size) h
    simpa [veil, Table.size_map] using hsize
  flags := flags_of_veil h t

theorem unmoving_of_eq (hi : l'.trackers = l.trackers) (ht : l'.threads = l.threads) : Unmoving t l l' where
  above i := by rw [tracker, hi]; rfl
  threads_size := by rw [ht]
  flags := flags_of_threads ht t

theorem unmoving_modifyThread (j : ThreadId) {f : Thread → Thread} (hf : ∀ th, (f th).inHook = th.inHook)
    (hg : ∀ th, (f th).holdsGuard = th.holdsGuard) : Unmoving t l (l.modifyThread j f) where
  above _ := rfl
  threads_size := threads_size_modifyThread ..
  flags := flags_modifyThread j hf hg t

theorem unmoving_modifyTracker (i : TrackerId) {f : Tracker → Tracker} (hf : ∀ tr, (f tr).above = tr.above) :
    Unmoving t l (l.modifyTracker i f) where
  above j := Table.get_modify_of_eq l.trackers i j Tracker.above hf
  threads_size := rfl
  flags := rfl

theorem fixed_modifyThread (j : ThreadId) (f : Thread → Thread) : Fixed l (l.modifyThread j f) where
  above _ := rfl
  threads_size := threads_size_modifyThread ..

theorem unmoving_post (e : Entry) : Unmoving t l (l.post e) := unmoving_of_eq rfl rfl

theorem unmoving_receive (i : TrackerId) (b : Delta) : Unmoving t l (l.receive t i b) := by
  unfold receive
  cases (l.tracker i).kind with
  | counter => exact unmoving_modifyTracker i fun _ => rfl
  | echo e =>
    dsimp only
    cases e.spend? with
    | none => exact unmoving_post _
    | some e' =>
      apply (unmoving_post _).trans
      exact unmoving_modifyTracker i fun _ => rfl

theorem unmoving_openContext (s : ServiceId) (c : ContextId) (d : Delta) (charge : Charge) :
    Unmoving t l (l.openContext t s c d charge).ledger := by
  unfold openContext
  split <;> exact unmoving_post _

theorem unmoving_park (s : ServiceId) (d : Delta) : Unmoving t l (l.park t s d).1 := by
  have hcarry : ∀ carry, Unmoving t l (l.modifyThread t fun th => { th with carry }) := by
    intro carry
    apply unmoving_modifyThread <;> simp
  unfold park
  split
  · split
    · exact (hcarry _).trans (unmoving_post _)
    · exact unmoving_post _
  · exact (hcarry _).trans (unmoving_post _)

theorem unmoving_opening (s : ServiceId) (d : Delta) : Unmoving t l (l.opening t s d).ledger := by
  unfold opening
  cases l.activeTask t s with
  | some k =>
    have hresolve : Unmoving t l (l.resolve t s k).1 := unmoving_of_veil (veil_resolve l t s k)
    dsimp only
    split
    · exact hresolve.trans (unmoving_post _)
    · exact hresolve.trans (unmoving_openContext ..)
  | none =>
    unfold openThread
    dsimp only
    split
    · exact unmoving_park s d
    · exact unmoving_post _
    · split
      · exact unmoving_openContext ..
      · exact unmoving_post _

theorem unmoving_newHome (s : ServiceId) : Unmoving t l (l.newHome t s) := by
  have hthread : Unmoving t l (l.modifyThread t fun th =>
      { th with home := .settled s l.contexts.size, carry := none, destructors := .home :: th.destructors }) := by
    apply unmoving_modifyThread <;> simp
  exact hthread.trans (unmoving_of_eq rfl rfl)

theorem unmoving_leave : Unmoving t l (l.leave t) := by
  apply unmoving_modifyThread <;> intro th <;> unfold Thread.leave <;> split <;> rfl

theorem unmoving_unbindWorker : Unmoving t l (l.unbindWorker t).1 := by
  rw [unbindWorker_eq]
  split
  · exact .refl l
  · rename_i w _
    have hslot : Unmoving t l (l.modifySlot w.service w.slot fun _ => {}) := unmoving_of_eq rfl rfl
    refine (hslot.trans ?_).trans (unmoving_post _)
    apply unmoving_modifyThread <;> simp

end

/-! ## Calls that leave the hook alone -/

def Call.plain : Call → Bool
  | .charge .. | .settle _ | .flushThread _ | .unhook | .letGo => false
  | _ => true

def Call.guards : Call → Bool
  | .unhook => true
  | _ => false

def Call.answers : Call → Bool
  | .reply .. => true
  | _ => false

def Call.loose (c : Call) : Bool := !c.guards && !c.answers

def Loose (calls : List Call) : Prop := ∀ c ∈ calls, c.loose = true

@[simp] theorem loose_nil : Loose [] := by simp [Loose]

@[simp] theorem loose_cons {c : Call} {calls : List Call} : Loose (c :: calls) ↔ c.loose = true ∧ Loose calls := by
  simp [Loose]

theorem loose_single {c : Call} (h : c.loose = true) : Loose [c] := by simp [h]

@[simp] theorem loose_append {calls calls' : List Call} : Loose (calls ++ calls') ↔ Loose calls ∧ Loose calls' := by
  simp [Loose, or_imp, forall_and]

@[simp] theorem loose_charges (event : Charge → Event) (requests : List Request) :
    Loose (Call.charges event requests) := by
  simp only [Loose, Call.charges, List.mem_flatMap]
  rintro c ⟨r, -, hc⟩
  simp only [List.mem_cons, List.not_mem_nil, or_false] at hc
  rcases hc with rfl | rfl <;> rfl

theorem loose_map {α : Type} {f : α → Call} (hf : ∀ a, (f a).loose = true) (as : List α) : Loose (as.map f) := by
  simp [Loose, hf]

theorem beginAbsorb_plain (l : Ledger) (a : Charge) (c : ContextId) (d : Delta) :
    Unmoving t l (Call.beginAbsorb l a c d).ledger ∧ Loose (Call.beginAbsorb l a c d).calls := by
  have hcache : ∀ cache, Unmoving t l (l.modifyContext c fun ctx => { ctx with cache }) :=
    fun _ => unmoving_of_eq rfl rfl
  unfold Call.beginAbsorb
  dsimp only
  split
  · exact ⟨hcache _, loose_nil⟩
  · exact ⟨(hcache _).trans (unmoving_post _), loose_single rfl⟩

theorem beginRelease_plain (l : Ledger) (a : Charge) (a' : Account) :
    Unmoving t l (Call.beginRelease l a a').ledger ∧ Loose (Call.beginRelease l a a').calls := by
  unfold Call.beginRelease
  split
  · exact ⟨unmoving_of_eq rfl rfl, loose_nil⟩
  · exact ⟨.refl l, loose_single rfl⟩

theorem beginLeaveScope_plain (l : Ledger) (a : Charge) :
    Unmoving t l (Call.beginLeaveScope t l a).ledger ∧ Loose (Call.beginLeaveScope t l a).calls := by
  unfold Call.beginLeaveScope
  split
  · exact ⟨.refl l, loose_nil⟩
  · dsimp only
    split
    · exact ⟨unmoving_leave.trans (unmoving_of_eq rfl rfl), loose_single rfl⟩
    · exact ⟨unmoving_leave, loose_nil⟩

theorem beginDestroy_plain (l : Ledger) (a : Charge) (destructor : Destructor) :
    Unmoving t l (Call.beginDestroy t l a destructor).ledger ∧ Loose (Call.beginDestroy t l a destructor).calls := by
  cases destructor with
  | home =>
    simp only [Call.beginDestroy]
    split
    · refine ⟨?_, loose_single rfl⟩
      apply unmoving_modifyThread <;> simp
    · exact ⟨.refl l, loose_nil⟩
  | exitCharges =>
    refine ⟨.refl l, ?_⟩
    show Loose (Call.charges _ _ ++ _)
    simp only [loose_append, loose_charges, true_and]
    split
    · exact loose_single rfl
    · exact loose_nil

theorem begin_plain {c : Call} (h : c.plain = true) (l : Ledger) (a : Charge) :
    Unmoving t l (c.begin habit t l a).ledger ∧ Loose (c.begin habit t l a).calls := by
  cases c with
  | charge | settle | flushThread | unhook | letGo => cases h
  | hand i b =>
    refine ⟨unmoving_receive i b, ?_⟩
    show Loose (Call.charges _ _ ++ [.pass i b])
    simp [Call.loose, Call.guards, Call.answers]
  | pass i b => exact ⟨.refl l, loose_map (fun _ => rfl) _⟩
  | reply s given =>
    cases given with
    | skipped => exact ⟨unmoving_of_eq rfl rfl, loose_nil⟩
    | _ => exact ⟨.refl l, loose_nil⟩
  | note event => exact ⟨unmoving_post _, loose_nil⟩
  | absorb c d => exact beginAbsorb_plain l a c d
  | flush | consume | closeContext | dropContext | closeAccount => exact ⟨unmoving_of_eq rfl rfl, loose_single rfl⟩
  | release a' => exact beginRelease_plain l a a'
  | leave => exact ⟨unmoving_leave, loose_nil⟩
  | leaveScope => exact beginLeaveScope_plain l a
  | unwind n =>
    cases n with
    | zero => exact ⟨.refl l, loose_nil⟩
    | succ n =>
      refine ⟨.refl l, ?_⟩
      show Loose [.leaveScope, .unwind n]
      simp [Call.loose, Call.guards, Call.answers]
  | dropFuture f =>
    constructor
    · apply unmoving_modifyThread <;> simp [Thread.enter]
    · show Loose (Call.charges _ _ ++ [.leave, .closeAccount (l.future f).account])
      simp [Call.loose, Call.guards, Call.answers]
  | exit =>
    refine ⟨.refl l, ?_⟩
    show Loose [.unwind (l.depth t), .letGo]
    simp [Call.loose, Call.guards, Call.answers]
  | destroy destructor => exact beginDestroy_plain l a destructor

/-! ## Calls that enter the hook or leave it -/

section
variable {l : Ledger} {a : Charge}

theorem flags_enter (ht : t < l.threads.size) : (l.setInHook t true).flags t = (true, (l.thread t).holdsGuard) := by
  rw [flags, inHook, setInHook, thread_modifyThread, if_pos ⟨rfl, ht⟩]

theorem flags_leave : (l.setInHook t false).flags t = (false, (l.thread t).holdsGuard) := by
  rw [flags, inHook, setInHook, thread_modifyThread]
  split
  · rfl
  · rename_i hlt
    have hsize : l.threads.size ≤ t := Nat.not_lt.mp fun h => hlt ⟨rfl, h⟩
    rw [thread, Table.get_of_size_le hsize]
    rfl

/-- A charge that is made outside of the hook enters it until a context has taken the amount in, and answers then. -/
theorem begin_charge (ht : t < l.threads.size) (hn : l.inHook t = false) (s : ServiceId) (d : Delta) :
    let x := Call.begin habit t l a (.charge s d)
    Fixed l x.ledger ∧ x.ledger.flags t = (true, (l.thread t).holdsGuard) ∧
      ∃ cs answer, Loose cs ∧ (x.calls = cs ++ .unhook :: [.reply s answer] ∨
        x.calls = cs ++ .unhook :: [.settle s, .reply s answer]) := by
  have hopening : Unmoving t (l.setInHook t true) ((l.setInHook t true).opening t s d).ledger := unmoving_opening s d
  simp only [Call.begin, Call.beginCharge, hn, Bool.false_eq_true, if_false]
  refine ⟨(fixed_modifyThread t _).trans hopening.toFixed, hopening.flags.trans (flags_enter ht), ?_⟩
  have hloose : Loose (((l.setInHook t true).opening t s d).intake.toList.map (.absorb · d)) :=
    loose_map (fun _ => rfl) _
  refine ⟨_, ((l.setInHook t true).opening t s d).charge, hloose, ?_⟩
  split
  · exact .inr rfl
  · exact .inl rfl

theorem begin_charge_refused (h : l.inHook t = true) (s : ServiceId) (d : Delta) :
    Call.begin habit t l a (.charge s d) = ⟨l.countSkip s, .skipped .reentrant, []⟩ := by
  show Call.beginCharge t l a s d = _
  simp [Call.beginCharge, h]

/-- A thread that gets its own context enters the hook for what it carries, and otherwise calls nobody. -/
theorem begin_settle (ht : t < l.threads.size) (s : ServiceId) :
    let x := Call.begin habit t l a (.settle s)
    Fixed l x.ledger ∧ (x.ledger.flags t = l.flags t ∧ x.calls = [] ∨
      l.inHook t = false ∧ x.ledger.flags t = (true, (l.thread t).holdsGuard) ∧
        ∃ c d, x.calls = [.absorb c d, .unhook]) := by
  have hnew : Unmoving t l (l.newHome t s) := unmoving_newHome s
  simp only [Call.begin, Call.beginSettle]
  split
  · split
    · exact ⟨hnew.toFixed, .inl ⟨hnew.flags, rfl⟩⟩
    · rename_i hc
      have hinside : (l.newHome t s).inHook t = l.inHook t := congrArg Prod.fst hnew.flags
      have hholds : ((l.newHome t s).thread t).holdsGuard = (l.thread t).holdsGuard := congrArg Prod.snd hnew.flags
      refine ⟨?_, .inr ⟨by simpa [hinside] using not_or.mp hc |>.2, ?_, _, _, rfl⟩⟩
      · exact (hnew.toFixed.trans (fixed_modifyThread t _)).trans (unmoving_post (t := t) _).toFixed
      · rw [← hholds]
        exact flags_enter (hnew.threads_size.symm ▸ ht)
  · exact ⟨.refl l, .inl ⟨rfl, rfl⟩⟩

theorem begin_flushThread (ht : t < l.threads.size) (s : ServiceId) :
    let x := Call.begin habit t l a (.flushThread s)
    Fixed l x.ledger ∧ (x.ledger.flags t = l.flags t ∧ x.calls = [] ∨
      l.inHook t = false ∧ x.ledger.flags t = (true, (l.thread t).holdsGuard) ∧
        ∃ cs, Loose cs ∧ x.calls = cs ++ [.unhook]) := by
  simp only [Call.begin, Call.beginFlushThread]
  split
  · exact ⟨.refl l, .inl ⟨rfl, rfl⟩⟩
  · rename_i hn
    exact ⟨fixed_modifyThread t _, .inr ⟨by simpa using hn, flags_enter ht, _, loose_map (fun _ => rfl) _, rfl⟩⟩

theorem begin_letGo :
    let x := Call.begin habit t l a .letGo
    Fixed l x.ledger ∧ Loose x.calls ∧
      x.ledger.flags t = if (l.thread t).holdsGuard then (false, false) else l.flags t := by
  have hunbind : Unmoving t l (l.unbindWorker t).1 := unmoving_unbindWorker
  have hunguard : ∀ l : Ledger, Fixed l (l.unguardThread t).1 := by
    intro l
    unfold unguardThread
    split
    · exact fixed_modifyThread t _
    · exact .refl l
  have hholds : ((l.unbindWorker t).1.thread t).holdsGuard = (l.thread t).holdsGuard := congrArg Prod.snd hunbind.flags
  refine ⟨hunbind.toFixed.trans (hunguard _), loose_map (fun _ => rfl) _, ?_⟩
  show ((l.unbindWorker t).1.unguardThread t).1.flags t = _
  rw [flags_unguardThread, hholds, hunbind.flags]
  simp

theorem fixed_begin (ht : t < l.threads.size) (c : Call) : Fixed l (c.begin habit t l a).ledger := by
  cases hp : c.plain with
  | true => exact (begin_plain habit hp l a).1.toFixed
  | false =>
    cases c with
    | charge s d =>
      cases hn : l.inHook t with
      | true =>
        rw [begin_charge_refused habit hn]
        exact (unmoving_of_veil (t := t) (veil_countSkip l s)).toFixed
      | false => exact (begin_charge habit ht hn s d).1
    | settle s => exact (begin_settle habit ht s).1
    | flushThread s => exact (begin_flushThread habit ht s).1
    | unhook => exact fixed_modifyThread t _
    | letGo => exact (begin_letGo habit).1
    | _ => cases hp

end

/-! ## The calls of a thread -/

/-- The calls of a thread that is outside of the hook. It may be about to answer a charge, but only if no other call
comes before that. -/
inductive Outside : List Call → Prop
  | loose {calls} (h : Loose calls) : Outside calls
  | reply {s given calls} (h : Loose calls) : Outside (.reply s given :: calls)
  | settle {s s' given calls} (h : Loose calls) : Outside (.settle s :: .reply s' given :: calls)

/-- The calls of a thread, given whether it is inside the hook and whether it keeps itself there. -/
inductive Ordered : Bool × Bool → List Call → Prop
  | outside {calls} (h : Outside calls) : Ordered (false, false) calls
  | inside {inner outer} (hi : Loose inner) (ho : Outside outer) : Ordered (true, false) (inner ++ .unhook :: outer)
  | kept {calls} (h : Loose calls) : Ordered (true, true) calls

theorem Outside.append {calls rest : List Call} (h : Outside calls) (hr : Loose rest) : Outside (calls ++ rest) := by
  cases h with
  | loose h => exact .loose (by simp [h, hr])
  | reply h => exact .reply (by simp [h, hr])
  | settle h => exact .settle (by simp [h, hr])

/-- A loose call of a thread that is outside of the hook leaves its calls in order. -/
theorem Ordered.begin_outside {l : Ledger} {a : Charge} {c : Call} {rest : List Call} (ht : t < l.threads.size)
    (hl : l.flags t = (false, false)) (hc : c.loose = true) (hr : Loose rest) :
    Ordered ((c.begin habit t l a).ledger.flags t) ((c.begin habit t l a).calls ++ rest) := by
  have hn : l.inHook t = false := congrArg Prod.fst hl
  have hholds : (l.thread t).holdsGuard = false := congrArg Prod.snd hl
  have hplain : ∀ {flags : Bool × Bool} {calls : List Call}, flags = l.flags t → Loose calls →
      Ordered flags (calls ++ rest) := by
    intro flags calls hf hc
    rw [hf, hl]
    exact .outside (.loose (by simp [hc, hr]))
  have henters : ∀ {flags : Bool × Bool} {inner outer : List Call}, flags = (true, (l.thread t).holdsGuard) →
      Loose inner → Outside outer → Ordered flags ((inner ++ .unhook :: outer) ++ rest) := by
    intro flags inner outer hf hi ho
    rw [hf, hholds, List.append_assoc]
    exact .inside hi (ho.append hr)
  cases hp : c.plain with
  | true =>
    obtain ⟨hk, hcs⟩ := begin_plain habit hp l a
    exact hplain hk.flags hcs
  | false =>
    cases c with
    | charge s d =>
      obtain ⟨-, hf, cs, given, hcs, hx | hx⟩ := begin_charge habit (a := a) ht hn s d
      · rw [hx]
        exact henters hf hcs (.reply loose_nil)
      · rw [hx]
        exact henters hf hcs (.settle loose_nil)
    | settle s =>
      obtain ⟨-, ⟨hf, hx⟩ | ⟨-, hf, c, d, hx⟩⟩ := begin_settle habit (a := a) ht s
      · rw [hx]
        exact hplain hf loose_nil
      · rw [hx]
        exact henters hf (loose_single rfl) (.loose loose_nil)
    | flushThread s =>
      obtain ⟨-, ⟨hf, hx⟩ | ⟨-, hf, cs, hcs, hx⟩⟩ := begin_flushThread habit (a := a) ht s
      · rw [hx]
        exact hplain hf loose_nil
      · rw [hx]
        exact henters hf hcs (.loose loose_nil)
    | letGo =>
      obtain ⟨-, hcs, hf⟩ := begin_letGo habit (t := t) (l := l) (a := a)
      rw [hholds] at hf
      exact hplain hf hcs
    | unhook => cases hc
    | _ => cases hp

/-- A loose call of a thread that is inside the hook makes loose calls, and leaves the thread inside unless it is what
lets the thread go. -/
theorem begin_inside {l : Ledger} {a : Charge} {c : Call} (ht : t < l.threads.size) (hn : l.inHook t = true)
    (hc : c.loose = true) :
    Loose (c.begin habit t l a).calls ∧ ((c.begin habit t l a).ledger.flags t = l.flags t ∨
      (l.thread t).holdsGuard = true ∧ (c.begin habit t l a).ledger.flags t = (false, false)) := by
  cases hp : c.plain with
  | true =>
    obtain ⟨hk, hcs⟩ := begin_plain habit hp l a
    exact ⟨hcs, .inl hk.flags⟩
  | false =>
    cases c with
    | charge s d =>
      rw [begin_charge_refused habit hn]
      exact ⟨loose_nil, .inl (flags_of_veil (veil_countSkip l s) t)⟩
    | settle s =>
      obtain ⟨-, ⟨hf, hx⟩ | ⟨hno, -⟩⟩ := begin_settle habit (a := a) ht s
      · rw [hx]
        exact ⟨loose_nil, .inl hf⟩
      · rw [hn] at hno
        cases hno
    | flushThread s =>
      obtain ⟨-, ⟨hf, hx⟩ | ⟨hno, -⟩⟩ := begin_flushThread habit (a := a) ht s
      · rw [hx]
        exact ⟨loose_nil, .inl hf⟩
      · rw [hn] at hno
        cases hno
    | letGo =>
      obtain ⟨-, hcs, hf⟩ := begin_letGo habit (t := t) (l := l) (a := a)
      cases hg : (l.thread t).holdsGuard with
      | true => exact ⟨hcs, .inr ⟨rfl, by rw [hf, hg, if_pos rfl]⟩⟩
      | false => exact ⟨hcs, .inl (by rw [hf, hg]; rfl)⟩
    | unhook => cases hc
    | _ => cases hp

theorem Outside.step {l : Ledger} {a : Charge} {calls : List Call} (ht : t < l.threads.size)
    (hl : l.flags t = (false, false)) (h : Outside calls) :
    Ordered ((Execution.step habit t ⟨l, a, calls⟩).ledger.flags t) (Execution.step habit t ⟨l, a, calls⟩).calls := by
  cases h with
  | loose h =>
    cases calls with
    | nil =>
      show Ordered (l.flags t) []
      rw [hl]
      exact .outside (.loose loose_nil)
    | cons c rest =>
      rw [loose_cons] at h
      exact Ordered.begin_outside habit ht hl h.1 h.2
  | @reply s given rest h =>
    obtain ⟨hk, -⟩ := begin_plain habit (t := t) (c := .reply s given) rfl l a
    have hx : (Call.begin habit t l a (.reply s given)).calls = [] := by cases given <;> rfl
    show Ordered _ ((Call.begin habit t l a (.reply s given)).calls ++ rest)
    rw [hx]
    exact (hk.flags.trans hl) ▸ .outside (.loose h)
  | @settle s s' given rest h =>
    have hholds : (l.thread t).holdsGuard = false := congrArg Prod.snd hl
    show Ordered ((Call.begin habit t l a (.settle s)).ledger.flags t)
      ((Call.begin habit t l a (.settle s)).calls ++ .reply s' given :: rest)
    obtain ⟨-, ⟨hf, hx⟩ | ⟨-, hf, c, d, hx⟩⟩ := begin_settle habit (a := a) ht s
    · rw [hx, hf, hl]
      exact .outside (.reply h)
    · rw [hx, hf, hholds]
      have hinner : Loose [.absorb c d] := loose_single rfl
      exact .inside hinner (.reply h)

theorem Ordered.step {x : Execution} (ht : t < x.ledger.threads.size) (h : Ordered (x.ledger.flags t) x.calls) :
    Ordered ((x.step habit t).ledger.flags t) (x.step habit t).calls := by
  obtain ⟨l, a, calls⟩ := x
  dsimp only at ht h
  generalize hl : l.flags t = flags at h
  cases h with
  | outside h => exact h.step habit ht hl
  | @inside inner outer hi ho =>
    have hn : l.inHook t = true := congrArg Prod.fst hl
    have hholds : (l.thread t).holdsGuard = false := congrArg Prod.snd hl
    cases inner with
    | nil =>
      show Ordered ((l.setInHook t false).flags t) outer
      rw [flags_leave, hholds]
      exact .outside ho
    | cons c inner =>
      rw [loose_cons] at hi
      obtain ⟨hcs, hf | ⟨hg, -⟩⟩ := begin_inside habit (a := a) ht hn hi.1
      · show Ordered ((c.begin habit t l a).ledger.flags t) ((c.begin habit t l a).calls ++ (inner ++ .unhook :: outer))
        rw [hf, hl, ← List.append_assoc]
        exact .inside (by simp [hcs, hi.2]) ho
      · rw [hholds] at hg
        cases hg
  | kept h =>
    have hn : l.inHook t = true := congrArg Prod.fst hl
    cases calls with
    | nil => exact hl ▸ .kept loose_nil
    | cons c rest =>
      rw [loose_cons] at h
      obtain ⟨hcs, hf | ⟨-, hf⟩⟩ := begin_inside habit (a := a) ht hn h.1
      · show Ordered ((c.begin habit t l a).ledger.flags t) ((c.begin habit t l a).calls ++ rest)
        rw [hf, hl]
        exact .kept (by simp [hcs, h.2])
      · show Ordered ((c.begin habit t l a).ledger.flags t) ((c.begin habit t l a).calls ++ rest)
        rw [hf]
        exact .outside (.loose (by simp [hcs, h.2]))

end HeapLedger
