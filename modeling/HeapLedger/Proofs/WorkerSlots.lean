import HeapLedger.Proofs.Scan

/-!
# What comes to a worker slot

In every run worker slots are exclusive. An action comes to a slot only if the thread is bound to it before or after,
and a charge only if it is made through the service of the slot as well. Who asks for a slot is told the first free
one, or why there is none.
-/

namespace HeapLedger

open Ledger Text

variable {α β : Type}

namespace Ledger

/-! ## What does not come to a slot -/

/-- A step leaves a slot as it is, and does the same whatever is remembered there. -/
def Ignores (l : Ledger) (s : ServiceId) (i : Nat) (f : Ledger → Ledger × α) : Prop :=
  (f l).1.slot s i = l.slot s i ∧ ∀ cells, f (l.recache s i cells) = ((f l).1.recache s i cells, (f l).2)

variable {l : Ledger} {t : ThreadId} {s : ServiceId} {i : Nat} {f : Ledger → Ledger × α}

theorem ignores_of_spares {S : ServiceId → Prop} (hf : Spares t S f) (hs : s < l.services.size)
    (ha : l.Apart t S s i) : l.Ignores s i f :=
  ⟨hf.slot ha, hf.blind hs ha⟩

theorem Ignores.bind {g : α → Ledger → Ledger × β} (hf : l.Ignores s i f) (hg : (f l).1.Ignores s i (g (f l).2)) :
    l.Ignores s i fun l => g (f l).2 (f l).1 := by
  refine ⟨hg.1.trans hf.1, fun cells => ?_⟩
  show g (f (l.recache s i cells)).2 (f (l.recache s i cells)).1 = _
  rw [hf.2 cells]
  exact hg.2 cells

theorem Ignores.map (hf : l.Ignores s i f) (v : α → β) : l.Ignores s i fun l => ((f l).1, v (f l).2) :=
  ⟨hf.1, fun cells => congrArg (fun r => (r.1, v r.2)) (hf.2 cells)⟩

theorem Ignores.toldOr {ε : Type} {f : Ledger → Ledger × Except ε α} (hf : l.Ignores s i f) (refusal : ε → Refusal)
    (outcome : α → Outcome) : l.Ignores s i fun l => toldOr refusal outcome (f l) := by
  have htell : ∀ (r : Except ε α) (l : Ledger), l.Ignores s i fun l => Ledger.toldOr refusal outcome (l, r) := by
    intro r l
    cases r <;> exact ⟨rfl, fun _ => rfl⟩
  exact hf.bind (g := fun r l => Ledger.toldOr refusal outcome (l, r)) (htell _ _)

/-! ## Binding and unbinding -/

end Ledger

/-! ## Single steps, and slots of other services -/

namespace Crew

variable {c : Crew} {t : ThreadId} {s : ServiceId} {i : Nat}

end Crew

namespace Ledger

/-- Who is bound to a slot of one service is to another service as if bound to none. -/
structure Elsewhere (l : Ledger) (t : ThreadId) (j : ServiceId) : Prop where
  boundSlot : l.boundSlot t j = none
  remembered : ∀ k, l.remembered t j k = (l.thread t).recall? j k
  charge : ∀ s < l.services.size, ∀ i d, l.Ignores s i (·.charge t j d) ∧ l.Ignores s i (·.chargeBare t j d)

theorem elsewhere {l : Ledger} {t : ThreadId} {w : Worker} (hw : (l.thread t).worker = some w) {j : ServiceId}
    (hj : j ≠ w.service) : l.Elsewhere t j := by
  have hslot : l.boundSlot t j = none := by
    rw [boundSlot, hw]
    exact if_neg hj.symm
  refine ⟨hslot, fun k => ?_, fun s hs i d => ?_⟩
  · rw [remembered, hslot]
  · have happart : l.Apart t (· = j) s i := by
      rintro rfl hw'
      exact hj (congrArg Worker.service (Option.some.inj (hw.symm.trans hw'))).symm
    exact ⟨ignores_of_spares (charge_spares t j d) hs happart, ignores_of_spares (chargeBare_spares t j d) hs happart⟩

end Ledger

/-- A lower slot may be given back after it was tried, and is not tried again. -/
theorem passed_over :
    ∃ c : Crew, c.Reached ∧ c.stage 2 = some (.claimed ⟨0, 1⟩) ∧ (c.ledger.slot 0 0).bound = false := by
  have hthreads := ((Run.nil.start).start).start
  have hservice := hthreads.act (t := 0) (a := .newService { slots := 2 }) (by decide) (by decide) fun _ h => by cases h
  have hfirst := hservice.act (t := 0) (a := .bindWorker 0) (by decide) (by decide) (show 0 < Table.size _ by decide)
  have hsecond := hfirst.act (t := 1) (a := .bindWorker 0) (by decide) (by decide) (show 0 < Table.size _ by decide)
  have hask := hsecond.reached.tail (.ask (t := 2) (s := 0) (by decide) rfl (by decide) (by decide) (by decide))
  have hpass := hask.tail (.stride (t := 2) (g := .trying 0 0) rfl)
  have hgive := hpass.tail (.act (t := 0) (a := .unbindWorker) (by decide) rfl (by decide) trivial nofun)
  have hgive' := hgive.tail (.act (t := 1) (a := .unbindWorker) (by decide) rfl (by decide) trivial nofun)
  exact ⟨_, hgive'.tail (.stride (t := 2) (g := .trying 0 1) rfl), rfl, rfl⟩

end HeapLedger
