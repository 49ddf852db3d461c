import HeapLedger.Proofs.ChargeResults
import HeapLedger.Proofs.Story

/-!
# What a charge does

The results of a charge at every moment of every run, also in the middle of what is being done, when trackers charge.
-/

namespace HeapLedger

open Ledger

/-- At every moment of every run. A charge answers with its decision. Unless it was made inside the hook, the
context of the active task was looked for first, if there is such a task. After that a charge that is skipped
is counted and does nothing else; one that parks ends with a context for the thread, which took in what was held
together with the amount; and any other is taken in by the one context that the decision is about. -/
theorem charge_effect {h : Holdings} {l₀ l : Ledger} (hr : Run h l₀) (hp : Passes l₀ l) {t : ThreadId} {s : ServiceId}
    (ht : t < l.threads.size) (hs : s < l.services.size) (d : Delta) :
    (l.charge t s d).2 = l.decision t s ∧
      ∃ l₁, Sought l t s l₁ ∧ Results l t s d l₁ (l.charge t s d).1 (l.decision t s) := by
  have htold := hp.told hr.told
  exact charge_results ⟨htold.sound, htold.carries, ht⟩ hs d

/-- Inside a scope the task is charged, and once the thread is inside the hook nothing is. -/
theorem charge_effect_entered :
    ((entered.charge 0 0 5).2 = .task ⟨1⟩ ∧ ∃ l₁ c, Sought entered 0 0 l₁ ∧ entered.recipient 0 0 = some c ∧
      Receives l₁ c 5 (entered.charge 0 0 5).1) ∧
    (((entered.setInHook 0 true).charge 0 0 5).2 = .skipped .reentrant ∧
      Idle (fun j => if 0 = j then 1 else 0) (entered.setInHook 0 true)
        ((entered.setInHook 0 true).charge 0 0 5).1) := by
  have hpasses : Passes entered (entered.setInHook 0 true) := .single ⟨0, [], [], .tending (.charging (.hook true))⟩
  obtain ⟨htask, l₁, hsought, c, hc, hreceives, -⟩ :=
    charge_effect run_entered .refl (t := 0) (s := 0) (by decide) (by decide) 5
  obtain ⟨hskipped, -, rfl, hidle, -⟩ :=
    charge_effect run_entered hpasses (t := 0) (s := 0) (by decide) (by decide) 5
  exact ⟨⟨htask, l₁, c, hsought, hc, hreceives⟩, hskipped, hidle⟩

end HeapLedger
