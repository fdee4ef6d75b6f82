/-
Machines that answer each input: what they answer along a run, and the rule for two of them that are kept related by
every step.
-/
import Mathlib.Tactic

namespace Simulation

variable {σ τ ι ρ : Type}

/-- The state after some inputs. -/
def final (step : σ → ι → ρ × σ) : σ → List ι → σ
  | s, [] => s
  | s, i :: is => final step (step s i).2 is

/-- The answers to them. -/
def answers (step : σ → ι → ρ × σ) : σ → List ι → List ρ
  | _, [] => []
  | s, i :: is => (step s i).1 :: answers step (step s i).2 is

variable {step : σ → ι → ρ × σ} {step' : τ → ι → ρ × τ} {R : σ → τ → Prop} {P : ι → Prop} {I : σ → Prop}

/-- What every step keeps holds after a run. -/
theorem final_inv (hstep : ∀ s i, I s → P i → I (step s i).2) :
    ∀ {is : List ι} {s : σ}, I s → (∀ i ∈ is, P i) → I (final step s is)
  | [], _, hs, _ => hs
  | i :: is, s, hs, hp => by
    rw [final]
    exact final_inv hstep (hstep s i hs (hp i List.mem_cons_self)) fun j hj => hp j (List.mem_cons_of_mem _ hj)

/-- Machines whose steps answer alike and stay related do so along whole runs. -/
theorem refines (hstep : ∀ s t i, R s t → P i → (step s i).1 = (step' t i).1 ∧ R (step s i).2 (step' t i).2) :
    ∀ {is : List ι} {s : σ} {t : τ}, R s t → (∀ i ∈ is, P i) →
      answers step s is = answers step' t is ∧ R (final step s is) (final step' t is)
  | [], _, _, hs, _ => ⟨rfl, hs⟩
  | i :: is, s, t, hs, hp => by
    obtain ⟨hans, hrel⟩ := hstep s t i hs (hp i List.mem_cons_self)
    obtain ⟨hrest, hend⟩ := refines hstep hrel fun j hj => hp j (List.mem_cons_of_mem _ hj)
    exact ⟨congrArg₂ List.cons hans hrest, hend⟩

end Simulation
