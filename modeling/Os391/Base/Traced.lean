/-
Folds whose turns access something: the list of all accesses, and the rules that bound them
together with an invariant of the state.
-/
import Mathlib.Tactic

namespace Traced

variable {σ ι α : Type} {f : σ → ι → σ} {g : σ → ι → List α} {ok : α → Prop}

/-- What the turns of a fold access, one turn after the other. -/
def trace (f : σ → ι → σ) (g : σ → ι → List α) : σ → List ι → List α
  | _, [] => []
  | s, i :: is => g s i ++ trace f g (f s i) is

theorem trace_append : ∀ (is js : List ι) (s : σ),
    trace f g s (is ++ js) = trace f g s is ++ trace f g (is.foldl f s) js
  | [], _, _ => rfl
  | i :: is, js, s => by
    rw [List.cons_append, trace, trace, trace_append is js, List.append_assoc]
    rfl

/-- What every turn keeps holds after the fold, and what it guarantees of its accesses holds of all. -/
theorem trace_inv {I : σ → Prop} : ∀ {is : List ι} {s : σ},
    (∀ i ∈ is, ∀ s, I s → (∀ p ∈ g s i, ok p) ∧ I (f s i)) → I s →
      (∀ p ∈ trace f g s is, ok p) ∧ I (is.foldl f s)
  | [], s, _, hs => ⟨fun _ hp => absurd hp List.not_mem_nil, hs⟩
  | i :: is, s, h, hs => by
    obtain ⟨hok, hi⟩ := h i List.mem_cons_self s hs
    obtain ⟨hoks, his⟩ := trace_inv (fun j hj => h j (List.mem_cons_of_mem _ hj)) hi
    exact ⟨List.forall_mem_append.2 ⟨hok, hoks⟩, his⟩

/-- The same for a counting loop, with an invariant that depends on the count. -/
theorem trace_range {f : σ → Nat → σ} {g : σ → Nat → List α} {I : Nat → σ → Prop} {s : σ} (hs : I 0 s) :
    ∀ {n : Nat}, (∀ i < n, ∀ s, I i s → (∀ p ∈ g s i, ok p) ∧ I (i + 1) (f s i)) →
      (∀ p ∈ trace f g s (List.range n), ok p) ∧ I n ((List.range n).foldl f s)
  | 0, _ => ⟨fun _ hp => absurd hp List.not_mem_nil, hs⟩
  | n + 1, h => by
    obtain ⟨hok, hn⟩ := trace_range hs fun i hi => h i (Nat.lt_succ_of_lt hi)
    obtain ⟨hlast, hn'⟩ := h n (Nat.lt_succ_self n) _ hn
    rw [List.range_succ, trace_append, List.foldl_append]
    have hlast' : ∀ p ∈ trace f g ((List.range n).foldl f s) [n], ok p := by
      rw [trace, trace, List.append_nil]
      exact hlast
    exact ⟨List.forall_mem_append.2 ⟨hok, hlast'⟩, hn'⟩

/-- The invariant of a counting loop, accesses apart. -/
theorem foldl_range {f : σ → Nat → σ} {I : Nat → σ → Prop} {s : σ} (hs : I 0 s) :
    ∀ {n : Nat}, (∀ i < n, ∀ s, I i s → I (i + 1) (f s i)) → I n ((List.range n).foldl f s) := by
  intro n h
  exact (@trace_range σ Nat (fun _ => True) f (fun _ _ => []) I s hs n fun i hi s hI =>
    ⟨fun _ _ => trivial, h i hi s hI⟩).2

end Traced
