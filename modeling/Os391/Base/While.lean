/-
Loops `while (cond) body`: the states their turns start in, the state after a number of turns, and the
rules for them, an invariant and a variant that bounds the number of turns.
-/
import Mathlib.Tactic

namespace While

section

variable {σ : Type} (cond : σ → Bool) (body : σ → σ)

/-- The states in which the first `n` turns start. -/
def states : Nat → σ → List σ
  | 0, _ => []
  | n + 1, s => if cond s then s :: states n (body s) else []

/-- The state after `n` turns, or earlier if the loop ends before. -/
def final : Nat → σ → σ
  | 0, s => s
  | n + 1, s => if cond s then final n (body s) else s

/-- The states in which the condition is tested in the first `n` turns, the one after them included. -/
def tested (n : Nat) (s : σ) : List σ := states cond body n s ++ [final cond body n s]

/-- The loop has ended after `n` turns. -/
def Ends (n : Nat) (s : σ) : Prop := cond (final cond body n s) = false

end

variable {σ : Type} {cond : σ → Bool} {body : σ → σ} {s : σ}

theorem final_of_false (h : cond s = false) : ∀ n, final cond body n s = s
  | 0 => rfl
  | n + 1 => by rw [final, h]; rfl

theorem states_of_false (h : cond s = false) : ∀ n, states cond body n s = []
  | 0 => rfl
  | n + 1 => by rw [states, h]; rfl

theorem final_succ (n : Nat) (h : cond s = true) : final cond body (n + 1) s = final cond body n (body s) := by
  rw [final, if_pos h]

theorem states_succ (n : Nat) (h : cond s = true) :
    states cond body (n + 1) s = s :: states cond body n (body s) := by
  rw [states, if_pos h]

/-- A loop that counts up ends at the first number for which its condition fails. -/
theorem final_count {cond : Nat → Bool} {e : Nat} (he : cond e = false) : ∀ {n i : Nat}, i ≤ e →
    (∀ j, i ≤ j → j < e → cond j = true) → e ≤ n + i → final cond (· + 1) n i = e
  | 0, i, hi, _, hn => by rw [final]; omega
  | n + 1, i, hi, hall, hn => by
    rcases Nat.lt_or_ge i e with hlt | hge
    · rw [final_succ n (hall i le_rfl hlt)]
      exact final_count he hlt (fun j hj => hall j (by omega)) (by omega)
    · obtain rfl : i = e := by omega
      exact final_of_false he _

/-- What every turn keeps holds after the loop. -/
theorem final_inv {I : σ → Prop} (hbody : ∀ s, I s → cond s = true → I (body s)) :
    ∀ (n : Nat) {s : σ}, I s → I (final cond body n s)
  | 0, _, h => h
  | n + 1, s, h => by
    rcases hc : cond s with _ | _
    · rwa [final_of_false hc]
    · rw [final_succ n hc]
      exact final_inv hbody n (hbody s h hc)

/-- A loop whose turns lower a number ends before that number of turns is used up. -/
theorem ends_of_variant {I : σ → Prop} {v : σ → Nat}
    (hbody : ∀ s, I s → cond s = true → I (body s) ∧ v (body s) < v s) :
    ∀ {n : Nat} {s : σ}, I s → v s < n → Ends cond body n s
  | 0, _, _, hn => absurd hn (Nat.not_lt_zero _)
  | n + 1, s, h, hn => by
    unfold Ends
    rcases hc : cond s with _ | _
    · rwa [final_of_false hc]
    · obtain ⟨h1, h2⟩ := hbody s h hc
      rw [final_succ n hc]
      exact ends_of_variant hbody h1 (by omega)

theorem final_succ_of_true : ∀ {n : Nat} {s : σ}, cond (final cond body n s) = true →
    final cond body (n + 1) s = body (final cond body n s)
  | 0, _, h => final_succ 0 h
  | n + 1, s, h => by
    rcases hc : cond s with _ | _
    · rw [final_of_false hc, hc] at h
      cases h
    · rw [final_succ _ hc, final_succ n hc]
      rw [final_succ n hc] at h
      exact final_succ_of_true h

/-- A loop that has ended stays where it is. -/
theorem final_of_ends : ∀ {n k : Nat} {s : σ}, Ends cond body n s → n ≤ k → final cond body k s = final cond body n s
  | 0, _, _, h, _ => final_of_false h _
  | n + 1, k, s, h, hk => by
    rcases hc : cond s with _ | _
    · rw [final_of_false hc, final_of_false hc]
    · obtain ⟨k, rfl⟩ : ∃ k', k = k' + 1 := ⟨k - 1, by omega⟩
      unfold Ends at h
      rw [final_succ n hc] at h ⊢
      rw [final_succ k hc]
      exact final_of_ends h (by omega)

theorem final_eq_of_ends {m n : Nat} (hm : Ends cond body m s) (hn : Ends cond body n s) :
    final cond body m s = final cond body n s := by
  rcases Nat.le_total m n with h | h
  · exact (final_of_ends hm h).symm
  · exact final_of_ends hn h

theorem mem_tested : ∀ {n : Nat} {s x : σ}, x ∈ tested cond body n s ↔ ∃ k ≤ n, x = final cond body k s
  | 0, s, x => by simp [tested, states, final]
  | n + 1, s, x => by
    rcases hc : cond s with _ | _
    · simp only [tested, states_of_false hc, final_of_false hc, List.nil_append, List.mem_singleton]
      exact ⟨fun h => ⟨0, Nat.zero_le _, h⟩, fun ⟨_, _, h⟩ => h⟩
    · have hrest : tested cond body (n + 1) s = s :: tested cond body n (body s) := by
        rw [tested, states_succ n hc, final_succ n hc]
        rfl
      rw [hrest, List.mem_cons, mem_tested]
      constructor
      · rintro (rfl | ⟨k, hk, rfl⟩)
        · exact ⟨0, Nat.zero_le _, rfl⟩
        · exact ⟨k + 1, Nat.succ_le_succ hk, (final_succ k hc).symm⟩
      · rintro ⟨k, hk, rfl⟩
        cases k with
        | zero => exact Or.inl rfl
        | succ k => exact Or.inr ⟨k, Nat.le_of_succ_le_succ hk, final_succ k hc⟩

end While
