/-
A line in a fixed buffer: the buffer holds a list in its first places, a character is stored behind
it or over its last one, and an end mark delivers it.
-/
import Mathlib.Tactic

namespace Line

variable {α : Type} {n : Nat} {buf : Fin n → α} {l : List α}

/-- The buffer starts with the list. -/
def Holds (buf : Fin n → α) (l : List α) : Prop :=
  l.length ≤ n ∧ ∀ i : Fin n, ∀ b ∈ l[i.val]?, buf i = b

/-- A store to one place. -/
def store (i : Nat) (b : α) (buf : Fin n → α) : Fin n → α := fun j => if j.val = i then b else buf j

theorem Holds.nil : Holds buf [] := ⟨Nat.zero_le n, fun i b hb => by simp at hb⟩

/-- A buffer starts with one list of each length. -/
theorem Holds.unique {l' : List α} (h : Holds buf l) (h' : Holds buf l') (hlen : l.length = l'.length) : l = l' := by
  refine List.ext_getElem hlen fun i hi hi' => ?_
  have hn := lt_of_lt_of_le hi h.1
  have hl := h.2 ⟨i, hn⟩ l[i] (by simp [hi])
  have hl' := h'.2 ⟨i, hn⟩ l'[i] (by simp [hi'])
  exact hl.symm.trans hl'

/-- A character stored behind the list. -/
theorem Holds.push (h : Holds buf l) (b : α) (hl : l.length < n) : Holds (store l.length b buf) (l ++ [b]) := by
  refine ⟨by simp; omega, fun i c hc => ?_⟩
  unfold store
  by_cases hi : i.val = l.length
  · rw [if_pos hi]
    rw [hi] at hc
    simpa using hc
  · rw [if_neg hi]
    by_cases hlt : i.val < l.length
    · rw [List.getElem?_append_left hlt] at hc
      exact h.2 i c hc
    · rw [List.getElem?_append_right (by omega)] at hc
      have h1 : 1 ≤ i.val - l.length := by omega
      simp [List.getElem?_eq_none, h1] at hc

/-- The last character dropped, whatever is stored in its place. -/
theorem Holds.dropLast (h : Holds buf l) (b : α) : Holds (store (l.length - 1) b buf) l.dropLast := by
  refine ⟨by have := h.1; simp; omega, fun i c hc => ?_⟩
  have hlt : i.val < l.length - 1 := by
    have hi := (List.getElem?_eq_some_iff.1 hc).1
    simpa using hi
  unfold store
  rw [if_neg (by omega)]
  apply h.2 i c
  rw [List.getElem?_dropLast, if_pos hlt] at hc
  exact hc

/-- With an end mark behind it, the list is what stands before the first mark. -/
theorem Holds.delivered [DecidableEq α] (h : Holds buf l) (b : α) (hl : l.length < n) (hb : b ∉ l) :
    (List.ofFn (store l.length b buf)).takeWhile (· ≠ b) = l := by
  have hpush := h.push b hl
  have hsplit : List.ofFn (store l.length b buf) =
      (l ++ [b]) ++ (List.ofFn (store l.length b buf)).drop (l.length + 1) := by
    apply List.ext_getElem?
    intro i
    by_cases hi : i < n
    · have hget : (List.ofFn (store l.length b buf))[i]? = some (store l.length b buf ⟨i, hi⟩) := by
        simp [hi]
      by_cases hle : i < (l ++ [b]).length
      · have hc : (l ++ [b])[i]? = some ((l ++ [b])[i]) := List.getElem?_eq_getElem hle
        rw [hget, hpush.2 ⟨i, hi⟩ _ hc, ← hc, List.getElem?_append_left hle]
      · have hle' : (l ++ [b]).length ≤ i := by omega
        rw [List.getElem?_append_right hle', List.getElem?_drop]
        congr 1
        simp only [List.length_append, List.length_singleton] at hle' ⊢
        omega
    · rw [List.getElem?_eq_none (by simpa using hi), List.getElem?_eq_none]
      simp
      omega
  rw [hsplit, List.append_assoc, List.singleton_append, List.takeWhile_append_of_pos, List.takeWhile_cons_of_neg]
  · simp
  · simp
  · intro a ha
    have hne : a ≠ b := by rintro rfl; exact hb ha
    simpa using hne

end Line
