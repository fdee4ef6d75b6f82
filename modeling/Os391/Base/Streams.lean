/-
Several streams read in pieces. Each request names a stream and how many elements it wants; requests
on different streams come in any order, and what one stream gives does not depend on the others.
-/
import Mathlib.Tactic

namespace Streams

variable {κ α : Type} [DecidableEq κ]

/-- How much a list of requests wants of one stream. -/
def asked (k : κ) : List (κ × Nat) → Nat
  | [] => 0
  | q :: qs => (if q.1 = k then q.2 else 0) + asked k qs

/-- What a list of requests is served, when `rest` is what each stream still holds. -/
def serve (rest : κ → List α) : List (κ × Nat) → List (List α)
  | [] => []
  | q :: qs => (rest q.1).take q.2 :: serve (Function.update rest q.1 ((rest q.1).drop q.2)) qs

/-- The pieces served from one stream, put together. -/
def collected (k : κ) : List (κ × Nat) → List (List α) → List α
  | q :: qs, p :: ps => (if q.1 = k then p else []) ++ collected k qs ps
  | _, _ => []

/-- What is left of a stream after some requests. -/
def left (rest : κ → List α) (qs : List (κ × Nat)) (k : κ) : List α := (rest k).drop (asked k qs)

theorem serve_length : ∀ (qs : List (κ × Nat)) (rest : κ → List α), (serve rest qs).length = qs.length
  | [], _ => rfl
  | _ :: qs, _ => congrArg (· + 1) (serve_length qs _)

theorem left_cons (rest : κ → List α) (q : κ × Nat) (qs : List (κ × Nat)) :
    left rest (q :: qs) = left (Function.update rest q.1 ((rest q.1).drop q.2)) qs := by
  funext k
  unfold left
  by_cases h : q.1 = k
  · subst h
    rw [asked, if_pos rfl, Function.update_self, List.drop_drop]
  · rw [asked, if_neg h, Nat.zero_add, Function.update_of_ne (Ne.symm h)]

/-- Together the pieces of a stream are its first elements, as many as were asked for. -/
theorem collected_serve (k : κ) : ∀ (qs : List (κ × Nat)) (rest : κ → List α),
    collected k qs (serve rest qs) = (rest k).take (asked k qs)
  | [], _ => rfl
  | q :: qs, rest => by
    rw [serve, collected, collected_serve k qs, asked]
    by_cases h : q.1 = k
    · subst h
      rw [if_pos rfl, if_pos rfl, Function.update_self, List.take_add]
    · rw [if_neg h, if_neg h, Function.update_of_ne (Ne.symm h), List.nil_append, Nat.zero_add]

/-- Request `i` gets the next elements of its stream. -/
theorem serve_getElem? : ∀ {qs : List (κ × Nat)} (rest : κ → List α) {i : Nat} {q : κ × Nat}, qs[i]? = some q →
    (serve rest qs)[i]? = some ((left rest (qs.take i) q.1).take q.2)
  | p :: qs, rest, 0, q, h => by
    obtain rfl : p = q := by simpa using h
    simp [serve, left, asked]
  | p :: qs, rest, i + 1, q, h => by
    rw [List.getElem?_cons_succ] at h
    rw [serve, List.getElem?_cons_succ, serve_getElem? _ h, List.take_succ_cons, left_cons]

end Streams
