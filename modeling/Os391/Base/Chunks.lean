/-
Texts of lines, and what becomes of the lines when a text is read in chunks: the lines that a reader sees who takes the
end of the first chunk that does not end with a line for the end of a line.
-/
import Mathlib.Data.List.DropRight
import Mathlib.Data.List.TakeWhile
import Mathlib.Tactic

namespace Chunks

variable {α β : Type} {nl : α} {text p : List α} {ls : List (List α)}

/-! ## Lines -/

/-- Lines, each with its end. -/
def unlines (nl : α) (ls : List (List α)) : List α := ls.flatMap (· ++ [nl])

theorem unlines_cons (nl : α) (l : List α) (ls : List (List α)) : unlines nl (l :: ls) = l ++ nl :: unlines nl ls := by
  simp [unlines]

theorem length_le_unlines (nl : α) : ∀ ls : List (List α), ls.length ≤ (unlines nl ls).length
  | [] => le_rfl
  | l :: ls => by
    have hls := length_le_unlines nl ls
    rw [unlines_cons, List.length_append, List.length_cons, List.length_cons]
    omega

variable [DecidableEq α]

theorem splitOn_unlines_append (text : List α) : ∀ {ls : List (List α)}, (∀ l ∈ ls, nl ∉ l) →
    (unlines nl ls ++ text).splitOn nl = ls ++ text.splitOn nl
  | [], _ => rfl
  | l :: ls, h => by
    rw [unlines_cons, List.append_assoc, List.cons_append,
      List.splitOn_append_cons_self_of_not_mem (h l List.mem_cons_self),
      splitOn_unlines_append text fun l' hl' => h l' (List.mem_cons_of_mem _ hl'), List.cons_append]

/-- A text is lines and what stands behind the last end of one. -/
theorem exists_unlines (nl : α) : ∀ text : List α,
    ∃ ls p, text = unlines nl ls ++ p ∧ (∀ l ∈ ls, nl ∉ l) ∧ nl ∉ p
  | [] => ⟨[], [], rfl, fun _ hl => absurd hl List.not_mem_nil, List.not_mem_nil⟩
  | a :: text => by
    obtain ⟨ls, p, htext, hls, hp⟩ := exists_unlines nl text
    by_cases ha : a = nl
    · refine ⟨[] :: ls, p, by rw [htext, ha, unlines_cons]; rfl, fun l hl => ?_, hp⟩
      rcases List.mem_cons.1 hl with rfl | hl
      · exact List.not_mem_nil
      · exact hls l hl
    · cases ls with
      | nil => exact ⟨[], a :: p, by rw [htext]; rfl, hls, by simpa [Ne.symm ha] using hp⟩
      | cons l ls =>
        refine ⟨(a :: l) :: ls, p, by rw [htext, unlines_cons, unlines_cons]; rfl, fun l' hl' => ?_, hp⟩
        rcases List.mem_cons.1 hl' with rfl | hl'
        · simpa [Ne.symm ha] using hls l List.mem_cons_self
        · exact hls l' (List.mem_cons_of_mem _ hl')

/-- What stands behind the last end of a line. -/
def behind (nl : α) (text : List α) : List α := text.rtakeWhile (· ≠ nl)

/-- What stands before the first end of a line. -/
def ahead (nl : α) (text : List α) : List α := text.takeWhile (· ≠ nl)

theorem behind_unlines (hp : nl ∉ p) : behind nl (unlines nl ls ++ p) = p := by
  have hall : ∀ a ∈ p.reverse, decide (a ≠ nl) = true := fun a ha =>
    decide_eq_true (ne_of_mem_of_not_mem (List.mem_reverse.1 ha) hp)
  unfold behind List.rtakeWhile
  rw [List.reverse_append, List.takeWhile_append_of_pos hall, List.reverse_append, List.reverse_reverse]
  rcases List.eq_nil_or_concat ls with rfl | ⟨ls', l, rfl⟩
  · rfl
  · simp [unlines, List.flatMap_append]

theorem ahead_append (nl : α) (text : List α) :
    ∃ rest, text = ahead nl text ++ rest ∧ (rest = [] ∨ ∃ rest', rest = nl :: rest') := by
  refine ⟨text.dropWhile (· ≠ nl), (List.takeWhile_append_dropWhile).symm, ?_⟩
  rcases hrest : text.dropWhile (· ≠ nl) with _ | ⟨a, rest⟩
  · exact Or.inl rfl
  · have hhead := List.head?_dropWhile_not (· ≠ nl) text
    rw [hrest] at hhead
    exact Or.inr ⟨rest, by simpa using hhead⟩

theorem not_mem_ahead (nl : α) (text : List α) : nl ∉ ahead nl text := fun hmem => by
  simpa using List.mem_takeWhile_imp hmem

/-- More text before the first line becomes a part of it. -/
theorem splitOn_ahead (text : List α) (hp : nl ∉ p) :
    ∃ ls, text.splitOn nl = ahead nl text :: ls ∧ (p ++ text).splitOn nl = (p ++ ahead nl text) :: ls := by
  obtain ⟨rest, htext, hrest⟩ := ahead_append nl text
  have hq := not_mem_ahead nl text
  have hpq : nl ∉ p ++ ahead nl text := fun h => (List.mem_append.1 h).elim hp hq
  rcases hrest with rfl | ⟨rest', rfl⟩
  · refine ⟨[], ?_, ?_⟩ <;> nth_rewrite 1 [htext] <;> rw [List.append_nil]
    · exact List.splitOn_eq_singleton hq
    · exact List.splitOn_eq_singleton hpq
  · refine ⟨rest'.splitOn nl, ?_, ?_⟩ <;> nth_rewrite 1 [htext]
    · exact List.splitOn_append_cons_self_of_not_mem hq _
    · rw [← List.append_assoc]
      exact List.splitOn_append_cons_self_of_not_mem hpq _

/-- A stretch without an end of a line lies within a line. -/
theorem exists_line (h : p <:+: text) (hp : nl ∉ p) : ∃ l ∈ text.splitOn nl, p <:+: l := by
  obtain ⟨a, b, rfl⟩ := h
  obtain ⟨ls, pa, rfl, hls, hpa⟩ := exists_unlines nl a
  have hline : nl ∉ pa ++ p := fun h => (List.mem_append.1 h).elim hpa hp
  obtain ⟨rest, -, hsplit⟩ := splitOn_ahead b hline
  refine ⟨pa ++ p ++ ahead nl b, ?_, pa, ahead nl b, rfl⟩
  rw [List.append_assoc, List.append_assoc, splitOn_unlines_append _ hls, ← List.append_assoc, hsplit]
  exact List.mem_append_right _ List.mem_cons_self

/-! ## Chunks -/

/-- The line that lies across the end of the first chunk of `n` that does not end with a line. -/
def cutLine (nl : α) (n : Nat) : Nat → List α → Option (List α)
  | 0, _ => none
  | k + 1, text =>
    let p := behind nl (text.take n)
    let q := ahead nl (text.drop n)
    if p = [] then cutLine nl n k (text.drop n) else if q = [] then none else some (p ++ q)

/-- The lines as they are seen when the end of that chunk is taken for the end of a line. -/
def seen (nl : α) (n : Nat) : Nat → List α → List (List α)
  | 0, text => text.splitOn nl
  | k + 1, text =>
    (text.take n).splitOn nl ++
      if behind nl (text.take n) = [] then seen nl n k (text.drop n) else (text.drop n).splitOn nl

/-- A chunk with what follows it: its lines, the part of a line at its end, and the rest of that line. -/
theorem splitOn_chunk (nl : α) (n : Nat) (text : List α) :
    ∃ ls, (text.take n).splitOn nl = ls ++ [behind nl (text.take n)] ∧
      text.splitOn nl = ls ++ (behind nl (text.take n) ++ text.drop n).splitOn nl ∧ nl ∉ behind nl (text.take n) := by
  obtain ⟨ls, p, htake, hls, hp⟩ := exists_unlines nl (text.take n)
  have hbehind : behind nl (text.take n) = p := htake ▸ behind_unlines hp
  rw [hbehind]
  refine ⟨ls, ?_, ?_, hp⟩
  · rw [htake, splitOn_unlines_append _ hls, List.splitOn_eq_singleton hp]
  · rw [← splitOn_unlines_append _ hls, ← List.append_assoc, ← htake, List.take_append_drop]

/-- The line across is one of the lines. -/
theorem mem_of_cutLine {n : Nat} {line : List α} : ∀ {k : Nat} {text : List α}, line ∈ cutLine nl n k text →
    line ∈ text.splitOn nl
  | 0, _, h => by cases h
  | k + 1, text, h => by
    obtain ⟨ls, -, hsplit, hp⟩ := splitOn_chunk nl n text
    rw [hsplit]
    refine List.mem_append_right _ ?_
    unfold cutLine at h
    dsimp only at h
    split_ifs at h with hp0 hq0
    · rw [hp0, List.nil_append]
      exact mem_of_cutLine h
    · cases h
    · obtain ⟨tl, -, hboth⟩ := splitOn_ahead (text.drop n) hp
      rw [hboth]
      exact List.mem_cons.2 (Or.inl (Option.some.inj h).symm)

/-- The lines that are seen are as good as the lines exactly when the line across is. -/
theorem seen_flatMap_iff {n : Nat} {f : List α → List β} {Q : List α → Prop} (hf : f [] = [])
    (hcut : ∀ p q, p ≠ [] → q ≠ [] → (f p ++ f q = f (p ++ q) ↔ Q (p ++ q))) :
    ∀ {k : Nat} {text : List α}, text.length ≤ n * k →
      ((seen nl n k text).flatMap f = (text.splitOn nl).flatMap f ↔ ∀ line ∈ cutLine nl n k text, Q line)
  | 0, _, _ => iff_of_true rfl fun _ h => by cases h
  | k + 1, text, hk => by
    obtain ⟨ls, htake, hsplit, hp⟩ := splitOn_chunk nl n text
    unfold seen cutLine
    simp only [htake, hsplit, List.flatMap_append, List.append_assoc, List.append_right_inj, List.flatMap_singleton]
    by_cases hp0 : behind nl (text.take n) = []
    · rw [if_pos hp0, if_pos hp0, hp0, hf, List.nil_append, List.nil_append]
      refine seen_flatMap_iff hf hcut ?_
      rw [List.length_drop]
      rw [Nat.mul_succ] at hk
      omega
    · obtain ⟨tl, hdrop, hboth⟩ := splitOn_ahead (text.drop n) hp
      rw [if_neg hp0, if_neg hp0, hdrop, hboth, List.flatMap_cons, List.flatMap_cons, ← List.append_assoc,
        List.append_left_inj]
      by_cases hq0 : ahead nl (text.drop n) = []
      · rw [if_pos hq0, hq0, hf, List.append_nil, List.append_nil]
        exact iff_of_true rfl fun _ h => by cases h
      · rw [if_neg hq0, hcut _ _ hp0 hq0]
        simp

end Chunks
