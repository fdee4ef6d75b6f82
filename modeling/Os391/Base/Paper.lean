/-
Typing on paper: rows without end, and a place where the next character goes. What a text leaves on the paper is
said by its lines. A window of some height follows the place, and moves no further than it has to.
-/
import Mathlib.Tactic

/-- Rows of cells, and the place of the next character. -/
structure Paper (α : Type) where
  rows : Nat → Nat → α
  row : Nat
  col : Nat

namespace Paper

variable {α : Type} [DecidableEq α] (nl : α)

/-- One character typed: a line break goes to the start of the next row. -/
def type (p : Paper α) (a : α) : Paper α :=
  if a = nl then { p with row := p.row + 1, col := 0 }
  else { p with rows := fun r j => if r = p.row ∧ j = p.col then a else p.rows r j, col := p.col + 1 }

/-- A text typed. -/
def write (p : Paper α) (text : List α) : Paper α := text.foldl (type nl) p

/-! ## Lines -/

/-- The character of some lines at a cell, when the first line starts at `row` and `col` and each other one at the
start of the next row. -/
def placed (row col : Nat) : List (List α) → Nat → Nat → Option α
  | [], _, _ => none
  | l :: ls, r, j =>
    if r = row then if j < col then none else l[j - col]?
    else placed (row + 1) 0 ls r j

/-- The column after the last of some lines. -/
def endCol (col : Nat) : List (List α) → Nat
  | [] => col
  | [l] => col + l.length
  | _ :: l :: ls => endCol 0 (l :: ls)

/-- Every line ends at column `w` or before. -/
def Fits (w col : Nat) : List (List α) → Prop
  | [] => True
  | l :: ls => col + l.length ≤ w ∧ Fits w 0 ls

omit [DecidableEq α] in
/-- Whether lines fit can be computed. -/
instance decidableFits (w : Nat) : ∀ (col : Nat) (lines : List (List α)), Decidable (Fits w col lines)
  | _, [] => isTrue trivial
  | col, l :: ls =>
    have := decidableFits w 0 ls
    inferInstanceAs (Decidable (col + l.length ≤ w ∧ Fits w 0 ls))

omit [DecidableEq α] in
theorem placed_above {row col r j : Nat} (h : r < row) : ∀ ls : List (List α), placed row col ls r j = none
  | [] => rfl
  | l :: ls => by
    rw [placed, if_neg (by omega)]
    exact placed_above (by omega) ls

variable {nl}

theorem splitOn_break (text : List α) : (nl :: text).splitOn nl = [] :: text.splitOn nl := by
  rw [List.splitOn_cons_eq_if_modifyHead, if_pos (by simp)]

/-- A character other than the line break starts the first line. -/
theorem splitOn_char {a : α} (h : a ≠ nl) (text : List α) :
    ∃ l ls, text.splitOn nl = l :: ls ∧ (a :: text).splitOn nl = (a :: l) :: ls := by
  obtain ⟨l, ls, hl⟩ := List.exists_cons_of_ne_nil (List.splitOn_ne_nil nl text)
  refine ⟨l, ls, hl, ?_⟩
  rw [List.splitOn_cons_eq_if_modifyHead, if_neg (by simpa using h), hl]
  rfl

/-- The lines of a text hold no line break, and none is longer than the text. -/
theorem splitOn_lines (nl : α) : ∀ text : List α,
    (text.splitOn nl).length ≤ text.length + 1 ∧ ∀ l ∈ text.splitOn nl, nl ∉ l ∧ l.length ≤ text.length
  | [] => by simp
  | a :: text => by
    obtain ⟨hlen, hlines⟩ := splitOn_lines nl text
    by_cases ha : a = nl
    · subst ha
      rw [splitOn_break]
      refine ⟨by simpa using hlen, fun l hl => ?_⟩
      rcases List.mem_cons.1 hl with rfl | hl
      · simp
      · exact ⟨(hlines l hl).1, (hlines l hl).2.trans (by simp)⟩
    · obtain ⟨l, ls, hl, hal⟩ := splitOn_char ha text
      rw [hl] at hlen hlines
      rw [hal]
      refine ⟨by simpa using hlen.trans (Nat.le_succ _), fun l' hl' => ?_⟩
      rcases List.mem_cons.1 hl' with rfl | hl'
      · obtain ⟨hnl, hle⟩ := hlines l List.mem_cons_self
        exact ⟨by simp [Ne.symm ha, hnl], by simpa using hle⟩
      · obtain ⟨hnl, hle⟩ := hlines l' (List.mem_cons_of_mem _ hl')
        exact ⟨hnl, hle.trans (by simp)⟩

@[simp] theorem type_break (p : Paper α) : type nl p nl = { p with row := p.row + 1, col := 0 } := if_pos rfl

theorem type_char {a : α} (h : a ≠ nl) (p : Paper α) :
    type nl p a = { p with rows := fun r j => if r = p.row ∧ j = p.col then a else p.rows r j, col := p.col + 1 } :=
  if_neg h

/-- The paper after a text: its lines where they were placed, and every other cell as before. -/
theorem write_rows : ∀ (text : List α) (p : Paper α) (r j : Nat),
    (write nl p text).rows r j = (placed p.row p.col (text.splitOn nl) r j).getD (p.rows r j)
  | [], p, r, j => by
    rw [List.splitOn_nil, placed, placed]
    split
    · split <;> simp [write]
    · rfl
  | a :: text, p, r, j => by
    have hstep : (write nl p (a :: text)).rows r j = (write nl (type nl p a) text).rows r j := rfl
    rw [hstep, write_rows text]
    by_cases ha : a = nl
    · subst ha
      rw [splitOn_break, type_break, placed]
      split
      · rename_i hr
        rw [placed_above (by simp only; omega)]
        split <;> simp
      · rfl
    · obtain ⟨l, ls, hl, hal⟩ := splitOn_char ha text
      rw [hl, hal, type_char ha, placed, placed]
      simp only
      by_cases hr : r = p.row
      · subst hr
        simp only [if_true, true_and]
        by_cases hlt : j < p.col
        · rw [if_pos hlt, if_pos (by omega), if_neg (by omega)]
        by_cases hj : j = p.col
        · rw [if_neg hlt, if_pos (by omega), if_pos hj, hj, Nat.sub_self]
          rfl
        · rw [if_neg hlt, if_neg (by omega), if_neg hj, show j - p.col = j - (p.col + 1) + 1 by omega,
            List.getElem?_cons_succ]
      · rw [if_neg hr, if_neg hr, if_neg (by simp [hr])]

theorem write_row : ∀ (text : List α) (p : Paper α), (write nl p text).row = p.row + text.count nl
  | [], _ => rfl
  | a :: text, p => by
    have hstep : (write nl p (a :: text)).row = (write nl (type nl p a) text).row := rfl
    rw [hstep, write_row text, List.count_cons]
    by_cases ha : a = nl
    · subst ha
      simp [Nat.add_assoc, Nat.add_comm 1]
    · simp [type_char ha, ha]

theorem write_col : ∀ (text : List α) (p : Paper α), (write nl p text).col = endCol p.col (text.splitOn nl)
  | [], p => by
    simp [write, endCol]
  | a :: text, p => by
    have hstep : (write nl p (a :: text)).col = (write nl (type nl p a) text).col := rfl
    rw [hstep, write_col text]
    by_cases ha : a = nl
    · subst ha
      obtain ⟨l, ls, hl⟩ := List.exists_cons_of_ne_nil (List.splitOn_ne_nil a text)
      rw [splitOn_break, type_break, hl]
      rfl
    · obtain ⟨l, ls, hl, hal⟩ := splitOn_char ha text
      rw [hl, hal, type_char ha]
      cases ls with
      | nil => simp [endCol, Nat.add_comm 1, Nat.add_assoc]
      | cons l' ls => rfl

theorem fits_break {w col : Nat} {text : List α} :
    Fits w col ((nl :: text).splitOn nl) ↔ col ≤ w ∧ Fits w 0 (text.splitOn nl) := by
  rw [splitOn_break, Fits, List.length_nil, Nat.add_zero]

theorem fits_char {w col : Nat} {a : α} {text : List α} (h : a ≠ nl) :
    Fits w col ((a :: text).splitOn nl) ↔ Fits w (col + 1) (text.splitOn nl) := by
  obtain ⟨l, ls, hl, hal⟩ := splitOn_char h text
  rw [hl, hal, Fits, Fits, List.length_cons, Nat.add_assoc, Nat.add_comm 1]

theorem fits_col {w col : Nat} {text : List α} (h : Fits w col (text.splitOn nl)) : col ≤ w := by
  obtain ⟨l, ls, hl⟩ := List.exists_cons_of_ne_nil (List.splitOn_ne_nil nl text)
  rw [hl, Fits] at h
  omega

/-- What fits in pieces: the first one, and the others from where it ends. -/
theorem fits_append {w : Nat} : ∀ {text rest : List α} {p : Paper α}, Fits w p.col ((text ++ rest).splitOn nl) →
    Fits w p.col (text.splitOn nl) ∧ Fits w (write nl p text).col (rest.splitOn nl)
  | [], _, p, h => ⟨by simpa [Fits] using fits_col h, h⟩
  | a :: text, rest, p, h => by
    have hstep : write nl p (a :: text) = write nl (type nl p a) text := rfl
    rw [List.cons_append] at h
    rw [hstep]
    by_cases ha : a = nl
    · rw [ha, fits_break] at h
      obtain ⟨htext, hrest⟩ := fits_append (p := type nl p a) (by rw [ha, type_break]; exact h.2)
      rw [ha, type_break] at htext
      rw [ha] at hrest ⊢
      exact ⟨fits_break.2 ⟨h.1, htext⟩, hrest⟩
    · rw [fits_char ha] at h
      obtain ⟨htext, hrest⟩ := fits_append (p := type nl p a) (by rw [type_char ha]; exact h)
      rw [type_char ha] at htext
      exact ⟨(fits_char ha).2 htext, hrest⟩

theorem write_append (p : Paper α) (text rest : List α) : write nl p (text ++ rest) = write nl (write nl p text) rest :=
  List.foldl_append

/-- Characters other than the line break stay in the row. -/
theorem write_chars : ∀ {text : List α} {p : Paper α}, nl ∉ text →
    (write nl p text).row = p.row ∧ (write nl p text).col = p.col + text.length
  | [], _, _ => ⟨rfl, rfl⟩
  | a :: text, p, h => by
    obtain ⟨ha, htext⟩ := not_or.1 (fun hor => h (List.mem_cons.2 hor))
    have hstep : write nl p (a :: text) = write nl (type nl p a) text := rfl
    obtain ⟨hrow, hcol⟩ := write_chars (p := type nl p a) htext
    rw [hstep, hrow, hcol, type_char (Ne.symm ha), List.length_cons]
    exact ⟨rfl, by simp only; omega⟩

/-! ## Taking back -/

/-- From the place of the next character on the paper is blank, up to column `w`. -/
def Fresh (w : Nat) (blank : α) (p : Paper α) : Prop :=
  ∀ r j, j < w → p.row < r ∨ (r = p.row ∧ p.col ≤ j) → p.rows r j = blank

/-- The last character of the row taken back. -/
def erase (blank : α) (p : Paper α) : Paper α :=
  { p with rows := fun r j => if r = p.row ∧ j = p.col - 1 then blank else p.rows r j, col := p.col - 1 }

theorem Fresh.type {w : Nat} {blank : α} {p : Paper α} (h : Fresh w blank p) (a : α) : Fresh w blank (type nl p a) := by
  intro r j hj hrj
  by_cases ha : a = nl
  · rw [ha, type_break] at hrj ⊢
    exact h r j hj (Or.inl (by simp only at hrj; omega))
  · rw [type_char ha] at hrj ⊢
    simp only at hrj ⊢
    rw [if_neg (by omega)]
    exact h r j hj (by omega)

theorem Fresh.write {w : Nat} {blank : α} : ∀ {text : List α} {p : Paper α}, Fresh w blank p →
    Fresh w blank (write nl p text)
  | [], _, h => h
  | a :: _, _, h => (h.type a).write

/-- What was typed last taken back. -/
theorem erase_type {w : Nat} {blank : α} {p : Paper α} (h : Fresh w blank p) (hcol : p.col < w) {a : α} (ha : a ≠ nl) :
    erase blank (type nl p a) = p := by
  rw [type_char ha, erase]
  simp only [Nat.add_sub_cancel]
  congr 1
  funext r j
  by_cases hrj : r = p.row ∧ j = p.col
  · rw [if_pos hrj]
    exact (h r j (hrj.2 ▸ hcol) (Or.inr ⟨hrj.1, hrj.2.ge⟩)).symm
  · rw [if_neg hrj, if_neg hrj]

/-! ## The window -/

/-- The top row of a window of height `h` once it shows `row`. -/
def follow (h top row : Nat) : Nat := max top (row + 1 - h)

/-- The top row of a window that shows the place of each character of a text when it is typed. -/
def followText (nl : α) (h : Nat) : Nat → Paper α → List α → Nat
  | top, _, [] => top
  | top, p, a :: text => followText nl h (follow h top p.row) (type nl p a) text

theorem followText_append (h : Nat) : ∀ (text rest : List α) (top : Nat) (p : Paper α),
    followText nl h top p (text ++ rest) = followText nl h (followText nl h top p text) (write nl p text) rest
  | [], _, _, _ => rfl
  | a :: text, rest, top, p => followText_append h text rest (follow h top p.row) (type nl p a)

/-- A line typed in a row that is shown, with its line break, moves no window. -/
theorem followText_line {h top : Nat} : ∀ {line : List α} {p : Paper α}, nl ∉ line → p.row + 1 - h ≤ top →
    followText nl h top p (line ++ [nl]) = top
  | [], p, _, hle => max_eq_left hle
  | a :: line, p, hnl, hle => by
    obtain ⟨ha, hline⟩ := not_or.1 (fun hor => hnl (List.mem_cons.2 hor))
    have hfollow : follow h top p.row = top := max_eq_left hle
    rw [List.cons_append, followText, hfollow]
    exact followText_line hline (by rw [type_char (Ne.symm ha)]; exact hle)

/-- The window shows the place of the last character. -/
theorem followText_eq (h : Nat) : ∀ (text : List α) (top : Nat) (p : Paper α), text ≠ [] →
    followText nl h top p text = max top (p.row + text.dropLast.count nl + 1 - h)
  | [], _, _, hne => absurd rfl hne
  | [a], _, _, _ => rfl
  | a :: b :: text, top, p, _ => by
    have hrow : (type nl p a).row = p.row + [a].count nl := write_row [a] p
    rw [followText, followText_eq h (b :: text) _ _ (List.cons_ne_nil _ _), hrow, follow]
    have hcount : (a :: b :: text).dropLast.count nl = [a].count nl + (b :: text).dropLast.count nl := by
      rw [List.dropLast_cons_cons, ← List.singleton_append, List.count_append]
    rw [hcount]
    omega

end Paper
