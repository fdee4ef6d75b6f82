/-
What a text leaves on the screen: the characters displayed after `putc`, after a scroll and after `write_helper`.
-/
import Os391.Base.Paper
import Os391.Lib.Cells

namespace Os391

open Bytes Traced

namespace Console

/-! ## putc -/

@[simp] theorem setCursor_getChar (c : Console) (x y i j : Int) : (c.setCursor x y).getChar i j = c.getChar i j := rfl

theorem cell_inj {x y x' y' : Int} (hx0 : 0 ≤ x) (hx : x < numCols) (hx0' : 0 ≤ x') (hx' : x' < numCols) :
    cell x y = cell x' y' ↔ x = x' ∧ y = y' := by
  unfold cell numCols at *
  omega

/-- A character that is no line break is displayed at the cursor, which moves on in its row. -/
theorem putc_print {c : Console} {ch : UInt8} (h : c.InScreen) (hch : ¬ (ch = 10 ∨ ch = 13)) :
    (c.putc ch).screenX = (c.screenX + 1) % 80 ∧ (c.putc ch).screenY = c.screenY ∧
      ∀ x y, 0 ≤ x → x < numCols →
        (c.putc ch).getChar x y = if x = c.screenX ∧ y = c.screenY then ch else c.getChar x y := by
  obtain ⟨hpx, hpy⟩ := putc_cursor h hch
  refine ⟨hpx, hpy, fun x y hx0 hx => ?_⟩
  unfold putc
  rw [if_neg hch]
  show (if cell x y = cell c.screenX c.screenY then ch
    else if cell x y = cell c.screenX c.screenY + 1 then attrib else c.video (cell x y)) = _
  simp only [cell_inj hx0 hx h.1 h.2.1]
  split
  · rfl
  · -- the attribute byte lies at an odd offset
    rw [if_neg (by unfold cell; omega)]
    rfl

/-! ## Scrolls -/

/-- One row of saved characters put back. -/
theorem putRow_char {c : Console} {hist : Int → UInt8} {i : Nat} (hi : i < 24)
    (hh : ∀ x, 0 ≤ x → x < numCols → ¬ (hist x = 10 ∨ hist x = 13)) (x y : Int) (hx0 : 0 ≤ x) (hx : x < numCols) :
    ((List.range 80).foldl (fun c (j : Nat) => c.putc (hist j)) (c.setCursor 0 i)).getChar x y =
      if y = i then hist x else c.getChar x y := by
  -- after `m` characters
  let I : Nat → Console → Prop := fun m d => d.screenY = i ∧ d.screenX = m % 80 ∧
    ∀ x y, 0 ≤ x → x < numCols → d.getChar x y = if y = i ∧ x < m then hist x else c.getChar x y
  have hstart : I 0 (c.setCursor 0 i) := by
    refine ⟨rfl, rfl, fun x y hx0 _ => ?_⟩
    rw [if_neg (by omega)]
    rfl
  have hend : I 80 _ := foldl_range hstart (f := fun c (j : Nat) => c.putc (hist j)) (by
    rintro m hm d ⟨hy, hx, hd⟩
    have hm80 : (m : Int) % 80 = m := Int.emod_eq_of_lt (by omega) (by omega)
    have hin : d.InScreen := by
      unfold InScreen numCols numRows
      omega
    obtain ⟨hx', hy', hd'⟩ := putc_print hin (hh m (by omega) (by unfold numCols; omega))
    refine ⟨hy'.trans hy, ?_, ?_⟩
    · rw [hx', hx]
      omega
    · intro x y hx0 hx1
      rw [hd' x y hx0 hx1, hd x y hx0 hx1, hx, hy, hm80]
      by_cases hxm : x = m ∧ y = i
      · rw [if_pos hxm, if_pos (by omega), hxm.1]
      · rw [if_neg hxm]
        by_cases hold : y = i ∧ x < m
        · rw [if_pos hold, if_pos (by omega)]
        · rw [if_neg hold, if_neg (by omega)])
  obtain ⟨-, -, hd⟩ := hend
  rw [hd x y hx0 hx]
  unfold numCols at hx
  by_cases hy : y = i
  · rw [if_pos hy, if_pos (by omega)]
  · rw [if_neg hy, if_neg (by omega)]

/-- All saved rows put back: rows 0 to 23 get the saved rows 1 to 24. -/
theorem putRows_char {c : Console} {hist : Int → Int → UInt8}
    (hh : ∀ x y : Int, 0 ≤ x → x < numCols → 0 ≤ y → y < numRows → ¬ (hist x y = 10 ∨ hist x y = 13))
    (x y : Int) (hx0 : 0 ≤ x) (hx : x < numCols) :
    (c.putRows hist).getChar x y = if 0 ≤ y ∧ y < 24 then hist x (y + 1) else c.getChar x y := by
  let I : Nat → Console → Prop := fun i d =>
    ∀ x y, 0 ≤ x → x < numCols → d.getChar x y = if 0 ≤ y ∧ y < i then hist x (y + 1) else c.getChar x y
  have hstart : I 0 c := by
    intro x y _ _
    rw [if_neg (by omega)]
  have hend : I 24 (c.putRows hist) := foldl_range hstart (by
    intro i hi d hd x y hx0 hx1
    have hrow : ∀ x : Int, 0 ≤ x → x < numCols → ¬ (hist x (i + 1) = 10 ∨ hist x (i + 1) = 13) :=
      fun x h0 h1 => hh x (i + 1) h0 h1 (by omega) (by unfold numRows; omega)
    rw [putRow_char hi hrow x y hx0 hx1]
    by_cases hy : y = i
    · rw [if_pos hy, if_pos (by omega), hy]
    · rw [if_neg hy, hd x y hx0 hx1]
      by_cases hlt : 0 ≤ y ∧ y < i
      · rw [if_pos hlt, if_pos (by omega)]
      · rw [if_neg hlt, if_neg (by omega)])
  exact hend x y hx0 hx

/-- The scroll of `write_helper`: rows 1 to 23 go up by one, row 23 is blank and row 24 as it was. -/
theorem scrollText_char {c : Console} (h : Plain c.video) (x y : Int) (hx0 : 0 ≤ x) (hx : x < numCols) :
    c.scrollText.getChar x y =
      if 0 ≤ y ∧ y < 23 then c.getChar x (y + 1) else if y = 23 then 32 else c.getChar x y := by
  rw [scrollText, setCursor_getChar, putRows_char (scrollText_plain h) x y hx0 hx]
  unfold numRows
  by_cases hlow : 0 ≤ y ∧ y < 23
  · rw [if_pos hlow, if_pos (by omega), if_neg (by omega)]
  · rw [if_neg hlow]
    by_cases hy : y = 23
    · rw [if_pos hy, if_pos (by omega), if_pos (by omega)]
    · rw [if_neg hy, if_neg (by omega)]

/-! ## A text in one row -/

/-- A character that `write_helper` prints as it is. -/
def Printable (ch : UInt8) : Prop := 32 ≤ ch ∧ ch ≤ 126

instance decidablePrintable (ch : UInt8) : Decidable (Printable ch) := inferInstanceAs (Decidable (_ ∧ _))

theorem Printable.ne {ch d : UInt8} (h : Printable ch) (hd : d < 32) : ch ≠ d := by
  rintro rfl
  exact absurd h.1 (UInt8.not_le.2 hd)

theorem Printable.not_break {ch : UInt8} (h : Printable ch) : ¬ (ch = 10 ∨ ch = 13) := by
  rintro (hb | hb)
  · exact h.ne (by decide) hb
  · exact h.ne (by decide) hb

/-- A turn of `write_helper` above the bottom row prints the character and no more. -/
theorem writeChar_print {c : Console} {text : Buf} {k : Nat} (h : c.InScreen) (hy : c.screenY < 24)
    (hk : Printable (text k)) : (writeChar text k c).1 = c.putc (text k) := by
  have hx := h.2.1
  unfold writeChar
  simp only
  rw [if_neg fun hw => absurd hw.1 (ne_of_lt hx), if_neg (hk.ne (by decide)), if_neg (hk.ne (by decide)),
    if_neg (by unfold numRows; omega)]

/-- Characters printed from column `x` on stay in their row, from its end back to its start; as long as they do not
come to the end, each one stands in its place. -/
theorem writeLoop_print {text : Buf} : ∀ (n k : Nat) {c : Console} (b : Bool), c.InScreen → c.screenY < 24 →
    (∀ m < n, Printable (text (k + m))) →
      (writeLoop text k n (c, b)).1.screenX = (c.screenX + n) % 80 ∧
      (writeLoop text k n (c, b)).1.screenY = c.screenY ∧
      (c.screenX + n ≤ 80 → ∀ x y, 0 ≤ x → x < numCols → (writeLoop text k n (c, b)).1.getChar x y =
        if y = c.screenY ∧ c.screenX ≤ x ∧ x < c.screenX + n then text (k + (x - c.screenX).toNat) else c.getChar x y)
  | 0, _, c, _, h, _, _ => by
    refine ⟨?_, rfl, fun _ x y _ _ => ?_⟩
    · have hx0 := h.1
      have hx := h.2.1
      unfold numCols at hx
      show c.screenX = _
      omega
    · rw [if_neg (by omega)]
      rfl
  | n + 1, k, c, b, h, hy, htext => by
    have hk : Printable (text k) := htext 0 (by omega)
    have hx0 := h.1
    have hx := h.2.1
    unfold numCols at hx
    have hstep : writeLoop text k (n + 1) (c, b) = writeLoop text (k + 1) n (c.putc (text k), b || (writeChar text k c).2) := by
      rw [← writeChar_print h hy hk]
      rfl
    obtain ⟨hpx, hpy, hpc⟩ := putc_print h hk.not_break
    have hin := putc_inScreen h hk.not_break
    obtain ⟨h1, h2, h3⟩ := writeLoop_print n (k + 1) (b || (writeChar text k c).2) hin (by rw [hpy]; exact hy)
      (fun m hm => by rw [Nat.add_assoc, Nat.add_comm 1]; exact htext (m + 1) (by omega))
    rw [hstep]
    refine ⟨?_, h2.trans hpy, fun hfit x y hx0' hx' => ?_⟩
    · rw [h1, hpx]
      push_cast
      omega
    · have hnext : n = 0 ∨ (c.putc (text k)).screenX = c.screenX + 1 := by
        rw [hpx]
        omega
      rw [h3 (by rw [hpx]; omega) x y hx0' hx', hpc x y hx0' hx', hpy]
      by_cases hfirst : x = c.screenX ∧ y = c.screenY
      · obtain ⟨rfl, rfl⟩ := hfirst
        rw [if_neg (by omega), if_pos ⟨rfl, rfl⟩, if_pos (by omega), sub_self]
        rfl
      · rw [if_neg hfirst]
        by_cases hlater : y = c.screenY ∧ c.screenX + 1 ≤ x ∧ x < c.screenX + 1 + n
        · obtain ⟨hrow, hlo, hhi⟩ := hlater
          have hX : (c.putc (text k)).screenX = c.screenX + 1 := hnext.resolve_left (by omega)
          have hplace : k + 1 + (x - (c.screenX + 1)).toNat = k + (x - c.screenX).toNat := by omega
          rw [hX, if_pos ⟨hrow, hlo, hhi⟩, if_pos (by omega), hplace]
        · rw [if_neg (by rcases hnext with h0 | hX <;> omega), if_neg (by omega)]

/-- The text stands in the cells from the cursor on, row after row, and the cursor after it. -/
def WritesThrough (c : Console) (text : Buf) (length : Nat) : Prop :=
  let d := (c.writeHelper text length).2
  (∀ k < length, d.getChar ((c.screenX + k) % 80) (c.screenY + (c.screenX + k) / 80) = text k) ∧
    d.screenX = (c.screenX + length) % 80 ∧ d.screenY = c.screenY + (c.screenX + length) / 80

/-- A text above the bottom row is written through exactly when it does not come to the end of its row. -/
theorem writesThrough_iff (c : Console) (text : Buf) (length : Nat) (hx0 : 0 ≤ c.screenX) (hx : c.screenX < 80)
    (hy0 : 0 ≤ c.screenY) (hy : c.screenY < 24) (htext : ∀ k < length, Printable (text k)) :
    WritesThrough c text length ↔ c.screenX + length < 80 := by
  have hin : c.InScreen := ⟨hx0, hx, hy0, by unfold numRows; omega⟩
  obtain ⟨hwx, hwy, hwc⟩ := writeLoop_print length 0 false hin hy (by simpa using htext)
  constructor
  · rintro ⟨-, -, hrow⟩
    have hsame : c.screenY = c.screenY + (c.screenX + length) / 80 := hwy.symm.trans hrow
    omega
  · intro hfit
    refine ⟨?_, hwx, hwy.trans (by omega)⟩
    intro k hk
    have hcol : (c.screenX + k) % 80 = c.screenX + k := by omega
    have hrow : c.screenY + (c.screenX + k) / 80 = c.screenY := by omega
    rw [hcol, hrow]
    refine (hwc (by omega) _ _ (by omega) (by unfold numCols; omega)).trans ?_
    rw [if_pos (by omega)]
    congr 1
    omega

/-- A blank screen with the cursor at a column of row 3. -/
def blankAt (x : Int) : Console := ⟨fun _ => 32, x, 3⟩

theorem writesThrough_short : WritesThrough (blankAt 70) (fun _ => 97) 9 :=
  (writesThrough_iff (blankAt 70) (fun _ => 97) 9 (by decide) (by decide) (by decide) (by decide)
    (fun _ _ => ⟨by decide, by decide⟩)).2 (by decide)

/-- Twelve characters from column 70 on: the last two go to the start of the same row. -/
theorem writes_over_row :
    let d := ((blankAt 70).writeHelper (fun _ => 97) 12).2
    d.getChar 0 4 = 32 ∧ d.getChar 0 3 = 97 ∧ (d.screenX, d.screenY) = (2, 3) ∧
      ¬ WritesThrough (blankAt 70) (fun _ => 97) 12 := by
  intro d
  have h4 : d.getChar 0 4 = 32 := by decide +kernel
  refine ⟨h4, by decide +kernel, by decide +kernel, fun h => ?_⟩
  have h10 : d.getChar 0 4 = 97 := h.1 10 (by decide)
  rw [h4] at h10
  exact absurd h10 (by decide)

/-! ## A text of many lines -/

/-- A screen that shows a window of some paper: rows 0 to 23 from row `top` of it on, the bottom row blank, and the
cursor at its place, at the start of the bottom row at the lowest. Below the window the paper is blank. -/
structure Shows (c : Console) (top : Nat) (p : Paper UInt8) : Prop where
  rows : ∀ i j : Nat, i < 24 → j < 80 → c.getChar j i = p.rows (top + i) j
  blank : ∀ j : Nat, j < 80 → c.getChar j 24 = 32
  fresh : ∀ r j, top + 24 ≤ r → p.rows r j = 32
  plain : Plain c.video
  col : c.screenX = p.col
  row : top + c.screenY = p.row
  above : 0 ≤ c.screenY
  low : c.screenY ≤ 24
  edge : c.screenY = 24 → p.col = 0

/-- A scroll moves the window down by one row, to show the cursor's row. -/
theorem Shows.scroll {c : Console} {top : Nat} {p : Paper UInt8} (h : Shows c top p) :
    Shows (if c.screenY ≥ numRows - 1 then c.scrollText else c) (Paper.follow 24 top p.row) p ∧
      (if c.screenY ≥ numRows - 1 then c.scrollText else c).screenY ≤ 23 := by
  have hrow := h.row
  have habove := h.above
  have hlow := h.low
  unfold Paper.follow numRows
  by_cases hy : c.screenY = 24
  case neg =>
    have htop : max top (p.row + 1 - 24) = top := by omega
    rw [if_neg (by omega), htop]
    exact ⟨h, by omega⟩
  have htop : max top (p.row + 1 - 24) = top + 1 := by omega
  have hsy : c.scrollText.screenY = 23 := rfl
  rw [if_pos (by omega), htop]
  refine ⟨⟨?_, ?_, fun r j hr => h.fresh r j (by omega), (scrollText_sound h.plain).2.1.plain, ?_, ?_, ?_, ?_, ?_⟩, ?_⟩
  · intro i j hi hj
    rw [scrollText_char h.plain _ _ (by omega) (by unfold numCols; omega)]
    by_cases hi23 : i = 23
    · rw [if_neg (by omega), if_pos (by omega), h.fresh _ _ (by omega)]
    · have hnext := h.rows (i + 1) j (by omega) hj
      rw [if_pos (by omega), Nat.add_assoc, Nat.add_comm 1, ← hnext]
      rfl
  · intro j hj
    rw [scrollText_char h.plain _ _ (by omega) (by unfold numCols; omega), if_neg (by omega), if_neg (by omega)]
    exact h.blank j hj
  · rw [h.edge hy]
    rfl
  · rw [hsy]
    push_cast
    omega
  · omega
  · omega
  · omega
  · omega

/-- A line break above the bottom row. -/
theorem Shows.break {c : Console} {top : Nat} {p : Paper UInt8} (h : Shows c top p) (hy : c.screenY ≤ 23) :
    Shows (c.setCursor 0 (c.screenY + 1)) top { p with row := p.row + 1, col := 0 } where
  rows := h.rows
  blank := h.blank
  fresh := h.fresh
  plain := h.plain
  col := rfl
  row := by
    have hrow := h.row
    show (top : Int) + (c.screenY + 1) = ((p.row + 1 : Nat) : Int)
    push_cast
    omega
  above := by
    have habove := h.above
    show 0 ≤ c.screenY + 1
    omega
  low := by
    show c.screenY + 1 ≤ 24
    omega
  edge := fun _ => rfl

/-- A character printed left of the last column. -/
theorem Shows.print {c : Console} {top : Nat} {p : Paper UInt8} {ch : UInt8} (h : Shows c top p)
    (hy : c.screenY ≤ 23) (hcol : p.col < 79) (hch : Printable ch) : Shows (c.putc ch) top (Paper.type 10 p ch) := by
  have hx := h.col
  have hrow := h.row
  have habove := h.above
  have hin : c.InScreen := by
    unfold InScreen numCols numRows
    omega
  obtain ⟨hpx, hpy, hpc⟩ := putc_print hin hch.not_break
  rw [Paper.type_char (hch.ne (by decide))]
  refine ⟨?_, ?_, ?_, (putc_text ⟨hin, h.plain⟩ hch.not_break).2.1.plain, ?_, ?_, ?_, ?_, ?_⟩
  · intro i j hi hj
    rw [hpc _ _ (by omega) (by unfold numCols; omega)]
    by_cases hcell : top + i = p.row ∧ j = p.col
    · rw [if_pos (by omega)]
      exact (if_pos hcell).symm
    · rw [if_neg (by omega)]
      exact (h.rows i j hi hj).trans (if_neg hcell).symm
  · intro j hj
    rw [hpc _ _ (by omega) (by unfold numCols; omega), if_neg (by omega)]
    exact h.blank j hj
  · intro r j hr
    show (if r = p.row ∧ j = p.col then ch else p.rows r j) = 32
    rw [if_neg (by omega)]
    exact h.fresh r j hr
  · rw [hpx, hx]
    push_cast
    omega
  · rw [hpy]
    exact hrow
  · rw [hpy]
    exact habove
  · rw [hpy]
    omega
  · intro h24
    rw [hpy] at h24
    omega

/-- The character left of the cursor printed over, and the cursor put there. -/
theorem Shows.erase {c : Console} {top : Nat} {p : Paper UInt8} (h : Shows c top p) (hy : c.screenY ≤ 23)
    (hcol : 0 < p.col ∧ p.col ≤ 79) :
    Shows (((c.setx (c.screenX - 1)).putc 32).setCursor (c.screenX - 1) c.screenY) top (p.erase 32) := by
  have hx := h.col
  have hleft : Shows (c.setx (c.screenX - 1)) top { p with col := p.col - 1 } :=
    ⟨h.rows, h.blank, h.fresh, h.plain, by show c.screenX - 1 = ((p.col - 1 : Nat) : Int); omega, h.row, h.above, h.low,
      fun h24 => absurd (show c.screenY = 24 from h24) (by omega)⟩
  have hblank : Printable 32 := by decide
  have hspace := hleft.print hy (by show p.col - 1 < 79; omega) hblank
  rw [Paper.type_char (hblank.ne (by decide))] at hspace
  exact ⟨hspace.rows, hspace.blank, hspace.fresh, hspace.plain, hleft.col, h.row, h.above, h.low,
    fun h24 => absurd (show c.screenY = 24 from h24) (by omega)⟩

/-- One turn of `write_helper`. -/
theorem Shows.writeChar {c : Console} {top : Nat} {p : Paper UInt8} {text : Buf} {k : Nat} (h : Shows c top p)
    (hcol : p.col ≤ 79) (hk : text k = 10 ∨ (Printable (text k) ∧ p.col < 79)) :
    Shows (writeChar text k c).1 (Paper.follow 24 top p.row) (Paper.type 10 p (text k)) := by
  have hx := h.col
  obtain ⟨hs, hy⟩ := h.scroll
  unfold Console.writeChar
  simp only
  rw [if_neg fun hw => absurd (hx.symm.trans hw.1) (by unfold numCols; omega)]
  generalize (if c.screenY ≥ numRows - 1 then c.scrollText else c) = d at hs hy
  rcases hk with hk | ⟨hk, hlt⟩
  · rw [hk, if_neg (by decide), if_pos rfl, Paper.type_break]
    exact hs.break hy
  · rw [if_neg (hk.ne (by decide)), if_neg (hk.ne (by decide))]
    exact hs.print hy hlt hk

/-- The characters of a text from `k` on. -/
def chars (text : Buf) (k n : Nat) : List UInt8 := (List.range' k n).map text

/-- A text whose lines end before the last column. -/
theorem Shows.writeLoop {text : Buf} : ∀ (n k : Nat) {c : Console} {top : Nat} {p : Paper UInt8} (b : Bool),
    Shows c top p → (∀ m < n, text (k + m) = 10 ∨ Printable (text (k + m))) →
      Paper.Fits 79 p.col ((chars text k n).splitOn 10) →
      Shows (writeLoop text k n (c, b)).1 (Paper.followText 10 24 top p (chars text k n))
        (Paper.write 10 p (chars text k n))
  | 0, _, _, _, _, _, h, _, _ => h
  | n + 1, k, c, top, p, b, h, htext, hfit => by
    have hcons : chars text k (n + 1) = text k :: chars text (k + 1) n := rfl
    have hk : text k = 10 ∨ Printable (text k) := htext 0 (by omega)
    have hcol := Paper.fits_col hfit
    rw [hcons] at hfit
    have hnext : (text k = 10 ∨ (Printable (text k) ∧ p.col < 79)) ∧
        Paper.Fits 79 (Paper.type 10 p (text k)).col ((chars text (k + 1) n).splitOn 10) := by
      rcases hk with hk | hk
      · rw [hk, Paper.fits_break] at hfit
        rw [hk, Paper.type_break]
        exact ⟨Or.inl rfl, hfit.2⟩
      · have hne : text k ≠ 10 := hk.ne (by decide)
        rw [Paper.fits_char hne] at hfit
        have hlt := Paper.fits_col hfit
        rw [Paper.type_char hne]
        exact ⟨Or.inr ⟨hk, by omega⟩, hfit⟩
    exact Shows.writeLoop n (k + 1) (b || (Console.writeChar text k c).2) (h.writeChar hcol hnext.1)
      (fun m hm => by rw [Nat.add_assoc, Nat.add_comm 1]; exact htext (m + 1) (by omega)) hnext.2

/-- The paper behind a screen: its rows 0 to 23, and blank below. -/
def paper (c : Console) : Paper UInt8 :=
  { rows := fun r j => if r < 24 then c.getChar j r else 32, row := c.screenY.toNat, col := c.screenX.toNat }

theorem shows_paper {c : Console} (hplain : Plain c.video) (hblank : ∀ j : Nat, j < 80 → c.getChar j 24 = 32)
    (hx : 0 ≤ c.screenX) (hy : 0 ≤ c.screenY) (hcursor : c.screenY ≤ 23 ∨ (c.screenX = 0 ∧ c.screenY = 24)) :
    Shows c 0 c.paper where
  rows := fun i j hi _ => by
    rw [Nat.zero_add]
    exact (if_pos hi).symm
  blank := hblank
  fresh := fun r j hr => if_neg (by omega)
  plain := hplain
  col := (Int.toNat_of_nonneg hx).symm
  row := by
    show ((0 : Nat) : Int) + c.screenY = (c.screenY.toNat : Int)
    omega
  above := hy
  low := by omega
  edge := fun h24 => by
    show c.screenX.toNat = 0
    omega

/-- `write_helper` of a text whose lines end before the last column. The screen shows the rows with the lines of the
text placed from the cursor on, from row `top` on: as many rows have gone as the last character needed, one with each
scroll. -/
theorem writeHelper_scrolls (c : Console) (text : Buf) (length : Nat) (hplain : Plain c.video)
    (hblank : ∀ j : Nat, j < 80 → c.getChar j 24 = 32) (hx : 0 ≤ c.screenX) (hy : 0 ≤ c.screenY)
    (hcursor : c.screenY ≤ 23 ∨ (c.screenX = 0 ∧ c.screenY = 24))
    (htext : ∀ k < length, text k = 10 ∨ Printable (text k))
    (hfit : Paper.Fits 79 c.screenX.toNat ((chars text 0 length).splitOn 10)) :
    let lines := (chars text 0 length).splitOn 10
    let x := c.screenX.toNat
    let y := c.screenY.toNat
    let top := if length = 0 then 0 else y + (chars text 0 length).dropLast.count 10 - 23
    let d := (c.writeHelper text length).2
    (∀ i j : Nat, i < 24 → j < 80 → d.getChar j i =
      (Paper.placed y x lines (top + i) j).getD (if top + i < 24 then c.getChar j (top + i : Nat) else 32)) ∧
    (∀ j : Nat, j < 80 → d.getChar j 24 = 32) ∧
    d.screenX = Paper.endCol x lines ∧ d.screenY = (y + (chars text 0 length).count 10 - top : Int) ∧ d.screenY ≤ 24 ∧
    ∀ e : Console, Plain e.video → ∀ i j : Int, 0 ≤ j → j < 80 → e.scrollText.getChar j i =
      if 0 ≤ i ∧ i < 23 then e.getChar j (i + 1) else if i = 23 then 32 else e.getChar j i := by
  intro lines x y top d
  have h : Shows d (Paper.followText 10 24 0 c.paper (chars text 0 length)) (Paper.write 10 c.paper (chars text 0 length)) :=
    Shows.writeLoop length 0 false (shows_paper hplain hblank hx hy hcursor) (by simpa using htext) hfit
  have htop : Paper.followText 10 24 0 c.paper (chars text 0 length) = top := by
    rcases length with _ | n
    · rfl
    · have hne : chars text 0 (n + 1) ≠ [] := List.cons_ne_nil _ _
      rw [Paper.followText_eq _ _ _ _ hne]
      show max 0 (y + _ + 1 - 24) = if n + 1 = 0 then 0 else _
      rw [if_neg (by omega)]
      omega
  rw [htop] at h
  have hrow := h.row
  rw [Paper.write_row] at hrow
  refine ⟨fun i j hi hj => ?_, h.blank, h.col.trans (congrArg _ (Paper.write_col _ _)), ?_, h.low, fun e he i j hj0 hj =>
    scrollText_char he j i hj0 hj⟩
  · rw [h.rows i j hi hj, Paper.write_rows]
    rfl
  · have hy' : c.paper.row = y := rfl
    rw [hy'] at hrow
    push_cast at hrow
    omega

theorem blank_plain : ¬ ((32 : UInt8) = 10 ∨ (32 : UInt8) = 13) := by decide

/-- Three lines from row 23 on: two scrolls. -/
theorem writeHelper_scrolls_lines :
    let c : Console := ⟨fun _ => 32, 5, 23⟩
    let text : Buf := fun k => [97, 10, 98, 10, 99].getD k 0
    let d := (c.writeHelper text 5).2
    d.getChar 5 21 = 97 ∧ d.getChar 0 22 = 98 ∧ d.getChar 0 23 = 99 ∧ (d.screenX, d.screenY) = (1, 23) := by
  intro c text d
  obtain ⟨hrows, -, hx, hy, -⟩ := writeHelper_scrolls c text 5 (fun _ _ _ _ _ _ => blank_plain) (fun _ _ => rfl)
    (by decide) (by decide) (Or.inl (by decide)) (by decide) (by decide)
  refine ⟨(hrows 21 5 (by decide) (by decide)).trans (by decide), (hrows 22 0 (by decide) (by decide)).trans (by decide),
    (hrows 23 0 (by decide) (by decide)).trans (by decide), ?_⟩
  rw [hx, hy]
  decide

end Console

end Os391
