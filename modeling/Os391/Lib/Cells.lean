/-
The cells of the screen that `putc` and `get_char` access, for each function that prints. Inside the screen
`putc` never leaves the row it stands in, so a screen without line breaks is scrolled inside the screen too.
-/
import Os391.Base.Traced
import Os391.Lib.Console

namespace Os391

open Bytes Traced

namespace Console

/-! ## Accesses -/

/-- The cell index of a position. -/
def index (x y : Int) : Int := numCols * y + x

/-- `putc` writes the cell at the cursor, or none for a line break. -/
def putcCells (c : Console) (ch : UInt8) : List Int :=
  if ch = 10 ∨ ch = 13 then [] else [index c.screenX c.screenY]

/-- The cells `puts` writes. -/
def putsCells (c : Console) (text : List UInt8) : List Int := trace putc putcCells c text

/-- The cells the inner loops of the scrolls write. -/
def putRowsCells (c : Console) (hist : Int → Int → UInt8) : List Int :=
  trace
    (fun c (i : Nat) => (List.range 80).foldl (fun c (j : Nat) => c.putc (hist j (i + 1))) (c.setCursor 0 i))
    (fun c (i : Nat) => trace (fun c (j : Nat) => c.putc (hist j (i + 1)))
      (fun c (j : Nat) => c.putcCells (hist j (i + 1))) (c.setCursor 0 i) (List.range 80))
    c (List.range 24)

/-- The cells read when a scroll saves the display: all of them. -/
def savedCells : List Int :=
  (List.range 25).flatMap fun (i : Nat) => (List.range 80).map fun (j : Nat) => index j i

/-- The cells the scroll of `keyboard_read` accesses. -/
def scrollUpCells (c : Console) : List Int := savedCells ++ c.clear.putRowsCells fun x y => c.getChar x y

/-- The cells the scroll of `write_helper` accesses. -/
def scrollTextCells (c : Console) : List Int :=
  savedCells ++ c.putRowsCells fun x y => if y ≥ numRows - 1 then 32 else c.getChar x y

/-- The cells one turn of `write_helper` accesses. -/
def writeCharCells (text : Buf) (k : Nat) (c : Console) : List Int :=
  let scrolls := c.screenY ≥ numRows - 1
  let x := c.screenX
  let scrolled := if scrolls then c.scrollTextCells else []
  let c := if scrolls then c.scrollText else c
  let printed := if text k = 0 ∨ text k = 10 then [] else c.putcCells (text k)
  let c :=
    if text k = 0 then c
    else if text k = 10 then c.setCursor 0 (c.screenY + 1)
    else c.putc (text k)
  scrolled ++ printed ++ if x = numCols ∧ text (k + 1) ≠ 10 then c.putcCells 10 else []

/-- The cells the loop of `write_helper` accesses. -/
def writeLoopCells (text : Buf) : Nat → Nat → Console → List Int
  | _, 0, _ => []
  | k, n + 1, c => writeCharCells text k c ++ writeLoopCells text (k + 1) n (writeChar text k c).1

/-- The cells `write_helper` accesses. -/
def writeHelperCells (c : Console) (text : Buf) (length : Nat) : List Int := writeLoopCells text 0 length c

/-! ## Inside the screen -/

/-- The cursor is on the screen. -/
def InScreen (c : Console) : Prop :=
  0 ≤ c.screenX ∧ c.screenX < numCols ∧ 0 ≤ c.screenY ∧ c.screenY < numRows

/-- A cell index is one of the screen's. -/
def OnScreen (p : Int) : Prop := 0 ≤ p ∧ p < 2000

/-- No cell of the screen holds a character that `putc` takes for a line break. -/
def Plain (video : Mem) : Prop :=
  ∀ x y, 0 ≤ x → x < numCols → 0 ≤ y → y < numRows → ¬ (video (cell x y) = 10 ∨ video (cell x y) = 13)

/-- The cursor is on the screen, and the screen is plain. -/
structure Sound (c : Console) : Prop where
  inScreen : c.InScreen
  plain : Plain c.video

theorem onScreen_index {x y : Int} (hx0 : 0 ≤ x) (hx : x < numCols) (hy0 : 0 ≤ y) (hy : y < numRows) :
    OnScreen (index x y) := by
  unfold numCols numRows at *
  unfold OnScreen index numCols
  omega

theorem savedCells_onScreen : ∀ p ∈ savedCells, OnScreen p := by
  intro p hp
  obtain ⟨i, hi, hp⟩ := List.mem_flatMap.1 hp
  obtain ⟨j, hj, rfl⟩ := List.mem_map.1 hp
  rw [List.mem_range] at hi hj
  exact onScreen_index (by omega) (by unfold numCols; omega) (by omega) (by unfold numRows; omega)

theorem plain_clear (c : Console) : Plain c.clear.video := by
  intro x y hx0 hx hy0 hy
  have hin : 0 ≤ cell x y ∧ cell x y < numRows * numCols * 2 := by
    unfold cell
    unfold numCols numRows at *
    omega
  have heven : cell x y % 2 = 0 := by
    unfold cell
    omega
  have hspace : c.clear.video (cell x y) = 32 := by
    show (if 0 ≤ cell x y ∧ cell x y < numRows * numCols * 2 then _ else _) = _
    rw [if_pos hin, if_pos heven]
  rw [hspace]
  decide

/-- A character that is no line break moves the cursor on in its row, from the end back to the start. -/
theorem putc_cursor {c : Console} {ch : UInt8} (h : c.InScreen) (hch : ¬ (ch = 10 ∨ ch = 13)) :
    (c.putc ch).screenX = (c.screenX + 1) % 80 ∧ (c.putc ch).screenY = c.screenY := by
  obtain ⟨hx0, hx, hy0, hy⟩ := h
  have hm : (c.screenX + 1).tmod numCols = (c.screenX + 1) % 80 := Int.tmod_eq_emod_of_nonneg (by omega)
  unfold putc
  rw [if_neg hch]
  refine ⟨hm, ?_⟩
  show (c.screenY + ((c.screenX + 1).tmod numCols).tdiv numCols).tmod numRows = _
  rw [hm, Int.tdiv_eq_zero_of_lt (by omega) (by unfold numCols; omega), add_zero, Int.tmod_eq_of_lt hy0 hy]

theorem putc_inScreen {c : Console} {ch : UInt8} (h : c.InScreen) (hch : ¬ (ch = 10 ∨ ch = 13)) :
    (c.putc ch).InScreen := by
  obtain ⟨hpx, hpy⟩ := putc_cursor h hch
  have hcol := Int.emod_nonneg (c.screenX + 1) (by decide : (80 : Int) ≠ 0)
  have hlast := Int.emod_lt_of_pos (c.screenX + 1) (by decide : (0 : Int) < 80)
  rw [← hpx] at hcol hlast
  exact ⟨hcol, hlast, hpy ▸ h.2.2.1, hpy ▸ h.2.2.2⟩

/-- A character that is no line break stays in its row. -/
theorem putc_text {c : Console} {ch : UInt8} (h : c.Sound) (hch : ¬ (ch = 10 ∨ ch = 13)) :
    (∀ p ∈ c.putcCells ch, OnScreen p) ∧ (c.putc ch).Sound ∧ (c.putc ch).screenY = c.screenY := by
  obtain ⟨hx0, hx, hy0, hy⟩ := h.inScreen
  refine ⟨?_, ⟨putc_inScreen h.inScreen hch, ?_⟩, (putc_cursor h.inScreen hch).2⟩
  · intro p hp
    unfold putcCells at hp
    rw [if_neg hch, List.mem_singleton] at hp
    rw [hp]
    exact onScreen_index hx0 hx hy0 hy
  · intro x y hx0' hx1 hy0' hy1
    have hvideo : (c.putc ch).video (cell x y) = ch ∨ (c.putc ch).video (cell x y) = c.video (cell x y) := by
      unfold putc
      rw [if_neg hch]
      simp only
      split
      · exact Or.inl rfl
      · -- the attribute byte lies at an odd offset
        rw [if_neg (by unfold cell; omega)]
        exact Or.inr rfl
    rcases hvideo with hv | hv <;> rw [hv]
    · exact hch
    · exact h.plain x y hx0' hx1 hy0' hy1

/-- A line break above the last row goes to the next row. -/
theorem putc_break {c : Console} {ch : UInt8} (h : c.Sound) (hy : c.screenY < numRows - 1) (hch : ch = 10 ∨ ch = 13) :
    (∀ p ∈ c.putcCells ch, OnScreen p) ∧ (c.putc ch).Sound := by
  obtain ⟨-, -, hy0, -⟩ := h.inScreen
  unfold putcCells putc
  rw [if_pos hch, if_pos hch]
  refine ⟨fun _ hp => absurd hp List.not_mem_nil, ⟨?_, h.plain⟩⟩
  unfold InScreen
  simp only
  unfold numCols
  unfold numRows at *
  omega

theorem putc_sound {c : Console} (ch : UInt8) (h : c.Sound) (hy : c.screenY < numRows - 1) :
    (∀ p ∈ c.putcCells ch, OnScreen p) ∧ (c.putc ch).Sound := by
  by_cases hch : ch = 10 ∨ ch = 13
  · exact putc_break h hy hch
  · obtain ⟨hp, hs, -⟩ := putc_text h hch
    exact ⟨hp, hs⟩

theorem setCursor_sound {c : Console} {x y : Int} (h : Plain c.video) (hx0 : 0 ≤ x) (hx : x < numCols) (hy0 : 0 ≤ y)
    (hy : y < numRows) : (c.setCursor x y).Sound := ⟨⟨hx0, hx, hy0, hy⟩, h⟩

/-- A text without line breaks. -/
theorem puts_text {c : Console} {text : List UInt8} (h : c.Sound) (ht : ∀ ch ∈ text, ¬ (ch = 10 ∨ ch = 13)) :
    (∀ p ∈ c.putsCells text, OnScreen p) ∧ (c.puts text).Sound := by
  refine trace_inv (I := Sound) ?_ h
  intro ch hch c hc
  obtain ⟨hp, hs, -⟩ := putc_text hc (ht ch hch)
  exact ⟨hp, hs⟩

/-- The saved rows put back: the cursor ends in the last row but one. -/
theorem putRows_sound {c : Console} {hist : Int → Int → UInt8} (h : Plain c.video)
    (hh : ∀ x y : Int, 0 ≤ x → x < numCols → 0 ≤ y → y < numRows → ¬ (hist x y = 10 ∨ hist x y = 13)) :
    (∀ p ∈ c.putRowsCells hist, OnScreen p) ∧ (c.putRows hist).Sound ∧ (c.putRows hist).screenY = numRows - 2 := by
  have hrow : ∀ i : Nat, i < 24 → ∀ c : Console, Plain c.video →
      (∀ p ∈ trace (fun c (j : Nat) => c.putc (hist j (i + 1))) (fun c (j : Nat) => c.putcCells (hist j (i + 1)))
        (c.setCursor 0 i) (List.range 80), OnScreen p) ∧
      ((List.range 80).foldl (fun c (j : Nat) => c.putc (hist j (i + 1))) (c.setCursor 0 i)).Sound ∧
      ((List.range 80).foldl (fun c (j : Nat) => c.putc (hist j (i + 1))) (c.setCursor 0 i)).screenY = i := by
    intro i hi c hc
    have hstart : (c.setCursor 0 i).Sound :=
      setCursor_sound hc (le_refl 0) (by decide) (by omega) (by unfold numRows; omega)
    refine trace_range (I := fun _ c => Sound c ∧ c.screenY = i) ⟨hstart, rfl⟩ ?_
    rintro j hj c ⟨hs, hy⟩
    have hch := hh j (i + 1) (by omega) (by unfold numCols; omega) (by omega) (by unfold numRows; omega)
    obtain ⟨hp, hs', hy'⟩ := putc_text hs hch
    exact ⟨hp, hs', by rw [hy', hy]⟩
  -- before the first row the cursor may be anywhere
  have hrows : (∀ p ∈ c.putRowsCells hist, OnScreen p) ∧ Plain (c.putRows hist).video ∧
      (0 < 24 → (c.putRows hist).Sound ∧ (c.putRows hist).screenY = ((24 : Nat) : Int) - 1) := by
    refine trace_range (I := fun i c => Plain c.video ∧ (0 < i → Sound c ∧ c.screenY = (i : Int) - 1))
      ⟨h, fun h0 => absurd h0 (lt_irrefl 0)⟩ ?_
    rintro i hi c ⟨hc, -⟩
    obtain ⟨hp, hs, hy⟩ := hrow i hi c hc
    refine ⟨hp, hs.plain, fun _ => ⟨hs, ?_⟩⟩
    rw [hy]
    omega
  obtain ⟨hp, -, hs⟩ := hrows
  obtain ⟨hs, hy⟩ := hs (by decide)
  exact ⟨hp, hs, hy⟩

/-- The scroll of `keyboard_read`. -/
theorem scrollUp_sound {c : Console} (h : Plain c.video) :
    (∀ p ∈ c.scrollUpCells, OnScreen p) ∧ c.scrollUp.Sound ∧ c.scrollUp.screenY = numRows - 2 := by
  have hh : ∀ x y : Int, 0 ≤ x → x < numCols → 0 ≤ y → y < numRows → ¬ (c.getChar x y = 10 ∨ c.getChar x y = 13) := h
  obtain ⟨hp, hs, hy⟩ := putRows_sound (plain_clear c) hh
  exact ⟨List.forall_mem_append.2 ⟨savedCells_onScreen, hp⟩, hs, hy⟩

/-- The characters `write_helper` puts back on a scroll. -/
theorem scrollText_plain {c : Console} (h : Plain c.video) (x y : Int) (hx0 : 0 ≤ x) (hx : x < numCols) (hy0 : 0 ≤ y)
    (hy : y < numRows) :
    ¬ ((if y ≥ numRows - 1 then 32 else c.getChar x y) = 10 ∨ (if y ≥ numRows - 1 then 32 else c.getChar x y) = 13) := by
  split
  · decide
  · exact h x y hx0 hx hy0 hy

/-- The scroll of `write_helper`. -/
theorem scrollText_sound {c : Console} (h : Plain c.video) :
    (∀ p ∈ c.scrollTextCells, OnScreen p) ∧ c.scrollText.Sound ∧ c.scrollText.screenY = numRows - 2 := by
  obtain ⟨hp, hs, -⟩ := putRows_sound h (scrollText_plain h)
  have hset : (c.putRows fun x y => if y ≥ numRows - 1 then 32 else c.getChar x y).setCursor 0 (numRows - 2) |>.Sound :=
    setCursor_sound hs.plain (le_refl 0) (by decide) (by decide) (by decide)
  exact ⟨List.forall_mem_append.2 ⟨savedCells_onScreen, hp⟩, hset, rfl⟩

/-- The first part of a turn of `write_helper`: after it the cursor is above the last row. -/
theorem scrolled_sound {c : Console} (h : c.Sound) :
    (∀ p ∈ if c.screenY ≥ numRows - 1 then c.scrollTextCells else [], OnScreen p) ∧
    (if c.screenY ≥ numRows - 1 then c.scrollText else c).Sound ∧
    (if c.screenY ≥ numRows - 1 then c.scrollText else c).screenY < numRows - 1 := by
  split
  · obtain ⟨hp, hs, hy⟩ := scrollText_sound h.plain
    exact ⟨hp, hs, by rw [hy]; decide⟩
  · rename_i hy
    exact ⟨fun _ hp => absurd hp List.not_mem_nil, h, not_le.1 hy⟩

theorem writeChar_sound {c : Console} (text : Buf) (k : Nat) (h : c.Sound) :
    (∀ p ∈ writeCharCells text k c, OnScreen p) ∧ (writeChar text k c).1.Sound := by
  obtain ⟨hp, hs, hy⟩ := scrolled_sound h
  -- the cursor is never found past the margin
  have hx : ¬ (c.screenX = numCols ∧ text (k + 1) ≠ 10) := by
    rintro ⟨hx, -⟩
    exact absurd hx (ne_of_lt h.inScreen.2.1)
  unfold writeCharCells writeChar
  simp only
  generalize (if c.screenY ≥ numRows - 1 then c.scrollTextCells else []) = cells at hp ⊢
  generalize (if c.screenY ≥ numRows - 1 then c.scrollText else c) = d at hs hy ⊢
  rw [if_neg hx, if_neg hx, List.append_nil]
  by_cases h0 : text k = 0
  · rw [if_pos (Or.inl h0), if_pos h0, List.append_nil]
    exact ⟨hp, hs⟩
  by_cases h10 : text k = 10
  · rw [if_pos (Or.inr h10), if_neg h0, if_pos h10, List.append_nil]
    have hy0 := hs.inScreen.2.2.1
    exact ⟨hp, setCursor_sound hs.plain (le_refl 0) (by decide) (by omega) (by omega)⟩
  · obtain ⟨hput, hs'⟩ := putc_sound (text k) hs hy
    rw [if_neg (by rintro (h | h) <;> contradiction), if_neg h0, if_neg h10]
    exact ⟨List.forall_mem_append.2 ⟨hp, hput⟩, hs'⟩

theorem writeLoop_sound (text : Buf) : ∀ (n k : Nat) {c : Console} (b : Bool), c.Sound →
    (∀ p ∈ writeLoopCells text k n c, OnScreen p) ∧ (writeLoop text k n (c, b)).1.Sound
  | 0, _, _, _, h => ⟨fun _ hp => absurd hp List.not_mem_nil, h⟩
  | n + 1, k, c, b, h => by
    obtain ⟨hp, hs⟩ := writeChar_sound text k h
    obtain ⟨hps, hs'⟩ := writeLoop_sound text n (k + 1) (b || (writeChar text k c).2) hs
    exact ⟨List.forall_mem_append.2 ⟨hp, hps⟩, hs'⟩

/-- `write_helper` of any text stays on the screen. -/
theorem writeHelper_sound {c : Console} (text : Buf) (length : Nat) (h : c.Sound) :
    (∀ p ∈ c.writeHelperCells text length, OnScreen p) ∧ (c.writeHelper text length).2.Sound :=
  writeLoop_sound text length 0 false h

end Console

end Os391
