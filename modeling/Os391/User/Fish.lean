/-
`fish.c`: two pictures read side by side, one character of each at a time, and put on the screen as blinking characters
that show the one and the other in turn.
-/
import Os391.Base.Padded
import Os391.Base.Paper
import Os391.User.Grep
import Os391.User.Places

namespace Os391

namespace Fish

open Grep (Calls)

/-! ## add_frames -/

/-- The last character read of a file and whether it is at its end, `c0` and `eof0` or `c1` and `eof1`. -/
structure Side where
  c : UInt8
  eof : Bool

/-- The variables of `add_frames` that the loops change, the blinking characters and what the system calls keep. -/
structure Frames (σ : Type) where
  side0 : Side
  side1 : Side
  blink : Blink
  calls : σ

variable {σ : Type}

/-- The next character of a file, unless the last one has ended the line. Where `read` fails it stays. -/
def readChar (calls : Calls σ) (fd : Int) (s : Side) (st : σ) : Side × σ :=
  if s.c ≠ 10 then
    match calls.ece391Read fd 1 st with
    | (some [], st) => (⟨10, true⟩, st)
    | (some (b :: _), st) => (⟨b, s.eof⟩, st)
    | (none, st) => (s, st)
  else (s, st)

/-- `blink_struct` for two characters at a place. -/
def drawn (local_ : BlinkStruct) (row col : Nat) (c0 c1 : UInt8) : BlinkStruct :=
  { local_ with
    onLength := 15, offLength := 15
    onChar := if c0 = 10 then 32 else c0
    offChar := if c1 = 10 then 32 else c1
    location := UInt16.ofNat (row * 80 + col + 40) }

/-- The inner loop of `add_frames`, over the columns. -/
def addRow (calls : Calls σ) (fd0 fd1 : Int) (local_ : BlinkStruct) (row : Nat) : Nat → Nat → Frames σ → Option (Frames σ)
  | 0, _, _ => none
  | k + 1, col, g =>
    let r0 := readChar calls fd0 g.side0 g.calls
    let r1 := readChar calls fd1 g.side1 r0.2
    let s0 := r0.1
    let s1 := r1.1
    let g : Frames σ := { g with side0 := s0, side1 := s1, calls := r1.2 }
    if s0.c = 10 ∧ s1.c = 10 then some g
    else if (s0.c ≠ 32 ∧ s0.c ≠ 10) ∨ (s1.c ≠ 32 ∧ s1.c ≠ 10) then
      addRow calls fd0 fd1 local_ row k (col + 1)
        { g with blink := (g.blink.mp1IoctlAdd (drawn local_ row col s0.c s1.c)).2 }
    else addRow calls fd0 fd1 local_ row k (col + 1) g

/-- What is done with a file at the end of a line: at the end of the file it is closed, each time. -/
def endLine (calls : Calls σ) (fd : Int) (s : Side) (st : σ) : Side × σ :=
  if s.eof then ({ s with c := 10 }, (calls.ece391Close fd st).2) else ({ s with c := 48 }, st)

/-- The outer loop, over the rows, with so many turns for each of the inner one. -/
def addRows (calls : Calls σ) (fd0 fd1 : Int) (local_ : BlinkStruct) (n : Nat) : Nat → Nat → Frames σ → Option (Frames σ)
  | 0, _, _ => none
  | k + 1, row, g =>
    if g.side0.eof = false ∨ g.side1.eof = false then
      (addRow calls fd0 fd1 local_ row n 0 g).bind fun g =>
        let r0 := endLine calls fd0 g.side0 g.calls
        let r1 := endLine calls fd1 g.side1 r0.2
        addRows calls fd0 fd1 local_ n k (row + 1) { g with side0 := r0.1, side1 := r1.1, calls := r1.2 }
    else some g

/-- `add_frames`: `none` when so many turns are too few, and nothing in it when the program halts. -/
def addFrames (calls : Calls σ) (f0 f1 : CString) (local_ : BlinkStruct) (n : Nat) (blink : Blink) (st : σ) :
    Option (Option (Frames σ)) :=
  match calls.ece391Open f0 st with
  | (none, _) => some none
  | (some fd0, st) =>
    match calls.ece391Open f1 st with
    | (none, _) => some none
    | (some fd1, st) => (addRows calls fd0 fd1 local_ n n 0 ⟨⟨48, false⟩, ⟨48, false⟩, blink, st⟩).map some

/-! ## What is drawn -/

/-- Two characters at a place. -/
structure Cell where
  row : Nat
  col : Nat
  on : UInt8
  off : UInt8
  deriving DecidableEq

/-- A place at which not both pictures are blank. -/
def ink (row col : Nat) (on off : UInt8) : List Cell := if on = 32 ∧ off = 32 then [] else [⟨row, col, on, off⟩]

/-- The places of a row from a column on, the shorter line filled up with blanks. -/
def rowCells (row col : Nat) (a b : List UInt8) : List Cell :=
  (List.range (max a.length b.length)).flatMap fun c => ink row (col + c) (a.getD c 32) (b.getD c 32)

/-- The places of all rows from one on, the shorter picture filled up with empty lines. -/
def cells (row : Nat) (as bs : List (List UInt8)) : List Cell :=
  (List.range (max as.length bs.length)).flatMap fun r => rowCells (row + r) 0 (as.getD r []) (bs.getD r [])

/-- A cell put on the screen. -/
def draw (local_ : BlinkStruct) (s : Blink) (c : Cell) : Blink :=
  (s.mp1IoctlAdd (drawn local_ c.row c.col c.on c.off)).2

theorem rowCells_step (row col : Nat) {a b : List UInt8} (h : ¬ (a = [] ∧ b = [])) :
    rowCells row col a b = ink row col (a.headD 32) (b.headD 32) ++ rowCells row (col + 1) a.tail b.tail := by
  unfold rowCells
  rw [Padded.flatMap_range_max 32 (fun c x y => ink row (col + c) x y) h]
  simp only [Nat.add_zero, Nat.add_assoc, Nat.add_comm 1]

theorem cells_step (row : Nat) {as bs : List (List UInt8)} (h : ¬ (as = [] ∧ bs = [])) :
    cells row as bs = rowCells row 0 (as.headD []) (bs.headD []) ++ cells (row + 1) as.tail bs.tail := by
  unfold cells
  rw [Padded.flatMap_range_max [] (fun r a b => rowCells (row + r) 0 a b) h]
  simp only [Nat.add_zero, Nat.add_assoc, Nat.add_comm 1]

/-! ## The sides -/

/-- A file of which a text is left can be read, and what is left of another one stays. -/
def Reads (calls : Calls σ) (fd : Int) (left other : σ → List UInt8 → Prop) : Prop :=
  ∀ {st text}, left st text → ∃ st', calls.ece391Read fd 1 st = (some (text.take 1), st') ∧ left st' (text.drop 1) ∧
    ∀ {t}, other st t → other st' t

/-- What is left of another file stays when this one is closed, again and again. -/
def Closes (calls : Calls σ) (fd : Int) (other : σ → List UInt8 → Prop) : Prop :=
  ∀ {st t}, other st t → other (calls.ece391Close fd st).2 t

/-- The rest of the line that is being read, and the lines behind it. -/
def ahead (c : UInt8) (text : List UInt8) : List UInt8 × List (List UInt8) :=
  if c = 10 then ([], text.splitOn 10) else ((text.splitOn 10).headD [], (text.splitOn 10).tail)

/-- What is left on a side: a rest of a line and the lines behind it. -/
def Side.At (left : σ → List UInt8 → Prop) (s : Side) (st : σ) (p : List UInt8 × List (List UInt8)) : Prop :=
  if s.eof then s.c = 10 ∧ p = ([], []) else ∃ text, left st text ∧ p = ahead s.c text

theorem Side.At.mono {left : σ → List UInt8 → Prop} {s : Side} {st st' : σ} {p : List UInt8 × List (List UInt8)}
    (h : s.At left st p) (hleft : s.eof = false → ∀ {t}, left st t → left st' t) : s.At left st' p := by
  unfold Side.At at h ⊢
  split_ifs at h ⊢ with heof
  · exact h
  · obtain ⟨text, ht, hp⟩ := h
    exact ⟨text, hleft (by simpa using heof) ht, hp⟩

/-- The next character is the next one of the line, or its end. -/
theorem readChar_spec {calls : Calls σ} {fd : Int} {left other : σ → List UInt8 → Prop} (h : Reads calls fd left other)
    {s : Side} {st : σ} {p : List UInt8 × List (List UInt8)} (hs : s.At left st p) :
    let r := readChar calls fd s st
    r.1.At left r.2 (p.1.tail, p.2) ∧ r.1.c = p.1.headD 10 ∧ 10 ∉ p.1.head? ∧ ∀ {t}, other st t → other r.2 t := by
  intro r
  by_cases hc : s.c = 10
  · have hr : r = (s, st) := if_neg (not_not.2 hc)
    have hp : p = ([], p.2) := by
      unfold Side.At ahead at hs
      split_ifs at hs
      · rw [hs.2]
      · obtain ⟨text, -, hp⟩ := hs
        rw [hp]
    rw [hr, hp]
    rw [hp] at hs
    exact ⟨hs, hc, nofun, id⟩
  unfold Side.At at hs
  by_cases heof : s.eof = true
  · rw [if_pos heof] at hs
    exact absurd hs.1 hc
  rw [if_neg heof] at hs
  obtain ⟨text, htext, rfl⟩ := hs
  obtain ⟨st', hst', hleft, hother⟩ := h htext
  rw [ahead, if_neg hc]
  cases text with
  | nil =>
    have hr : r = (⟨10, true⟩, st') := by
      simp only [r, readChar, if_pos hc, hst', List.take_nil]
    rw [hr]
    exact ⟨⟨rfl, rfl⟩, rfl, nofun, hother⟩
  | cons b text =>
    have hr : r = (⟨b, s.eof⟩, st') := by
      simp only [r, readChar, if_pos hc, hst', List.take_succ_cons, List.take_zero]
    rw [hr]
    refine ⟨?_, ?_⟩
    · unfold Side.At
      rw [if_neg heof]
      refine ⟨text, hleft, ?_⟩
      by_cases hb : b = 10
      · subst hb
        rw [Paper.splitOn_break]
        rfl
      · obtain ⟨l, ls, hl, hbl⟩ := Paper.splitOn_char hb text
        rw [hbl, ahead, if_neg hb, hl]
        rfl
    · by_cases hb : b = 10
      · subst hb
        rw [Paper.splitOn_break]
        exact ⟨rfl, nofun, hother⟩
      · obtain ⟨l, ls, -, hbl⟩ := Paper.splitOn_char hb text
        rw [hbl]
        exact ⟨rfl, fun hmem => hb (by simpa using hmem), hother⟩

theorem headD_eq_ten {p : List UInt8} (h : 10 ∉ p.head?) : p.headD 10 = 10 ↔ p = [] := by
  cases p with
  | nil => simp
  | cons b p => simpa using h

theorem headD_blank (p : List UInt8) :
    (if p.headD 10 = 10 then 32 else p.headD 10) = if p.headD 32 = 10 then 32 else p.headD 32 := by
  cases p with
  | nil => rfl
  | cons b p => rfl

/-- The end of a line is drawn as a blank. -/
theorem drawn_headD (local_ : BlinkStruct) (row col : Nat) (p0 p1 : List UInt8) :
    drawn local_ row col (p0.headD 10) (p1.headD 10) = drawn local_ row col (p0.headD 32) (p1.headD 32) := by
  rw [drawn, drawn, headD_blank, headD_blank]

/-- A character that is drawn. -/
theorem headD_ink {p : List UInt8} (h : 10 ∉ p.head?) : (p.headD 10 ≠ 32 ∧ p.headD 10 ≠ 10) ↔ p.headD 32 ≠ 32 := by
  cases p with
  | nil => simp
  | cons b p =>
    have hb : b ≠ 10 := by simpa using h
    simp [hb]

variable {calls : Calls σ} {fd0 fd1 : Int} {left0 left1 : σ → List UInt8 → Prop}

/-- What is left on both sides. -/
structure Between (left0 left1 : σ → List UInt8 → Prop) (p0 p1 : List UInt8 × List (List UInt8)) (g : Frames σ) : Prop where
  at0 : g.side0.At left0 g.calls p0
  at1 : g.side1.At left1 g.calls p1

/-- The rest of a row is read and drawn. -/
theorem addRow_spec (h0 : Reads calls fd0 left0 left1) (h1 : Reads calls fd1 left1 left0) (local_ : BlinkStruct)
    (row : Nat) {ps0 ps1 : List (List UInt8)} : ∀ {k j : Nat} {p0 p1 : List UInt8} {g : Frames σ},
    Between left0 left1 (p0, ps0) (p1, ps1) g → max p0.length p1.length < k →
      ∃ g', addRow calls fd0 fd1 local_ row k j g = some g' ∧ Between left0 left1 ([], ps0) ([], ps1) g' ∧
        g'.side0.c = 10 ∧ g'.side1.c = 10 ∧ g'.blink = (rowCells row j p0 p1).foldl (draw local_) g.blink
  | 0, _, _, _, _, _, hk => absurd hk (Nat.not_lt_zero _)
  | k + 1, col, p0, p1, g, hg, hk => by
    obtain ⟨hat0, hc0, hhead0, hkeep1⟩ := readChar_spec h0 hg.at0
    obtain ⟨hat1, hc1, hhead1, hkeep0⟩ := readChar_spec h1 (hg.at1.mono fun _ => hkeep1)
    have hnext : Between left0 left1 (p0.tail, ps0) (p1.tail, ps1)
        { g with
          side0 := (readChar calls fd0 g.side0 g.calls).1
          side1 := (readChar calls fd1 g.side1 (readChar calls fd0 g.side0 g.calls).2).1
          calls := (readChar calls fd1 g.side1 (readChar calls fd0 g.side0 g.calls).2).2 } :=
      ⟨hat0.mono fun _ => hkeep0, hat1⟩
    unfold addRow
    dsimp only at hc0 hc1 hhead0 hhead1 ⊢
    by_cases hend : p0 = [] ∧ p1 = []
    · obtain ⟨rfl, rfl⟩ := hend
      rw [if_pos ⟨hc0, hc1⟩]
      exact ⟨_, rfl, hnext, hc0, hc1, rfl⟩
    · have hmore : ¬ (p0.headD 10 = 10 ∧ p1.headD 10 = 10) := by rwa [headD_eq_ten hhead0, headD_eq_ten hhead1]
      have hk' : max p0.tail.length p1.tail.length < k := by
        have hpos : 0 < max p0.length p1.length := by
          by_contra h0
          exact hend ⟨List.eq_nil_of_length_eq_zero (by omega), List.eq_nil_of_length_eq_zero (by omega)⟩
        simp only [List.length_tail]
        omega
      have hdrawn := or_congr (headD_ink hhead0) (headD_ink hhead1)
      rw [hc0, hc1, if_neg hmore, rowCells_step row col hend]
      by_cases hink : p0.headD 32 = 32 ∧ p1.headD 32 = 32
      · rw [if_neg fun hor => (hdrawn.1 hor).elim (· hink.1) (· hink.2), ink, if_pos hink, List.nil_append]
        exact addRow_spec h0 h1 local_ row hnext hk'
      · rw [if_pos (hdrawn.2 (not_and_or.1 hink)), ink, if_neg hink, List.singleton_append, List.foldl_cons, draw,
          ← drawn_headD]
        exact addRow_spec h0 h1 local_ row ⟨hnext.at0, hnext.at1⟩ hk'

/-- At the start of a row: its line and those behind it, none at the end of the file. -/
def Side.AtRow (left : σ → List UInt8 → Prop) (s : Side) (st : σ) (lines : List (List UInt8)) : Prop :=
  if s.eof then s.c = 10 ∧ lines = [] else s.c ≠ 10 ∧ ∃ text, left st text ∧ lines = text.splitOn 10

theorem Side.AtRow.mono {left : σ → List UInt8 → Prop} {s : Side} {st st' : σ} {lines : List (List UInt8)}
    (h : s.AtRow left st lines) (hleft : s.eof = false → ∀ {t}, left st t → left st' t) : s.AtRow left st' lines := by
  unfold Side.AtRow at h ⊢
  split_ifs at h ⊢ with heof
  · exact h
  · obtain ⟨hc, text, ht, hl⟩ := h
    exact ⟨hc, text, hleft (by simpa using heof) ht, hl⟩

theorem Side.AtRow.toAt {left : σ → List UInt8 → Prop} {s : Side} {st : σ} {lines : List (List UInt8)}
    (h : s.AtRow left st lines) : s.At left st (lines.headD [], lines.tail) := by
  unfold Side.AtRow at h
  unfold Side.At
  split_ifs at h ⊢
  · obtain ⟨hc, rfl⟩ := h
    exact ⟨hc, rfl⟩
  · obtain ⟨hc, text, ht, rfl⟩ := h
    exact ⟨text, ht, by rw [ahead, if_neg hc]⟩

theorem Side.AtRow.eof_iff {left : σ → List UInt8 → Prop} {s : Side} {st : σ} {lines : List (List UInt8)}
    (h : s.AtRow left st lines) : s.eof = false ↔ lines ≠ [] := by
  unfold Side.AtRow at h
  split_ifs at h with heof
  · simp [heof, h.2]
  · obtain ⟨-, text, -, rfl⟩ := h
    exact iff_of_true (by simpa using heof) (List.splitOn_ne_nil 10 text)

/-- What stands behind the end of a line is a row. -/
theorem endLine_row (calls : Calls σ) (fd : Int) {left : σ → List UInt8 → Prop} {s : Side} {st : σ} {lines : List (List UInt8)}
    (hs : s.At left st ([], lines)) (hc : s.c = 10) :
    (endLine calls fd s st).1.AtRow left (endLine calls fd s st).2 lines := by
  unfold Side.At at hs
  unfold endLine Side.AtRow
  by_cases heof : s.eof = true
  · rw [if_pos heof] at hs ⊢
    rw [if_pos heof]
    exact ⟨rfl, congrArg Prod.snd hs.2⟩
  · rw [if_neg heof] at hs ⊢
    rw [if_neg heof]
    obtain ⟨text, ht, hp⟩ := hs
    rw [hc, ahead, if_pos rfl] at hp
    exact ⟨by show (48 : UInt8) ≠ 10; decide, text, ht, congrArg Prod.snd hp⟩

theorem Side.At.lines_ne_nil {left : σ → List UInt8 → Prop} {s : Side} {st : σ} {lines : List (List UInt8)}
    (hs : s.At left st ([], lines)) (hc : s.c = 10) (heof : s.eof = false) : lines ≠ [] := by
  unfold Side.At at hs
  rw [heof, if_neg Bool.false_ne_true] at hs
  obtain ⟨text, -, hp⟩ := hs
  rw [hc, ahead, if_pos rfl] at hp
  rw [show lines = text.splitOn 10 from congrArg Prod.snd hp]
  exact List.splitOn_ne_nil 10 text

/-- At the end of a line the other file, where it goes on, is kept if this one may be closed before it. -/
theorem endLine_keeps {fd : Int} {left other : σ → List UInt8 → Prop} {s : Side} {st : σ} {lines lines' : List (List UInt8)}
    (hs : s.At left st ([], lines)) (hclose : lines.length < lines'.length → Closes calls fd other) (hne : lines' ≠ []) :
    ∀ {t}, other st t → other (endLine calls fd s st).2 t := by
  intro t ht
  unfold endLine
  split_ifs with heof
  · refine hclose ?_ ht
    unfold Side.At at hs
    rw [if_pos heof] at hs
    rw [show lines = [] from congrArg Prod.snd hs.2]
    exact List.length_pos_of_ne_nil hne
  · exact ht

/-- All rows are read and drawn, if the file that ends first may be closed then. -/
theorem addRows_spec (h0 : Reads calls fd0 left0 left1) (h1 : Reads calls fd1 left1 left0) (local_ : BlinkStruct)
    {n : Nat} (hn : 0 < n) : ∀ {k row : Nat} {lines0 lines1 : List (List UInt8)} {g : Frames σ},
    g.side0.AtRow left0 g.calls lines0 → g.side1.AtRow left1 g.calls lines1 →
    (lines0.length < lines1.length → Closes calls fd0 left1) → (lines1.length < lines0.length → Closes calls fd1 left0) →
    (∀ l ∈ lines0 ++ lines1, l.length < n) → max lines0.length lines1.length < k →
      ∃ g', addRows calls fd0 fd1 local_ n k row g = some g' ∧
        g'.blink = (cells row lines0 lines1).foldl (draw local_) g.blink
  | 0, _, _, _, _, _, _, _, _, _, hk => absurd hk (Nat.not_lt_zero _)
  | k + 1, row, lines0, lines1, g, hg0, hg1, hclose0, hclose1, hlen, hk => by
    unfold addRows
    by_cases hend : lines0 = [] ∧ lines1 = []
    · rw [if_neg (by rw [hg0.eof_iff, hg1.eof_iff]; tauto)]
      obtain ⟨rfl, rfl⟩ := hend
      exact ⟨g, rfl, rfl⟩
    · rw [if_pos (by rw [hg0.eof_iff, hg1.eof_iff]; tauto)]
      have hhead : ∀ {l : List (List UInt8)}, (∀ a ∈ l, a.length < n) → (l.headD []).length < n := by
        intro l hl
        cases l with
        | nil => exact hn
        | cons a l => exact hl a List.mem_cons_self
      obtain ⟨g', hrow, hbetween, hc0, hc1, hblink⟩ := addRow_spec (k := n) (j := 0) h0 h1 local_ row
        ⟨hg0.toAt, hg1.toAt⟩ (max_lt (hhead fun a ha => hlen a (List.mem_append_left _ ha))
          (hhead fun a ha => hlen a (List.mem_append_right _ ha)))
      have hshorter : ∀ {l l' : List (List UInt8)}, l.tail.length < l'.tail.length → l.length < l'.length := by
        intro l l' hlt
        simp only [List.length_tail] at hlt
        omega
      have hrow0 := endLine_row calls fd0 hbetween.at0 hc0
      have hat1 := hbetween.at1.mono fun heof =>
        endLine_keeps hbetween.at0 (fun hlt => hclose0 (hshorter hlt)) (hbetween.at1.lines_ne_nil hc1 heof)
      have hrow0' := hrow0.mono fun heof =>
        endLine_keeps hat1 (fun hlt => hclose1 (hshorter hlt)) (hrow0.eof_iff.1 heof)
      have hlen' : ∀ l ∈ lines0.tail ++ lines1.tail, l.length < n := by
        intro l hl
        rcases List.mem_append.1 hl with hl | hl
        · exact hlen l (List.mem_append_left _ (List.mem_of_mem_tail hl))
        · exact hlen l (List.mem_append_right _ (List.mem_of_mem_tail hl))
      have hk' : max lines0.tail.length lines1.tail.length < k := by
        have hpos : 0 < max lines0.length lines1.length := by
          by_contra hzero
          exact hend ⟨List.eq_nil_of_length_eq_zero (by omega), List.eq_nil_of_length_eq_zero (by omega)⟩
        simp only [List.length_tail]
        omega
      rw [hrow, Option.bind_some, cells_step row hend, List.foldl_append, ← hblink]
      exact addRows_spec h0 h1 local_ hn hrow0' (endLine_row calls fd1 hat1 hc1) (fun hlt => hclose0 (hshorter hlt))
        (fun hlt => hclose1 (hshorter hlt)) hlen' hk'

/-! ## A file that is lost -/

/-- The second file cannot be read any more, and the program does not look for that. -/
def Loses (calls : Calls σ) (fd : Int) (lost : σ → Prop) : Prop :=
  ∀ {st}, lost st → ∃ st', calls.ece391Read fd 1 st = (none, st') ∧ lost st'

/-- Then a row never ends. -/
theorem addRow_lost {lost : σ → Prop} (hlost : Loses calls fd1 lost) (local_ : BlinkStruct) (row : Nat) :
    ∀ {k col : Nat} {g : Frames σ}, g.side0.c = 10 → g.side1.c ≠ 10 → lost g.calls →
      addRow calls fd0 fd1 local_ row k col g = none
  | 0, _, _, _, _, _ => rfl
  | k + 1, col, g, hc0, hc1, hg => by
    obtain ⟨st', hread, hst'⟩ := hlost hg
    have hr0 : readChar calls fd0 g.side0 g.calls = (g.side0, g.calls) := if_neg (not_not.2 hc0)
    have hr1 : readChar calls fd1 g.side1 g.calls = (g.side1, st') := by
      rw [readChar, if_pos hc1, hread]
    unfold addRow
    simp only [hr0, hr1]
    rw [if_neg fun h => hc1 h.2]
    split_ifs
    · exact addRow_lost hlost local_ row hc0 hc1 hst'
    · exact addRow_lost hlost local_ row hc0 hc1 hst'

theorem Side.At.eof_false {left : σ → List UInt8 → Prop} {s : Side} {st : σ} {lines : List (List UInt8)}
    (hs : s.At left st ([], lines)) (hne : lines ≠ []) : s.eof = false := by
  by_contra heof
  unfold Side.At at hs
  rw [if_pos (by simpa using heof)] at hs
  exact hne (congrArg Prod.snd hs.2)

/-- Where the end of the first file loses the second one, with more lines, the rows never end. -/
theorem addRows_lost (h0 : Reads calls fd0 left0 left1) (h1 : Reads calls fd1 left1 left0) {lost : σ → Prop}
    (hlost : Loses calls fd1 lost) (hbreaks : ∀ {st t}, left1 st t → lost (calls.ece391Close fd0 st).2)
    (local_ : BlinkStruct) {n : Nat} (hn : 0 < n) : ∀ {k row : Nat} {lines0 lines1 : List (List UInt8)} {g : Frames σ},
    g.side0.AtRow left0 g.calls lines0 → g.side1.AtRow left1 g.calls lines1 → lines0 ≠ [] →
    lines0.length < lines1.length → (∀ l ∈ lines0 ++ lines1, l.length < n) →
      addRows calls fd0 fd1 local_ n k row g = none
  | 0, _, _, _, _, _, _, _, _, _ => rfl
  | k + 1, row, lines0, lines1, g, hg0, hg1, hne, hlt, hlen => by
    obtain ⟨l0, ls0, rfl⟩ := List.exists_cons_of_ne_nil hne
    obtain ⟨l1, ls1, rfl⟩ := List.exists_cons_of_ne_nil (l := lines1) (by rintro rfl; simp at hlt)
    obtain ⟨g', hrow, hbetween, hc0, hc1, -⟩ := addRow_spec (k := n) (j := 0) h0 h1 local_ row
      ⟨hg0.toAt, hg1.toAt⟩ (max_lt (hlen l0 (by simp)) (hlen l1 (by simp)))
    have hlt' : ls0.length < ls1.length := by simpa using hlt
    have heof1 : g'.side1.eof = false := hbetween.at1.eof_false (List.ne_nil_of_length_pos (Nat.zero_lt_of_lt hlt'))
    unfold addRows
    rw [if_pos (Or.inl (hg0.eof_iff.2 hne)), hrow, Option.bind_some]
    have hend1 : ∀ st, endLine calls fd1 g'.side1 st = (⟨48, false⟩, st) := fun st => by
      rw [endLine, heof1, if_neg Bool.false_ne_true]
    by_cases hnil : ls0 = []
    · -- the first file is closed here, and takes the second one along
      have heof0 : g'.side0.eof = true := by
        by_contra hfalse
        exact hbetween.at0.lines_ne_nil hc0 (by simpa using hfalse) hnil
      have hend0 : endLine calls fd0 g'.side0 g'.calls =
          (⟨10, true⟩, (calls.ece391Close fd0 g'.calls).2) := by
        rw [endLine, heof0, if_pos rfl]
      have hat1 := hbetween.at1
      unfold Side.At at hat1
      rw [heof1, if_neg Bool.false_ne_true] at hat1
      obtain ⟨t, ht, -⟩ := hat1
      simp only [hend0, hend1]
      cases k with
      | zero => rfl
      | succ k =>
        unfold addRows
        rw [if_pos (Or.inr rfl), addRow_lost hlost local_ (row + 1) rfl (by show (48 : UInt8) ≠ 10; decide) (hbreaks ht)]
        rfl
    · have heof0 : g'.side0.eof = false := hbetween.at0.eof_false hnil
      have hrow0 := endLine_row calls fd0 hbetween.at0 hc0
      have hrow1 := endLine_row calls fd1 hbetween.at1 hc1
      have hend0 : endLine calls fd0 g'.side0 g'.calls = (⟨48, false⟩, g'.calls) := by
        rw [endLine, heof0, if_neg Bool.false_ne_true]
      simp only [hend0, hend1] at hrow0 hrow1 ⊢
      exact addRows_lost h0 h1 hlost hbreaks local_ hn hrow0 hrow1 hnil hlt'
        fun l hl => hlen l (by simp only [List.mem_append, List.mem_cons] at hl ⊢; tauto)

/-! ## The cells -/

/-- The character that a text shows at a place: a blank behind the end of a line and below the last one. -/
def charAt (text : List UInt8) (row col : Nat) : UInt8 := ((text.splitOn 10).getD row []).getD col 32

/-- The cells of two pictures. -/
def pictures (text0 text1 : List UInt8) : List Cell := cells 0 (text0.splitOn 10) (text1.splitOn 10)

variable {text0 text1 : List UInt8}

theorem getD_eq_of_le {α : Type} {l : List α} {i : Nat} {a : α} (h : l.length ≤ i) : l.getD i a = a := by
  rw [List.getD_eq_getElem?_getD, List.getElem?_eq_none h]
  rfl

theorem charAt_below {row : Nat} (col : Nat) (h : (text0.splitOn 10).length ≤ row) : charAt text0 row col = 32 := by
  rw [charAt, getD_eq_of_le h]
  rfl

/-- There is a cell exactly where not both pictures are blank. -/
theorem mem_pictures {x : Cell} : x ∈ pictures text0 text1 ↔
    x.on = charAt text0 x.row x.col ∧ x.off = charAt text1 x.row x.col ∧ ¬ (x.on = 32 ∧ x.off = 32) := by
  unfold pictures cells rowCells ink
  simp only [List.mem_flatMap, List.mem_range, Nat.zero_add]
  constructor
  · rintro ⟨row, -, col, -, hx⟩
    split_ifs at hx with hblank
    · cases hx
    · rw [List.mem_singleton] at hx
      subst hx
      exact ⟨rfl, rfl, hblank⟩
  · rintro ⟨hon, hoff, hblank⟩
    have hrow : x.row < max (text0.splitOn 10).length (text1.splitOn 10).length := by
      by_contra hle
      rw [hon, hoff, charAt_below _ (by omega), charAt_below _ (by omega)] at hblank
      exact hblank ⟨rfl, rfl⟩
    have hcol : x.col < max ((text0.splitOn 10).getD x.row []).length ((text1.splitOn 10).getD x.row []).length := by
      by_contra hle
      rw [hon, hoff, charAt, charAt, getD_eq_of_le (by omega), getD_eq_of_le (by omega)] at hblank
      exact hblank ⟨rfl, rfl⟩
    refine ⟨x.row, hrow, x.col, hcol, ?_⟩
    rw [if_neg (by rwa [← charAt, ← charAt, ← hon, ← hoff]), List.mem_singleton, ← charAt, ← charAt, ← hon, ← hoff]

/-- The cells stand in the order in which they are read. -/
theorem pairwise_cells (as bs : List (List UInt8)) :
    (cells 0 as bs).Pairwise fun x y => x.row < y.row ∨ x.row = y.row ∧ x.col < y.col := by
  have hink : ∀ {row col : Nat} {a b : UInt8} {x : Cell}, x ∈ ink row col a b → x.row = row ∧ x.col = col := by
    intro row col a b x hx
    unfold ink at hx
    split_ifs at hx
    · cases hx
    · rw [List.mem_singleton] at hx
      exact hx ▸ ⟨rfl, rfl⟩
  have hrow : ∀ {row col : Nat} {a b : List UInt8} {x : Cell}, x ∈ rowCells row col a b → x.row = row := by
    intro row col a b x hx
    obtain ⟨c, -, hx⟩ := List.mem_flatMap.1 hx
    exact (hink hx).1
  refine List.pairwise_flatMap.2 ⟨fun r _ => List.pairwise_flatMap.2 ⟨fun c _ => ?_, ?_⟩, ?_⟩
  · unfold ink
    split_ifs
    · exact List.Pairwise.nil
    · exact List.pairwise_singleton _ _
  · refine List.pairwise_lt_range.imp fun hlt x hx y hy => Or.inr ⟨?_, ?_⟩
    · rw [(hink hx).1, (hink hy).1]
    · rw [(hink hx).2, (hink hy).2]
      omega
  · refine List.pairwise_lt_range.imp fun hlt x hx y hy => Or.inl ?_
    rw [hrow hx, hrow hy]
    omega

/-- The pictures fit on the screen, right of column 40 of its first line and before its end. -/
def Fits (text0 text1 : List UInt8) : Prop :=
  ∀ row col, charAt text0 row col ≠ 32 ∨ charAt text1 row col ≠ 32 → col < 80 ∧ row * 80 + col + 40 < 2000

/-- Where a cell stands on the screen. -/
def Cell.place (x : Cell) : Nat := x.row * 80 + x.col + 40

/-- The structure that is put in for a cell. -/
def Cell.arg (local_ : BlinkStruct) (x : Cell) : BlinkStruct := drawn local_ x.row x.col x.on x.off

theorem place_lt {x : Cell} (h : Fits text0 text1) (hx : x ∈ pictures text0 text1) : x.col < 80 ∧ x.place < 2000 := by
  obtain ⟨hon, hoff, hblank⟩ := mem_pictures.1 hx
  refine h x.row x.col ?_
  rw [← hon, ← hoff]
  exact not_and_or.1 hblank

theorem location_arg {x : Cell} (local_ : BlinkStruct) (h : x.place < 2000) : (x.arg local_).location.toNat = x.place := by
  show (UInt16.ofNat x.place).toNat = x.place
  rw [UInt16.toNat_ofNat', Nat.mod_eq_of_lt (by omega)]

/-- No two of the pictures' cells are at one place. -/
theorem nodup_locations (local_ : BlinkStruct) (h : Fits text0 text1) :
    ((pictures text0 text1).map fun x => (x.arg local_).location).Nodup := by
  refine List.pairwise_map.2 ((pairwise_cells _ _).imp_of_mem fun {x y} hx hy hlt heq => ?_)
  obtain ⟨hx, hx'⟩ := place_lt h hx
  obtain ⟨hy, hy'⟩ := place_lt h hy
  have hplace : x.place = y.place := by rw [← location_arg local_ hx', heq, location_arg local_ hy']
  unfold Cell.place at hplace
  omega

/-! ## main -/

/-- The character that `main` puts in between the two pictures. -/
def im (local_ : BlinkStruct) : BlinkStruct :=
  { local_ with onChar := 73, offChar := 77, onLength := 7, offLength := 6, location := 6 * 80 + 60 }

/-- `WAIT` tasklets. -/
def wait : List Blink.Op := List.replicate 200 .tasklet

/-- What `main` does behind `add_frames`. Before each tasklet it reads the clock, which only waits, and the argument of
`RTC_REMOVE` is the loop's `i`. -/
def mainOps (local_ : BlinkStruct) : List Blink.Op :=
  wait ++ [.add (im local_)] ++ wait ++ [.sync ((40 : UInt32) <<< (16 : UInt32) ||| (6 * 80 + 60))] ++ wait ++ [.remove 200] ++
    List.replicate 2000 .tasklet

/-- Two files are opened one after the other, each is read whatever is done with the other one, and the one with fewer
lines may be closed before the end of the other one. -/
def Serves (calls : Calls σ) (f0 f1 : CString) (text0 text1 : List UInt8) (st : σ) : Prop :=
  ∃ fd0 fd1 st0 st1 left0 left1, calls.ece391Open f0 st = (some fd0, st0) ∧ calls.ece391Open f1 st0 = (some fd1, st1) ∧
    left0 st1 text0 ∧ left1 st1 text1 ∧ Reads calls fd0 left0 left1 ∧ Reads calls fd1 left1 left0 ∧
    ((text0.splitOn 10).length < (text1.splitOn 10).length → Closes calls fd0 left1) ∧
    ((text1.splitOn 10).length < (text0.splitOn 10).length → Closes calls fd1 left0)

theorem addFrames_spec {f0 f1 : CString} {st : σ} (h : Serves calls f0 f1 text0 text1 st) (local_ : BlinkStruct)
    (blink : Blink) {n : Nat} (hn : max text0.length text1.length + 1 < n) :
    ∃ g, addFrames calls f0 f1 local_ n blink st = some (some g) ∧
      g.blink = (pictures text0 text1).foldl (draw local_) blink := by
  obtain ⟨fd0, fd1, st0, st1, left0, left1, hopen0, hopen1, hleft0, hleft1, h0, h1, hclose0, hclose1⟩ := h
  obtain ⟨hlen0, hlines0⟩ := Paper.splitOn_lines 10 text0
  obtain ⟨hlen1, hlines1⟩ := Paper.splitOn_lines 10 text1
  obtain ⟨g, hg, hblink⟩ := addRows_spec (n := n) (k := n) (g := ⟨⟨48, false⟩, ⟨48, false⟩, blink, st1⟩) h0 h1 local_
    (by omega) ⟨by show (48 : UInt8) ≠ 10; decide, text0, hleft0, rfl⟩
    ⟨by show (48 : UInt8) ≠ 10; decide, text1, hleft1, rfl⟩ hclose0 hclose1
    (fun l hl => by
      rcases List.mem_append.1 hl with hl | hl
      · have := (hlines0 l hl).2
        omega
      · have := (hlines1 l hl).2
        omega)
    (by omega)
  refine ⟨g, ?_, hblink⟩
  unfold addFrames
  rw [hopen0]
  dsimp only
  rw [hopen1]
  dsimp only
  rw [hg]
  rfl

/-- Where the end of the first file loses the second one, with more lines, `add_frames` does not come back. -/
theorem addFrames_lost {f0 f1 : CString} {st st0 st1 : σ} (hopen0 : calls.ece391Open f0 st = (some fd0, st0))
    (hopen1 : calls.ece391Open f1 st0 = (some fd1, st1)) (hleft0 : left0 st1 text0) (hleft1 : left1 st1 text1)
    (h0 : Reads calls fd0 left0 left1) (h1 : Reads calls fd1 left1 left0) {lost : σ → Prop} (hlost : Loses calls fd1 lost)
    (hbreaks : ∀ {st t}, left1 st t → lost (calls.ece391Close fd0 st).2)
    (hrows : (text0.splitOn 10).length < (text1.splitOn 10).length) (local_ : BlinkStruct) (blink : Blink) {n : Nat}
    (hn : max text0.length text1.length + 1 < n) : addFrames calls f0 f1 local_ n blink st = none := by
  have hrow : ∀ {left : σ → List UInt8 → Prop} {text : List UInt8}, left st1 text →
      Side.AtRow left ⟨48, false⟩ st1 (text.splitOn 10) := fun {left text} ht =>
    ⟨by show (48 : UInt8) ≠ 10; decide, text, ht, rfl⟩
  have hrows' : addRows calls fd0 fd1 local_ n n 0 ⟨⟨48, false⟩, ⟨48, false⟩, blink, st1⟩ = none := addRows_lost h0 h1 hlost
    hbreaks local_ (Nat.zero_lt_of_lt hn) (hrow hleft0) (hrow hleft1) (List.splitOn_ne_nil 10 text0) hrows fun l hl => by
      rcases List.mem_append.1 hl with hl | hl
      · have := ((Paper.splitOn_lines 10 text0).2 l hl).2
        omega
      · have := ((Paper.splitOn_lines 10 text1).2 l hl).2
        omega
  unfold addFrames
  rw [hopen0]
  dsimp only
  rw [hopen1]
  dsimp only
  rw [hrows']
  rfl

theorem drawn_arg {x : Cell} (local_ : BlinkStruct) (hx : x ∈ pictures text0 text1) :
    (x.arg local_).onChar = x.on ∧ (x.arg local_).offChar = x.off := by
  have hline : ∀ (text : List UInt8) (row col : Nat), charAt text row col ≠ 10 := by
    intro text row col heq
    unfold charAt at heq
    rw [List.getD_eq_getElem?_getD] at heq
    rcases hc : ((text.splitOn 10).getD row [])[col]? with _ | c <;> rw [hc] at heq
    · exact absurd heq (by decide)
    · obtain rfl : c = 10 := heq
      have hmem := List.mem_of_getElem? hc
      rw [List.getD_eq_getElem?_getD] at hmem
      rcases hl : (text.splitOn 10)[row]? with _ | l <;> rw [hl] at hmem
      · exact absurd hmem List.not_mem_nil
      · exact ((Paper.splitOn_lines 10 text).2 l (List.mem_of_getElem? hl)).1 hmem
  obtain ⟨hon, hoff, -⟩ := mem_pictures.1 hx
  constructor
  · show (if x.on = 10 then 32 else x.on) = x.on
    rw [if_neg (hon ▸ hline _ _ _)]
  · show (if x.off = 10 then 32 else x.off) = x.off
    rw [if_neg (hoff ▸ hline _ _ _)]

/-- The structures that are put in for two pictures. -/
def args (local_ : BlinkStruct) (text0 text1 : List UInt8) : List BlinkStruct :=
  (pictures text0 text1).map (Cell.arg local_)

theorem mem_args {local_ arg : BlinkStruct} :
    arg ∈ args local_ text0 text1 ↔ ∃ x ∈ pictures text0 text1, x.arg local_ = arg := List.mem_map

theorem foldl_draw (local_ : BlinkStruct) (s : Blink) : (pictures text0 text1).foldl (draw local_) s =
    (args local_ text0 text1).foldl (fun s arg => (s.mp1IoctlAdd arg).2) s := by
  rw [args, List.foldl_map]
  rfl

theorem args_location {local_ arg : BlinkStruct} (h : Fits text0 text1) (harg : arg ∈ args local_ text0 text1) :
    arg.location.toNat < 2000 ∧ arg.location ≠ 0 := by
  obtain ⟨x, hx, rfl⟩ := mem_args.1 harg
  obtain ⟨-, hlt⟩ := place_lt h hx
  have hloc := location_arg local_ hlt
  refine ⟨hloc ▸ hlt, fun h0 => ?_⟩
  rw [h0, Cell.place, UInt16.toNat_zero] at hloc
  omega

theorem args_nodup (local_ : BlinkStruct) (h : Fits text0 text1) : ((args local_ text0 text1).map (·.location)).Nodup := by
  rw [args, List.map_map]
  exact nodup_locations local_ h

/-- The elements of `blink_array` are enough for every place of the screen. -/
theorem args_length (local_ : BlinkStruct) (h : Fits text0 text1) : (args local_ text0 text1).length ≤ 2000 := by
  have hnd := (args_nodup local_ h).map (f := UInt16.toNat) fun a b => UInt16.toNat_inj.1
  have hsub : (((args local_ text0 text1).map (·.location)).map UInt16.toNat).toFinset ⊆ Finset.range 2000 := by
    intro p hp
    simp only [List.map_map, List.mem_toFinset, List.mem_map] at hp
    obtain ⟨arg, harg, rfl⟩ := hp
    exact Finset.mem_range.2 (args_location h harg).1
  have hcard := Finset.card_le_card hsub
  rwa [List.toFinset_card_of_nodup hnd, Finset.card_range, List.length_map, List.length_map] at hcard

/-- Places at which `main` puts something. -/
def Used (local_ : BlinkStruct) (text0 text1 : List UInt8) (p : UInt16) : Prop :=
  p = 540 ∨ ∃ arg ∈ args local_ text0 text1, p = arg.location

/-- After `add_frames` each cell blinks, and the rest of the screen is as it was. -/
theorem draw_pictures (h : Fits text0 text1) (local_ : BlinkStruct) (screen : Nat → UInt8) :
    (∀ arg ∈ args local_ text0 text1, ∃ n, Blink.Blinking arg n 0
      ((pictures text0 text1).foldl (draw local_) (Blink.start screen))) ∧
      Blink.Within (Used local_ text0 text1) screen ((pictures text0 text1).foldl (draw local_) (Blink.start screen)) := by
  rw [foldl_draw]
  constructor
  · obtain ⟨l, hl⟩ := (Blink.filled_start screen).foldl (fun arg harg => args_location h harg)
      (by rw [List.append_nil]; exact args_nodup local_ h) (by rw [List.append_nil]; exact args_length local_ h)
    exact fun arg harg => hl.blinking arg (List.mem_append_left _ (List.mem_reverse.2 harg))
  · refine Blink.Within.adds ⟨⟨[], Blink.listed_start screen, fun _ hm => absurd hm List.not_mem_nil⟩, fun _ _ => rfl⟩
      fun arg harg => ⟨Or.inr ⟨arg, harg, rfl⟩, (args_location h harg).2⟩

/-- Each operation of `main` leaves the cells alone, but for the places 540 and 200. -/
theorem mainOps_leavesAlone {local_ : BlinkStruct} {op : Blink.Op} (hop : op ∈ mainOps local_) {p : UInt16}
    (hp : p ≠ 540) (hp' : p ≠ 200) (s : Blink) : Blink.LeavesAlone p s op := by
  simp only [mainOps, wait, List.mem_append, List.mem_replicate, List.mem_singleton] at hop
  rcases hop with ((((((hop | rfl) | hop) | rfl) | hop) | rfl) | hop)
  · exact hop.2 ▸ trivial
  · rintro (h | h)
    · exact absurd h.symm hp
    · exact absurd h (by show ¬ (6 * 80 + 60 : UInt16) = 0; decide)
  · exact hop.2 ▸ trivial
  · exact fun _ _ h => hp (h.symm.trans (by decide))
  · exact hop.2 ▸ trivial
  · exact fun h => hp' (h.symm.trans (by decide))
  · exact hop.2 ▸ trivial

theorem mainOps_putsAt {local_ : BlinkStruct} {op : Blink.Op} (hop : op ∈ mainOps local_) {places : UInt16 → Prop}
    (hplaces : places 540) : Blink.PutsAt places op := by
  simp only [mainOps, wait, List.mem_append, List.mem_replicate, List.mem_singleton] at hop
  rcases hop with ((((((hop | rfl) | hop) | rfl) | hop) | rfl) | hop)
  · exact hop.2 ▸ trivial
  · exact ⟨hplaces, by show ¬ (6 * 80 + 60 : UInt16) = 0; decide⟩
  · exact hop.2 ▸ trivial
  · trivial
  · exact hop.2 ▸ trivial
  · trivial
  · exact hop.2 ▸ trivial

/-! ## What is seen -/

/-- Not both pictures are blank at a place. -/
def Inked (text0 text1 : List UInt8) (row col : Nat) : Prop := charAt text0 row col ≠ 32 ∨ charAt text1 row col ≠ 32

/-- After so many tasklets the screen shows one of the pictures, but for two places that `main` uses otherwise, and what
was there before where both are blank. -/
structure Shows (text0 text1 : List UInt8) (screen : Nat → UInt8) (t : Nat) (s : Blink) : Prop where
  inked : ∀ row col, Inked text0 text1 row col → row * 80 + col + 40 ≠ 540 → row * 80 + col + 40 ≠ 200 →
    s.screen (2 * (row * 80 + col + 40)) = charAt (if t % 30 < 15 then text0 else text1) row col
  blank : ∀ a, (∀ row col, Inked text0 text1 row col → a ≠ 2 * (row * 80 + col + 40)) → a ≠ 2 * 540 → s.screen a = screen a

theorem inked_arg {row col : Nat} (local_ : BlinkStruct) (h : Inked text0 text1 row col) :
    ∃ arg ∈ args local_ text0 text1, arg.onChar = charAt text0 row col ∧ arg.offChar = charAt text1 row col ∧
      arg.onLength = 15 ∧ arg.offLength = 15 ∧ arg.location = UInt16.ofNat (row * 80 + col + 40) := by
  have hx : ⟨row, col, charAt text0 row col, charAt text1 row col⟩ ∈ pictures text0 text1 :=
    mem_pictures.2 ⟨rfl, rfl, not_and_or.2 h⟩
  obtain ⟨hon, hoff⟩ := drawn_arg local_ hx
  exact ⟨_, mem_args.2 ⟨_, hx, rfl⟩, hon, hoff, rfl, rfl, rfl⟩

/-- At every moment of `main` behind `add_frames`. -/
theorem draw_shows (h : Fits text0 text1) (local0 local1 : BlinkStruct) (screen : Nat → UInt8) {ops : List Blink.Op}
    (hops : ops <+: mainOps local1) :
    ∃ s, Machine.run Blink.step ((pictures text0 text1).foldl (draw local0) (Blink.start screen)) ops = some s ∧
      Shows text0 text1 screen (ops.count .tasklet) s := by
  obtain ⟨hblinking, hwithin⟩ := draw_pictures h local0 screen
  obtain ⟨s, hs, hblank⟩ := hwithin.run fun op hop => mainOps_putsAt (hops.subset hop) (Or.inl rfl)
  refine ⟨s, hs, fun row col hink h540 h200 => ?_, fun a ha ha' => hblank.screen a ?_⟩
  · obtain ⟨arg, harg, hon, hoff, honLength, hoffLength, hlocation⟩ := inked_arg local0 hink
    have hplace : arg.location.toNat = row * 80 + col + 40 := by
      rw [hlocation, UInt16.toNat_ofNat', Nat.mod_eq_of_lt]
      have := (h row col hink).2
      omega
    have hne : ∀ p : UInt16, p.toNat ≠ row * 80 + col + 40 → arg.location ≠ p := by
      rintro p hp rfl
      exact hp hplace
    obtain ⟨n, hn⟩ := hblinking arg harg
    have halone : Machine.Along Blink.step (fun _ op => ∀ s, Blink.LeavesAlone arg.location s op)
        ((pictures text0 text1).foldl (draw local0) (Blink.start screen)) ops :=
      Machine.along_of_mem _ fun op hop s =>
        mainOps_leavesAlone (hops.subset hop) (hne 540 (Ne.symm h540)) (hne 200 (Ne.symm h200)) s
    obtain ⟨s', hs', hblinking'⟩ := hn.run
      (Machine.along_mono (I := fun _ => True) (fun s _ _ hall => hall s) (fun _ _ _ _ _ _ => trivial) trivial halone)
    obtain rfl := Option.some.inj (hs.symm.trans hs')
    have hshows := hblinking'.screen
    rw [hplace, honLength, hoffLength, Nat.zero_add, turn, hon, hoff] at hshows
    rw [hshows]
    have hticks : ticks 15 = 15 := by decide
    rw [hticks]
    split_ifs <;> rfl
  · rintro p (rfl | ⟨arg, harg, rfl⟩)
    · exact ha'
    · obtain ⟨x, hx, rfl⟩ := mem_args.1 harg
      obtain ⟨hon, hoff, hink⟩ := mem_pictures.1 hx
      rw [location_arg local0 (place_lt h hx).2]
      exact ha x.row x.col (not_and_or.1 (by rwa [hon, hoff] at hink))

end Fish

end Os391
