/-
What the user sees of the line being typed: the characters from the end of the prompt to the cursor. They are those
of the buffer until a tab, a clear over a line begun, or a key in the last column.
-/
import Os391.Lib.Text
import Os391.Terminal.Cursor
import Os391.Terminal.Typing

namespace Os391

open Bytes Machine Line

namespace Console

/-- The characters displayed from cell `e` up to the cursor, row after row. -/
def shownFrom (c : Console) (e : Int) : List UInt8 :=
  (List.range (index c.screenX c.screenY - e).toNat).map fun (i : Nat) => c.video ((e + i) * 2)

theorem shownFrom_length (c : Console) (e : Int) :
    (c.shownFrom e).length = (index c.screenX c.screenY - e).toNat := by
  simp [shownFrom]

/-- Nothing is displayed between a cell and itself. -/
theorem shownFrom_cursor {c : Console} {e : Int} (h : index c.screenX c.screenY = e) : c.shownFrom e = [] :=
  List.eq_nil_of_length_eq_zero (by rw [shownFrom_length, h, sub_self]; rfl)

/-- A character printed left of the last column is displayed last. -/
theorem shownFrom_putc {c : Console} {ch : UInt8} {e : Int} (h : c.InScreen) (hx : c.screenX < numCols - 1)
    (hch : ¬ (ch = 10 ∨ ch = 13)) (he : e ≤ index c.screenX c.screenY) :
    (c.putc ch).shownFrom e = c.shownFrom e ++ [ch] := by
  obtain ⟨hpx, hpy⟩ := putc_cursor h hch
  have hx0 := h.1
  unfold numCols at hx
  have hplace : index (c.putc ch).screenX (c.putc ch).screenY = index c.screenX c.screenY + 1 := by
    rw [hpx, hpy]
    unfold index
    omega
  have hvideo : ∀ a, (c.putc ch).video a = if a = cell c.screenX c.screenY then ch
      else if a = cell c.screenX c.screenY + 1 then attrib else c.video a := by
    intro a
    rw [putc, if_neg hch]
  unfold shownFrom
  rw [hplace]
  obtain ⟨n, hn⟩ : ∃ n : Nat, index c.screenX c.screenY = e + n :=
    ⟨(index c.screenX c.screenY - e).toNat, by omega⟩
  have hcell : cell c.screenX c.screenY = (e + n) * 2 := by
    rw [← hn]
    rfl
  rw [hn, show (e + n + 1 - e).toNat = n + 1 by omega, show (e + n - e).toNat = n by omega, List.range_succ,
    List.map_append]
  congr 1
  · refine List.map_congr_left fun i hi => ?_
    have hlt := List.mem_range.1 hi
    rw [hvideo, hcell, if_neg (by omega), if_neg (by omega)]
  · rw [List.map_singleton, hvideo, hcell, if_pos rfl]

/-- A deletion takes the last displayed character away. -/
theorem shownFrom_delete {c : Console} {e : Int} (he : e < index c.screenX c.screenY) :
    (((c.setx (c.screenX - 1)).putc 32).setCursor (c.screenX - 1) c.screenY).shownFrom e = (c.shownFrom e).dropLast := by
  have hvideo : ∀ a, ((c.setx (c.screenX - 1)).putc 32).video a = if a = cell (c.screenX - 1) c.screenY then 32
      else if a = cell (c.screenX - 1) c.screenY + 1 then attrib else c.video a := by
    intro a
    rw [putc, if_neg (by decide)]
    rfl
  have hplace : index (c.screenX - 1) c.screenY = index c.screenX c.screenY - 1 := by
    unfold index
    omega
  obtain ⟨n, hn⟩ : ∃ n : Nat, index c.screenX c.screenY = e + n + 1 :=
    ⟨(index c.screenX c.screenY - e - 1).toNat, by omega⟩
  have hcell : cell (c.screenX - 1) c.screenY = (e + n) * 2 := by
    show index (c.screenX - 1) c.screenY * 2 = _
    omega
  show (List.range (index (c.screenX - 1) c.screenY - e).toNat).map _ = _
  rw [hplace, shownFrom, hn, show (e + n + 1 - 1 - e).toNat = n by omega, show (e + n + 1 - e).toNat = n + 1 by omega,
    List.range_succ, List.map_append, List.map_singleton, List.dropLast_concat]
  refine List.map_congr_left fun i hi => ?_
  have hlt := List.mem_range.1 hi
  rw [setCursor, hvideo, hcell, if_neg (by omega), if_neg (by omega)]

/-- A text without line breaks that ends before the last column. -/
theorem puts_print : ∀ {text : List UInt8} {c : Console}, c.InScreen → (∀ ch ∈ text, ¬ (ch = 10 ∨ ch = 13)) →
    c.screenX + text.length < numCols →
      (c.puts text).screenX = c.screenX + text.length ∧ (c.puts text).screenY = c.screenY
  | [], c, _, _, _ => ⟨(add_zero _).symm, rfl⟩
  | ch :: text, c, h, hch, hlen => by
    obtain ⟨hpx, hpy⟩ := putc_cursor h (hch ch List.mem_cons_self)
    have hx0 := h.1
    rw [List.length_cons] at hlen ⊢
    push_cast at hlen ⊢
    unfold numCols at hlen
    have hin := putc_inScreen h (hch ch List.mem_cons_self)
    obtain ⟨h1, h2⟩ := puts_print hin (fun ch' hm => hch ch' (List.mem_cons_of_mem _ hm))
      (by rw [hpx]; unfold numCols; omega)
    refine ⟨h1.trans ?_, h2.trans hpy⟩
    rw [hpx]
    omega

end Console

namespace Kernel

variable {img : Image}

/-! ## What is seen -/

/-- The keys of an echo: the printable ones, tab, backspace and Ctrl+L. -/
def IsEcho (k : UInt8) : Prop := (32 ≤ k ∧ k ≤ 126) ∨ k = 9 ∨ k = 8 ∨ k = 0xFF

/-- The characters of the buffer before the insertion position. -/
def submitted (s : Kernel) : List UInt8 := (List.ofFn s.textBuf).take s.counter.toNat

/-- The cell after the prompt: Ctrl+L displays a new prompt at the top, and a line broken at the bottom goes up by a
row. -/
def promptEnd (s : Kernel) (k : UInt8) (e : Int) : Int :=
  if k = 0xFF then 7
  else if k ≠ 9 ∧ s.con.screenX ≥ numCols - 1 ∧ s.con.screenY ≥ numRows - 1 then e - 80
  else e

/-- A key, with the cell after the prompt. -/
def echoStep (img : Image) (x : Kernel × Int) (k : UInt8 × Regs) : Option (Outcome × (Kernel × Int)) :=
  (keyStep img x.1 k).map fun y => (y.1, (y.2, promptEnd x.1 k.1 x.2))

/-- What is displayed after the prompt is what is submitted. -/
def Seen (x : Kernel × Int) : Prop := x.1.con.shownFrom x.2 = x.1.submitted

/-- No tab, no clear over a line begun, and no other key in the last column. -/
def EchoesKey (x : Kernel × Int) (k : UInt8 × Regs) : Prop :=
  k.1 ≠ 9 ∧ (k.1 = 0xFF → x.1.counter = 0) ∧ (k.1 ≠ 0xFF → x.1.con.screenX < numCols - 1)

instance decidableEchoesKey (x : Kernel × Int) (k : UInt8 × Regs) : Decidable (EchoesKey x k) :=
  inferInstanceAs (Decidable (_ ≠ _ ∧ (_ → _) ∧ (_ ≠ _ → _)))

/-- After the key, too, what is displayed after the prompt is what is submitted. -/
def SeenAfter (img : Image) (x : Kernel × Int) (k : UInt8 × Regs) : Prop :=
  ∃ y, echoStep img x k = some y ∧ Seen y.2

/-- A line typed after the prompt in one row: it is in the buffer, and displayed up to the cursor. -/
structure Echoes (x : Kernel × Int) (line : List UInt8) : Prop where
  buffer : ShowsLine x.1 line
  shown : x.1.con.shownFrom x.2 = line
  place : x.2 + line.length = Console.index x.1.con.screenX x.1.con.screenY
  row : line.length ≤ x.1.con.screenX
  screen : x.1.con.Sound

theorem ShowsLine.submitted {s : Kernel} {line : List UInt8} (h : ShowsLine s line) : s.submitted = line := by
  obtain ⟨hpos, ⟨hlen, htext⟩, -, -⟩ := h
  unfold Kernel.submitted
  rw [hpos]
  refine List.ext_getElem (by rw [List.length_take, List.length_ofFn]; omega) fun i hi hi' => ?_
  rw [List.getElem_take, List.getElem_ofFn]
  exact htext ⟨i, by omega⟩ _ (List.getElem?_eq_getElem hi')

theorem Echoes.seen {x : Kernel × Int} {line : List UInt8} (h : Echoes x line) : Seen x :=
  h.shown.trans h.buffer.submitted.symm

theorem echoes_start {s : Kernel} (h : s.con.Sound) (h0 : s.counter = 0) :
    Echoes (s, Console.index s.con.screenX s.con.screenY) [] where
  buffer := ⟨by rw [h0]; rfl, .nil, by simp, by simp⟩
  shown := Console.shownFrom_cursor rfl
  place := add_zero _
  row := h.inScreen.1
  screen := h

/-- A key that leaves the screen and the line alone. -/
theorem Echoes.frame {s s' : Kernel} {e : Int} {line : List UInt8} (h : Echoes (s, e) line) (hcon : s'.con = s.con)
    (hbuf : ShowsLine s' line) : Echoes (s', e) line := by
  obtain ⟨-, hshown, hplace, hrow, hscreen⟩ := h
  simp only [← hcon] at hshown hplace hrow hscreen
  exact ⟨hbuf, hshown, hplace, hrow, hscreen⟩

/-- A character typed left of the last column. -/
theorem Echoes.push {s s' : Kernel} {e : Int} {line : List UInt8} {k : UInt8} (h : Echoes (s, e) line)
    (hx : s.con.screenX < numCols - 1) (hk : ¬ (k = 10 ∨ k = 13)) (hcon : s'.con = s.con.putc k)
    (hbuf : ShowsLine s' (line ++ [k])) (hs : s'.con.Sound) : Echoes (s', e) (line ++ [k]) := by
  obtain ⟨-, hshown, hplace, hrow, hscreen⟩ := h
  simp only at hshown hplace hrow hscreen
  obtain ⟨hpx, hpy⟩ := Console.putc_cursor hscreen.inScreen hk
  unfold numCols at hx
  have hlen : ((line ++ [k]).length : Int) = line.length + 1 := by simp
  have hcursor : s'.con.screenX = s.con.screenX + 1 := by
    rw [hcon, hpx]
    omega
  refine ⟨hbuf, ?_, ?_, ?_, hs⟩
  · show s'.con.shownFrom e = _
    rw [hcon, Console.shownFrom_putc hscreen.inScreen hx hk (by omega), hshown]
  · show _ = Console.index s'.con.screenX s'.con.screenY
    rw [hcursor, hcon, hpy, hlen]
    unfold Console.index at hplace ⊢
    omega
  · show _ ≤ s'.con.screenX
    rw [hcursor, hlen]
    omega

/-- The last character deleted. -/
theorem Echoes.dropLast {s s' : Kernel} {e : Int} {line : List UInt8} (h : Echoes (s, e) line) (hl : line ≠ [])
    (hcon : s'.con = ((s.con.setx (s.con.screenX - 1)).putc 32).setCursor (s.con.screenX - 1) s.con.screenY)
    (hbuf : ShowsLine s' line.dropLast) (hs : s'.con.Sound) : Echoes (s', e) line.dropLast := by
  obtain ⟨-, hshown, hplace, hrow, hscreen⟩ := h
  simp only at hshown hplace hrow hscreen
  have hpos := List.length_pos_iff.2 hl
  have hlen : (line.dropLast.length : Int) = line.length - 1 := by
    rw [List.length_dropLast]
    omega
  refine ⟨hbuf, ?_, ?_, ?_, hs⟩
  · show s'.con.shownFrom e = _
    rw [hcon, Console.shownFrom_delete (by omega), hshown]
  · show _ = Console.index s'.con.screenX s'.con.screenY
    rw [hcon, hlen]
    show _ = Console.index (s.con.screenX - 1) s.con.screenY
    unfold Console.index at hplace ⊢
    omega
  · show _ ≤ s'.con.screenX
    rw [hcon, hlen]
    show _ ≤ s.con.screenX - 1
    omega

theorem IsEcho.switchTo {k : UInt8} (h : IsEcho k) (s : Kernel) : s.switchTo k = none := by
  refine switchTo_other ?_ s
  rintro (rfl | rfl | rfl) <;> exact absurd h (by unfold IsEcho; decide)

/-- A prompt after a clear ends in the top row. -/
theorem clearPrompt_cursor (c : Console) :
    ((c.clear.setCursor 0 0).puts prompt).screenX = 7 ∧ ((c.clear.setCursor 0 0).puts prompt).screenY = 0 :=
  Console.puts_print (Console.setCursor_sound (Console.plain_clear c) (le_refl 0) (by decide) (le_refl 0) (by decide)).inScreen
    prompt_text (by show (0 : Int) + (7 : Nat) < 80; decide)

/-- A key that is echoed keeps the line and the screen together. -/
theorem echoes_key {s s' : Kernel} {e : Int} {line : List UInt8} {k : UInt8} {r : Regs} (h : Echoes (s, e) line)
    (hk : IsEcho k) (hq : EchoesKey (s, e) (k, r)) (hr : keyboardRead img k r s = some (.handled, s')) :
    ∃ line', Echoes (s', promptEnd s k e) line' := by
  have hstay := hk.switchTo s
  obtain ⟨h9, hclear, hx⟩ := hq
  have hbuf := h.buffer
  simp only at h9 hclear hx hbuf
  have hdel : s.deletes k → 0 < s.con.screenX := by
    rintro ⟨-, -, -, h0⟩
    have hpos := List.length_pos_iff.2 (mt hbuf.counter_eq_zero.2 h0)
    have hrow := h.row
    simp only at hrow
    omega
  obtain ⟨-, hsound⟩ := key_sound h.screen ⟨fun h => absurd h h9, hdel⟩ hstay hr
  by_cases hFF : k = 0xFF
  · subst hFF
    obtain rfl : s' = { s with con := (s.con.clear.setCursor 0 0).puts prompt } :=
      (Prod.mk.inj (Option.some.inj hr)).2.symm
    obtain ⟨hcx, hcy⟩ := clearPrompt_cursor s.con
    obtain rfl : line = [] := hbuf.counter_eq_zero.1 (hclear rfl)
    have hat : Console.index ((s.con.clear.setCursor 0 0).puts prompt).screenX
        ((s.con.clear.setCursor 0 0).puts prompt).screenY = 7 := by
      rw [hcx, hcy]
      rfl
    exact ⟨[], hbuf.frame rfl rfl, Console.shownFrom_cursor hat, hat.symm, hsound.inScreen.1, hsound⟩
  have hx' := hx hFF
  have hend : promptEnd s k e = e := by
    unfold promptEnd
    rw [if_neg hFF, if_neg fun hc => absurd hc.2.1 (not_le.2 hx')]
  rw [hend]
  obtain ⟨-, hst⟩ := stroke_of_keyboardRead hstay hr
  cases hst with
  | tab => exact absurd rfl h9
  | ctrlC => exact absurd hk (by unfold IsEcho; decide)
  | enter => exact absurd hk (by unfold IsEcho; decide)
  | ctrlL => exact absurd rfl hFF
  | lineBreak _ _ hbreak => exact absurd hx' (not_lt.2 hbreak)
  | atStart => exact ⟨line, h.frame rfl (hbuf.frame rfl rfl)⟩
  | delete _ _ h0 =>
    exact ⟨line.dropLast, h.dropLast (mt hbuf.counter_eq_zero.2 h0) rfl (hbuf.dropLast h0 rfl rfl) hsound⟩
  | type _ h10 _ _ hc =>
    have h13 : k ≠ 13 := by
      rintro rfl
      exact absurd hc.1 (by decide)
    exact ⟨line ++ [k], h.push hx' (by simp [h10, h13]) rfl (hbuf.push h10 (hbuf.counter_lt.1 hc.2.2) rfl rfl) hsound⟩
  | press => exact ⟨line, h.frame rfl (hbuf.frame rfl rfl)⟩
  | ignored => exact ⟨line, h.frame rfl hbuf⟩

/-- As many characters are seen as are in the line. -/
theorem Seen.length {s : Kernel} {e : Int} {line : List UInt8} (h : Seen (s, e)) (hbuf : ShowsLine s line) :
    (Console.index s.con.screenX s.con.screenY - e).toNat = line.length := by
  rw [← Console.shownFrom_length, show s.con.shownFrom e = s.submitted from h, hbuf.submitted]

/-- A line break of `keyboard_read` goes to the start of the next row, or of the last one after a scroll. -/
theorem lineBreak_cursor {c : Console} (h : c.Sound) :
    ((if c.screenY ≥ numRows - 1 then c.scrollUp else c).putc 10).screenX = 0 ∧
      ((if c.screenY ≥ numRows - 1 then c.scrollUp else c).putc 10).screenY =
        if c.screenY ≥ numRows - 1 then numRows - 1 else c.screenY + 1 := by
  refine ⟨rfl, ?_⟩
  show (if c.screenY ≥ numRows - 1 then c.scrollUp else c).screenY + 1 = _
  split
  · obtain ⟨-, -, hy⟩ := Console.scrollUp_sound h.plain
    rw [hy]
    rfl
  · rfl

/-- A key after which the screen still shows the line is one that is echoed. -/
theorem seen_key {s s' : Kernel} {e : Int} {line : List UInt8} {k : UInt8} {r : Regs} (h : Echoes (s, e) line)
    (hk : IsEcho k) (hr : keyboardRead img k r s = some (.handled, s')) (hseen : Seen (s', promptEnd s k e)) :
    EchoesKey (s, e) (k, r) := by
  have hbuf := h.buffer
  have hplace := h.place
  obtain ⟨hx0, hx1, hy0, hy1⟩ := h.screen.inScreen
  simp only at hbuf hplace hx0 hx1 hy0 hy1
  unfold numCols at hx1
  unfold numRows at hy1
  have h9 : k ≠ 9 := by
    rintro rfl
    obtain rfl := (Prod.mk.inj (Option.some.inj hr)).2
    have hlen := hseen.length (hbuf.frame rfl rfl)
    have hcell : promptEnd s 9 e = e := by
      unfold promptEnd
      rw [if_neg (by decide), if_neg fun hc => hc.1 rfl]
    rw [hcell] at hlen
    simp only [Console.setCursor, Console.index] at hlen hplace
    omega
  refine ⟨h9, ?_, fun hFF => not_le.1 fun hx => ?_⟩
  · rintro rfl
    obtain rfl := (Prod.mk.inj (Option.some.inj hr)).2
    obtain ⟨hcx, hcy⟩ := clearPrompt_cursor s.con
    have hlen := hseen.length (hbuf.frame rfl rfl)
    simp only [hcx, hcy] at hlen
    exact hbuf.counter_eq_zero.2 (List.eq_nil_of_length_eq_zero hlen.symm)
  · simp only at hFF hx
    obtain ⟨-, hst⟩ := stroke_of_keyboardRead (hk.switchTo s) hr
    cases hst with
    | tab => exact h9 rfl
    | ctrlL => exact hFF rfl
    | ctrlC | enter => exact absurd hk (by unfold IsEcho; decide)
    | lineBreak =>
      obtain ⟨hcx, hcy⟩ := lineBreak_cursor h.screen
      simp only at hcx hcy
      have hlen := hseen.length (hbuf.frame rfl rfl)
      unfold promptEnd at hlen
      simp only [if_neg hFF, h9, hx, ne_eq, not_false_eq_true, true_and, hcx, hcy] at hlen
      unfold Console.index numCols at hlen hplace
      unfold numCols numRows at *
      split at hlen <;> omega
    | atStart hx' | delete hx' | type _ _ _ hx' | press _ _ _ hx' | ignored _ _ _ hx' => exact hx' hx

/-- The prompt after Ctrl+L stands on a plain screen. -/
theorem prompted_sound : prompted.con.Sound := by
  have hclear := Console.setCursor_sound (Console.plain_clear firstShell.con) (le_refl 0) (by decide : (0 : Int) < numCols)
    (le_refl 0) (by decide : (0 : Int) < numRows)
  exact (Console.puts_text hclear prompt_text).2

/-! ## Runs -/

theorem echoStep_eq {x : Kernel × Int} {k : UInt8 × Regs} (hk : IsEcho k.1) :
    ∃ s', keyboardRead img k.1 k.2 x.1 = some (.handled, s') ∧
      echoStep img x k = some (.handled, (s', promptEnd x.1 k.1 x.2)) := by
  obtain ⟨s', hs, -⟩ := @keyboardRead_stroke img k.1 k.2 x.1 (hk.switchTo x.1)
  refine ⟨s', hs, ?_⟩
  rw [echoStep, keyStep, hs]
  rfl

theorem step_echoes {x : Kernel × Int} {k : UInt8 × Regs} {y : Outcome × (Kernel × Int)} (h : ∃ line, Echoes x line)
    (hk : IsEcho k.1) (hq : EchoesKey x k) (hy : echoStep img x k = some y) : ∃ line, Echoes y.2 line := by
  obtain ⟨line, h⟩ := h
  obtain ⟨s', hr, hs⟩ := @echoStep_eq img x k hk
  rw [hs] at hy
  cases hy
  exact echoes_key h hk hq hr

theorem seenAfter_iff {x : Kernel × Int} {k : UInt8 × Regs} (h : ∃ line, Echoes x line) (hk : IsEcho k.1) :
    SeenAfter img x k ↔ EchoesKey x k := by
  obtain ⟨line, h⟩ := h
  obtain ⟨s', hr, hs⟩ := @echoStep_eq img x k hk
  constructor
  · rintro ⟨y, hy, hseen⟩
    rw [hs] at hy
    cases hy
    exact seen_key h hk hr hseen
  · intro hq
    obtain ⟨line', h'⟩ := echoes_key h hk hq hr
    exact ⟨_, hs, h'.seen⟩

/-- After a prompt that ends at the cursor, what is displayed behind it is what will be submitted, from the start and
after every key, exactly when nothing is held yet and each key is echoed. -/
theorem seen_run (img : Image) (s : Kernel) (h : s.con.Sound) (keys : List (UInt8 × Regs))
    (hk : ∀ k ∈ keys, IsEcho k.1) :
    (Seen (s, Console.index s.con.screenX s.con.screenY) ∧
      Along (echoStep img) (SeenAfter img) (s, Console.index s.con.screenX s.con.screenY) keys) ↔
    (s.counter = 0 ∧
      Along (echoStep img) EchoesKey (s, Console.index s.con.screenX s.con.screenY) keys) := by
  have hempty : Seen (s, Console.index s.con.screenX s.con.screenY) ↔ s.counter = 0 := by
    unfold Seen submitted
    rw [Console.shownFrom_cursor rfl, eq_comm, List.take_eq_nil_iff, ← UInt32.toNat_inj]
    refine or_iff_left fun hnil => ?_
    have hlen := congrArg List.length hnil
    rw [List.length_ofFn] at hlen
    cases hlen
  rw [hempty]
  refine and_congr_right fun h0 => ?_
  exact along_iff_under (I := fun x => ∃ line, Echoes x line) (fun _ _ h hk => seenAfter_iff h hk)
    (fun _ _ _ h hk hq hy => step_echoes h hk hq hy) ⟨[], echoes_start h h0⟩ (along_of_mem _ hk)

/-- `l`, `x`, backspace, Ctrl+L over nothing and `s`, in a first shell. -/
theorem seen_run_ls :
    Seen (prompted, Console.index prompted.con.screenX prompted.con.screenY) ∧
      Along (echoStep .sample) (SeenAfter .sample) (prompted, Console.index prompted.con.screenX prompted.con.screenY)
        ([108, 8, 0xFF, 108, 115].map fun k => (k, ⟨0, 0⟩)) :=
  (seen_run .sample prompted prompted_sound ([108, 8, 0xFF, 108, 115].map fun k => (k, ⟨0, 0⟩))
    (by unfold IsEcho; decide)).2 ⟨by decide +kernel, by decide +kernel⟩

/-- After `a` a tab is displayed as four blanks, and only the `a` is in the buffer. -/
theorem tab_not_seen :
    (run (echoStep .sample) (prompted, 7) [(97, ⟨0, 0⟩), (9, ⟨0, 0⟩)]).map (fun x => (x.1.con.shownFrom x.2, x.1.submitted)) =
        some ([97, 32, 32, 32, 32], [97]) ∧
      Console.index prompted.con.screenX prompted.con.screenY = 7 ∧
      ¬ Along (echoStep .sample) (SeenAfter .sample) (prompted, 7) [(97, ⟨0, 0⟩), (9, ⟨0, 0⟩)] := by
  have hrun : (run (echoStep .sample) (prompted, 7) [(97, ⟨0, 0⟩), (9, ⟨0, 0⟩)]).map
      (fun x => (x.1.con.shownFrom x.2, x.1.submitted)) = some ([97, 32, 32, 32, 32], [97]) := by decide +kernel
  refine ⟨hrun, by decide +kernel, ?_⟩
  rintro ⟨⟨y, hy, -⟩, hrest⟩
  obtain ⟨⟨z, hz, hseen⟩, -⟩ := hrest y hy
  rw [run, hy, Option.bind_some, run, hz, Option.bind_some, run, Option.map_some, Option.some_inj, Prod.mk.injEq] at hrun
  rw [Seen, hrun.1, hrun.2] at hseen
  exact absurd hseen (by decide)

end Kernel

end Os391
