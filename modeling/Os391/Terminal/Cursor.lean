/-
The cursor. From `terminal_open` on, whatever is typed and written, it stays on the screen and only cells of the
screen are accessed, until a tab is typed in the last four columns or a character deleted in the first one.
-/
import Os391.Base.Run
import Os391.Lib.Cells
import Os391.Terminal.Screens

namespace Os391

open Bytes Machine Console

namespace Kernel

variable {img : Image}

/-! ## Keystrokes and writes -/

/-- Whether a keystroke deletes a character. -/
def deletes (s : Kernel) (keystroke : UInt8) : Prop :=
  keystroke = 8 ∧ s.con.screenX < numCols - 1 ∧ atPrompt s.con = false ∧ s.counter ≠ 0

/-- The cells `keyboard_read` accesses. `terminal_switch` copies whole screens and prints nothing. -/
def keyCells (keystroke : UInt8) (s : Kernel) : List Int :=
  let x := s.con.screenX
  let y := s.con.screenY
  if keystroke = 9 then s.con.putsCells (ascii [' ', ' ', ' ', ' '])
  else if keystroke = 0xF8 then []
  else if keystroke = 0xFF then (s.con.clear.setCursor 0 0).putsCells prompt
  else if x ≥ numCols - 1 ∨ keystroke = 10 then
    (if y ≥ numRows - 1 then s.con.scrollUpCells else []) ++
      (if y ≥ numRows - 1 then s.con.scrollUp else s.con).putcCells 10
  else if keystroke = 8 then
    (List.range 7).map (fun (i : Nat) => index i y) ++
      if atPrompt s.con then []
      else if s.counter = 0 then []
      else (s.con.setx (x - 1)).putcCells 32
  else if keystroke ≥ 32 ∧ keystroke ≤ 126 ∧ s.counter < 127 then s.con.putcCells keystroke
  else []

/-- What happens to the cursor: a keystroke, or a text written. -/
inductive CursorOp
  | key (keystroke : UInt8) (r : Regs)
  | write (text : Buf) (length : Nat)

/-- One of these. -/
def cursorStep (img : Image) (s : Kernel) : CursorOp → Option (Outcome × Kernel)
  | .key k r => keyboardRead img k r s
  | .write text length =>
    let w := s.con.writeHelper text length
    some ((match w.1 with
      | some v => .ret v
      | none => .indeterminate), { s with con := w.2 })

/-- The cells it accesses. -/
def accesses (s : Kernel) : CursorOp → List Int
  | .key k _ => keyCells k s
  | .write text length => s.con.writeHelperCells text length

/-- The cursor is on the screen before and after, and only cells of the screen are accessed. -/
def StaysOnScreen (img : Image) (s : Kernel) (op : CursorOp) : Prop :=
  s.con.InScreen ∧ (∀ p ∈ s.accesses op, OnScreen p) ∧
    ∀ r, cursorStep img s op = some r → r.2.con.InScreen

/-- No tab in the last four columns, and no character deleted in the first column. -/
def SparesMargins (s : Kernel) : CursorOp → Prop
  | .key k _ => (k = 9 → s.con.screenX + 4 < numCols) ∧ (s.deletes k → 0 < s.con.screenX)
  | .write .. => True

instance (s : Kernel) (keystroke : UInt8) : Decidable (s.deletes keystroke) := inferInstanceAs (Decidable (_ ∧ _))

instance (s : Kernel) : ∀ op, Decidable (s.SparesMargins op)
  | .key .. => inferInstanceAs (Decidable (_ ∧ _))
  | .write .. => isTrue trivial

/-- A switch to a started terminal shows no character that `putc` takes for a line break. -/
def ShowsPlain (s : Kernel) : CursorOp → Prop
  | .key k _ => ∀ t ∈ s.switchTo k, s.started t = true → Plain fun a => s.mem (termArea t + a)
  | .write .. => True

/-! ## One step -/

/-- The displayed terminal is sound, and the cursors saved for the other started ones are on the screen. -/
structure Steady (s : Kernel) : Prop where
  con : s.con.Sound
  saved : ∀ t, t ≠ s.curTerminal → s.started t = true →
    0 ≤ (s.terminals t).posX ∧ (s.terminals t).posX < numCols ∧ 0 ≤ (s.terminals t).posY ∧ (s.terminals t).posY < numRows

theorem blanks_text : ∀ ch ∈ ascii [' ', ' ', ' ', ' '], ¬ (ch = 10 ∨ ch = 13) := by decide +kernel

theorem prompt_text : ∀ ch ∈ prompt, ¬ (ch = 10 ∨ ch = 13) := by decide +kernel

/-- The line break of `keyboard_read`. -/
theorem lineBreak_sound {c : Console} (h : c.Sound) :
    (∀ p ∈ (if c.screenY ≥ numRows - 1 then c.scrollUpCells else []) ++
      (if c.screenY ≥ numRows - 1 then c.scrollUp else c).putcCells 10, OnScreen p) ∧
    ((if c.screenY ≥ numRows - 1 then c.scrollUp else c).putc 10).Sound := by
  have hup : (∀ p ∈ if c.screenY ≥ numRows - 1 then c.scrollUpCells else [], OnScreen p) ∧
      (if c.screenY ≥ numRows - 1 then c.scrollUp else c).Sound ∧
      (if c.screenY ≥ numRows - 1 then c.scrollUp else c).screenY < numRows - 1 := by
    split
    · obtain ⟨hp, hs, hy⟩ := scrollUp_sound h.plain
      exact ⟨hp, hs, by rw [hy]; decide⟩
    · rename_i hy
      exact ⟨fun _ hp => absurd hp List.not_mem_nil, h, not_le.1 hy⟩
  obtain ⟨hp, hs, hy⟩ := hup
  obtain ⟨hput, hs'⟩ := putc_break hs hy (Or.inl rfl)
  exact ⟨List.forall_mem_append.2 ⟨hp, hput⟩, hs'⟩

theorem promptCells_onScreen {y : Int} (hy0 : 0 ≤ y) (hy : y < numRows) :
    ∀ p ∈ (List.range 7).map (fun (i : Nat) => index i y), OnScreen p := by
  intro p hp
  obtain ⟨i, hi, rfl⟩ := List.mem_map.1 hp
  rw [List.mem_range] at hi
  exact onScreen_index (by omega) (by unfold numCols; omega) hy0 hy

/-- The deletion of a character that is not in the first column. -/
theorem delete_sound {c : Console} (h : c.Sound) (hx : 0 < c.screenX) :
    (∀ p ∈ (c.setx (c.screenX - 1)).putcCells 32, OnScreen p) ∧
    (((c.setx (c.screenX - 1)).putc 32).setCursor (c.screenX - 1) c.screenY).Sound := by
  obtain ⟨-, hx1, hy0, hy⟩ := h.inScreen
  have hset : (c.setx (c.screenX - 1)).Sound := ⟨⟨by show 0 ≤ c.screenX - 1; omega, by show c.screenX - 1 < _; omega, hy0, hy⟩, h.plain⟩
  obtain ⟨hp, hs, -⟩ := putc_text hset (by decide : ¬ ((32 : UInt8) = 10 ∨ (32 : UInt8) = 13))
  exact ⟨hp, setCursor_sound hs.plain (by omega) (by omega) hy0 hy⟩

/-- A keystroke that displays no other terminal. -/
theorem key_sound {k : UInt8} {r : Regs} {s s' : Kernel} {o : Outcome} (h : s.con.Sound)
    (hq : s.SparesMargins (.key k r)) (hstay : s.switchTo k = none) (hr : keyboardRead img k r s = some (o, s')) :
    (∀ p ∈ keyCells k s, OnScreen p) ∧ s'.con.Sound := by
  obtain ⟨hx0, hx, hy0, hy⟩ := h.inScreen
  obtain ⟨htab, hdel⟩ := hq
  have hnone : ∀ p ∈ ([] : List Int), OnScreen p := fun _ hp => absurd hp List.not_mem_nil
  have hprompt := promptCells_onScreen hy0 hy
  obtain ⟨-, hst⟩ := stroke_of_keyboardRead hstay hr
  unfold keyCells
  simp only
  cases hst with
  | tab =>
    obtain ⟨hp, hs⟩ := puts_text h blanks_text
    exact ⟨hp, setCursor_sound hs.plain (by omega) (htab rfl) hy0 hy⟩
  | ctrlC => exact ⟨hnone, h⟩
  | ctrlL =>
    exact puts_text (setCursor_sound (plain_clear s.con) (le_refl 0) (by decide) (le_refl 0) (by decide)) prompt_text
  | enter =>
    rw [if_neg (show (10 : UInt8) ≠ 9 by decide), if_neg (show (10 : UInt8) ≠ 0xF8 by decide),
      if_neg (show (10 : UInt8) ≠ 0xFF by decide), if_pos (Or.inr rfl)]
    exact lineBreak_sound h
  | lineBreak hk h10 hx =>
    simp only [not_or] at hk
    rw [if_neg hk.1, if_neg hk.2.1, if_neg hk.2.2, if_pos (Or.inl hx)]
    exact lineBreak_sound h
  | atStart hx hp =>
    rw [if_neg (by decide), if_neg (by decide), if_neg (by decide), if_neg (by rintro (h | h) <;> contradiction), if_pos rfl]
    refine ⟨List.forall_mem_append.2 ⟨hprompt, ?_⟩, h⟩
    by_cases hat : atPrompt s.con = true
    · rw [if_pos hat]
      exact hnone
    · rw [if_neg hat, if_pos (hp.resolve_left hat)]
      exact hnone
  | delete hx hp h0 =>
    obtain ⟨hcells, hs⟩ := delete_sound h (hdel ⟨rfl, not_le.1 hx, Bool.not_eq_true _ ▸ hp, h0⟩)
    rw [if_neg (by decide), if_neg (by decide), if_neg (by decide), if_neg (by rintro (h | h) <;> contradiction), if_pos rfl,
      if_neg hp, if_neg h0]
    exact ⟨List.forall_mem_append.2 ⟨hprompt, hcells⟩, hs⟩
  | type hk h10 h8 hx hc =>
    have hk' : ¬ (k = 10 ∨ k = 13) := by
      rintro (rfl | rfl)
      · exact h10 rfl
      · exact absurd hc.1 (by decide)
    obtain ⟨hp, hs, -⟩ := putc_text h hk'
    simp only [not_or] at hk
    rw [if_neg hk.1, if_neg hk.2.1, if_neg hk.2.2, if_neg (by rintro (h | h) <;> contradiction), if_neg h8, if_pos hc]
    exact ⟨hp, hs⟩
  | press hk h10 h8 hx hc ht =>
    simp only [not_or] at hk
    rw [if_neg hk.1, if_neg hk.2.1, if_neg hk.2.2, if_neg (by rintro (h | h) <;> contradiction), if_neg h8, if_neg hc]
    exact ⟨hnone, h⟩
  | ignored hk h10 h8 hx hc =>
    simp only [not_or] at hk
    rw [if_neg hk.1, if_neg hk.2.1, if_neg hk.2.2, if_neg (by rintro (h | h) <;> contradiction), if_neg h8, if_neg hc]
    exact ⟨hnone, h⟩

/-- A switch key accesses no cell by itself. -/
theorem keyCells_switch {k : UInt8} {s : Kernel} {t : TermNum} (ht : s.switchTo k = some t) : keyCells k s = [] := by
  obtain ⟨hx, hk, -⟩ := switchTo_some ht
  unfold keyCells
  rcases switchKey_eq hk with rfl | rfl | rfl <;> simp [hx]

/-- What a switch to a started terminal displays. -/
theorem switched_sound {s : Kernel} {t : TermNum} (r : Regs) (h : Steady s) (hc : s.curTerminal ≠ t)
    (hst : s.started t = true) (hplain : Plain fun a => s.mem (termArea t + a)) :
    (enterTerminal t (leftFor t r s)).con.Sound := by
  have hview : (enterTerminal t (leftFor t r s)).view = s.savedView t := by
    rw [enterTerminal_view]
    exact left_savedView (s := pressed t s) t r (Ne.symm hc)
  obtain ⟨hx0, hx, hy0, hy⟩ := h.saved t (Ne.symm hc) hst
  have hpx : (enterTerminal t (leftFor t r s)).con.screenX = (s.terminals t).posX := congrArg View.x hview
  have hpy : (enterTerminal t (leftFor t r s)).con.screenY = (s.terminals t).posY := congrArg View.y hview
  refine ⟨⟨?_, ?_, ?_, ?_⟩, ?_⟩
  · rwa [hpx]
  · rwa [hpx]
  · rwa [hpy]
  · rwa [hpy]
  · intro x y hx0' hx' hy0' hy'
    have hcell : 0 ≤ cell x y ∧ cell x y < 4000 := by
      unfold cell
      unfold numCols numRows at *
      omega
    obtain ⟨n, hn⟩ := Int.eq_ofNat_of_zero_le hcell.1
    have hvideo : (enterTerminal t (leftFor t r s)).con.video (cell x y) = s.mem (termArea t + cell x y) := by
      rw [hn] at hcell ⊢
      have hi := congrFun (congrArg View.screen hview) ⟨n, Int.ofNat_lt.1 hcell.2⟩
      simpa only [view, savedView] using hi
    rw [hvideo]
    exact hplain x y hx0' hx' hy0' hy'

/-- A first switch has an entry forced on it, so its `execute` prints nothing. -/
theorem claimed_first {s : Kernel} {t : TermNum} (r : Regs) (hst : s.started t ≠ true) :
    (activate t (leftFor t r s)).claimed shell ≠ none := by
  rw [claimed_of_forced (forced_first r hst)]
  exact forced_first r hst

/-- What an `execute` with an entry to claim prints: nothing. -/
theorem execute_con {command : CString} {r : Regs} {s s' : Kernel} {o : Outcome} (hc : s.claimed command ≠ none)
    (h : execute img (some command) r s = some (o, s')) : s'.con = s.con := by
  rcases execute_cases h with ⟨hn, -⟩ | ⟨n, q, -, -, ⟨-, -, d, rfl⟩ | ⟨inode, d, fpos, -, ⟨-, rfl⟩ | ⟨eip, -, rfl⟩⟩⟩
  · exact absurd hn hc
  · rfl
  · rfl
  · rfl

/-- The positions saved for the terminals, after the displayed one was left. -/
theorem leftFor_saved {s : Kernel} {t : TermNum} (r : Regs) (h : Steady s) (u : TermNum) (hu : u = s.curTerminal ∨ s.started u = true) :
    0 ≤ ((leftFor t r s).terminals u).posX ∧ ((leftFor t r s).terminals u).posX < numCols ∧
      0 ≤ ((leftFor t r s).terminals u).posY ∧ ((leftFor t r s).terminals u).posY < numRows := by
  by_cases hc : u = s.curTerminal
  · have hview : (leftFor t r s).savedView s.curTerminal = s.view := left_savedView_self t r (pressed t s)
    have hpx : ((leftFor t r s).terminals s.curTerminal).posX = s.con.screenX := congrArg View.x hview
    have hpy : ((leftFor t r s).terminals s.curTerminal).posY = s.con.screenY := congrArg View.y hview
    rw [hc, hpx, hpy]
    exact h.con.inScreen
  · rw [leftFor_terminals r (Ne.symm hc)]
    exact h.saved u hc (hu.resolve_left hc)

theorem key_steady {k : UInt8} {r : Regs} {s s' : Kernel} {o : Outcome} (h : Steady s)
    (hq : s.SparesMargins (.key k r)) (hp : s.ShowsPlain (.key k r)) (hr : keyboardRead img k r s = some (o, s')) :
    (∀ p ∈ keyCells k s, OnScreen p) ∧ Steady s' := by
  rcases ht : s.switchTo k with _ | t
  · obtain ⟨hcells, hs⟩ := key_sound h.con hq ht hr
    refine ⟨hcells, hs, ?_⟩
    obtain ⟨-, ⟨t, -, rfl⟩ | ⟨con, textBuf, counter, entered, dev, rfl⟩⟩ := keyboardRead_stay ht hr
    · intro u hu hsu
      rw [started_pressed] at hsu
      exact h.saved u hu hsu
    · exact h.saved
  refine ⟨by rw [keyCells_switch ht]; exact fun _ hp => absurd hp List.not_mem_nil, ?_⟩
  have hc := switchTo_ne ht
  by_cases hst : s.started t = true
  · rw [show keyboardRead img k r s = _ from key_started ht hst] at hr
    cases hr
    refine ⟨switched_sound r h hc hst (hp t ht hst), ?_⟩
    intro u hu hsu
    rw [enterTerminal_terminals]
    rw [started_enterTerminal, started_leftFor] at hsu
    exact leftFor_saved r h u (Or.inr hsu)
  · have hcall := call_first r ht hst
    have hstep : step img s (.key k r) = some (o, s') := hr
    obtain ⟨o', hex, -⟩ := step_call hcall hstep
    have hcon := execute_con (claimed_first r hst) hex
    obtain ⟨⟨hterm, hct, hf2, hf3, -⟩, -⟩ := execute_frame hex
    constructor
    · rw [hcon]
      exact setCursor_sound (plain_clear s.con) (le_refl 0) (by decide) (le_refl 0) (by decide)
    · intro u hu hsu
      have hut : u ≠ t := by
        rwa [hct, activate_curTerminal, leftFor_curTerminal] at hu
      rw [started_congr hf2 hf3, started_activate_ne hut, started_leftFor] at hsu
      rw [hterm, activate_terminals]
      exact leftFor_saved r h u (Or.inr hsu)

/-- `keyboard_read` always gets through. -/
theorem keyboardRead_total (k : UInt8) (r : Regs) (s : Kernel) : ∃ y, keyboardRead img k r s = some y := by
  rcases ht : s.switchTo k with _ | t
  · obtain ⟨s', h, -⟩ := @keyboardRead_stroke img k r s ht
    exact ⟨_, h⟩
  · by_cases hst : s.started t = true
    · exact ⟨_, key_started ht hst⟩
    · have hcall := call_first r ht hst
      obtain ⟨n, hn⟩ := Option.ne_none_iff_exists'.1 (claimed_first r hst)
      obtain ⟨q, hq⟩ := Option.isSome_iff_exists.1 (by decide +kernel : (words shell).isSome = true)
      have hex : ∃ e, execute img (some shell) r (activate t (leftFor t r s)) = some e := by
        rw [execute_claimed hn, hq]
        exact ⟨_, rfl⟩
      obtain ⟨⟨o', s'⟩, hex⟩ := hex
      obtain ⟨o, hs⟩ := call_step hcall hex
      exact ⟨_, hs⟩

/-- A step that stays on the screen spares the margins: a tab moves the cursor four columns on, a deletion one back. -/
theorem sparesMargins_of_stays {s : Kernel} {op : CursorOp} (h : StaysOnScreen img s op) : s.SparesMargins op := by
  cases op with
  | write => trivial
  | key k r =>
    obtain ⟨-, -, hstep⟩ := h
    constructor
    · rintro rfl
      have hr : cursorStep img s (.key 9 r) = some (.handled,
          { s with con := (s.con.puts (ascii [' ', ' ', ' ', ' '])).setCursor (s.con.screenX + 4) s.con.screenY }) := rfl
      exact (hstep _ hr).2.1
    · rintro ⟨rfl, hx, hat, hcounter⟩
      have hbreak : ¬ (s.con.screenX ≥ numCols - 1 ∨ (8 : UInt8) = 10) := by
        rintro (h | h)
        · exact absurd hx (not_lt.2 h)
        · cases h
      have hr : cursorStep img s (.key 8 r) = some (.handled, { s with
          con := ((s.con.setx (s.con.screenX - 1)).putc 32).setCursor (s.con.screenX - 1) s.con.screenY
          counter := s.counter - 1
          textBuf := setText (s.counter - 1).toNat 0 s.textBuf }) := by
        show keyboardRead img 8 r s = _
        unfold keyboardRead
        simp only [hat, hcounter, if_neg hbreak, if_true, if_false, Bool.false_eq_true]
        rfl
      have hx0 : 0 ≤ s.con.screenX - 1 := (hstep _ hr).1
      omega

theorem step_steady {s : Kernel} {op : CursorOp} (h : Steady s) (hp : s.ShowsPlain op) (hq : s.SparesMargins op) :
    (∀ p ∈ s.accesses op, OnScreen p) ∧ ∀ r, cursorStep img s op = some r → Steady r.2 := by
  cases op with
  | write text length =>
    obtain ⟨hcells, hs⟩ := writeHelper_sound text length h.con
    refine ⟨hcells, ?_⟩
    rintro r hr
    cases hr
    exact ⟨hs, h.saved⟩
  | key k r =>
    obtain ⟨⟨o, s'⟩, hs⟩ : ∃ y, keyboardRead img k r s = some y := keyboardRead_total k r s
    obtain ⟨hcells, hs'⟩ := key_steady h hq hp hs
    refine ⟨hcells, ?_⟩
    rintro y hy
    have hy' : keyboardRead img k r s = some y := hy
    rw [hs] at hy'
    cases hy'
    exact hs'

theorem stays_of_sparesMargins {s : Kernel} {op : CursorOp} (h : Steady s) (hp : s.ShowsPlain op)
    (hq : s.SparesMargins op) : StaysOnScreen img s op := by
  obtain ⟨hcells, hs⟩ : (∀ p ∈ s.accesses op, OnScreen p) ∧ ∀ r, cursorStep img s op = some r → Steady r.2 :=
    step_steady h hp hq
  exact ⟨h.con.inScreen, hcells, fun r hr => (hs r hr).con.inScreen⟩

/-! ## Runs -/

/-- From `terminal_open` on a plain screen, before any other terminal is started: the cursor and all accesses stay
on the screen exactly as long as no tab is typed in the last four columns and no character is deleted in the first.
The switches on the way show plain screens. -/
theorem cursor_onScreen_iff (img : Image) (s : Kernel) (hplain : Plain s.con.video)
    (hother : ∀ t, t ≠ s.curTerminal → s.started t = false) (ops : List CursorOp)
    (hshow : Along (cursorStep img) ShowsPlain s.terminalOpen.2 ops) :
    Along (cursorStep img) (StaysOnScreen img) s.terminalOpen.2 ops ↔
      Along (cursorStep img) SparesMargins s.terminalOpen.2 ops := by
  have hinit : Steady s.terminalOpen.2 := by
    constructor
    · exact setCursor_sound hplain (le_refl 0) (by decide) (le_refl 0) (by decide)
    · intro t ht hst
      have hst' : s.started t = true := by
        rw [← hst]
        exact (started_congr rfl rfl t).symm
      rw [hother t ht] at hst'
      cases hst'
  refine along_iff_under (I := Steady) ?_ ?_ hinit hshow
  · intro s op h hp
    exact ⟨sparesMargins_of_stays, stays_of_sparesMargins h hp⟩
  · intro s op r h hp hq hr
    exact (step_steady h hp hq).2 r hr

/-- Keys other than those of the terminals show no saved screen. -/
theorem showsPlain_of_switchKey {s : Kernel} {k : UInt8} {r : Regs} (hk : switchKey k = none) :
    s.ShowsPlain (.key k r) := by
  intro t ht
  obtain ⟨-, hk', -⟩ := switchTo_some (Option.mem_def.1 ht)
  rw [hk] at hk'
  cases hk'

/-- A tab, a character typed and deleted, a text written and the line ended. -/
def fewKeys : List CursorOp :=
  [.key 9 ⟨0, 0⟩, .key 97 ⟨0, 0⟩, .key 8 ⟨0, 0⟩, .write (fun i => (ascii ['o', 'k', '\n']).getD i 0) 3, .key 10 ⟨0, 0⟩]

theorem cursor_onScreen_few :
    Along (cursorStep .sample) SparesMargins boot.terminalOpen.2 fewKeys ∧
      Along (cursorStep .sample) (StaysOnScreen .sample) boot.terminalOpen.2 fewKeys := by
  have hq : Along (cursorStep .sample) SparesMargins boot.terminalOpen.2 fewKeys := by decide +kernel
  refine ⟨hq, (cursor_onScreen_iff .sample boot (plain_clear _) ?_ fewKeys ?_).2 hq⟩
  · rintro (_ | _ | _) ht
    · exact absurd rfl ht
    · rfl
    · rfl
  · refine along_mono (I := fun _ => True) ?_ (fun _ _ _ _ _ _ => trivial) trivial
      (along_of_mem (R := fun op => ∀ s : Kernel, s.ShowsPlain op) _ ?_)
    · exact fun s op _ h => h s
    · simp only [fewKeys, List.mem_cons, List.not_mem_nil, or_false]
      rintro op (rfl | rfl | rfl | rfl | rfl) s
      · exact showsPlain_of_switchKey rfl
      · exact showsPlain_of_switchKey rfl
      · exact showsPlain_of_switchKey rfl
      · trivial
      · exact showsPlain_of_switchKey rfl

/-- Twenty tabs in the last row. -/
def tabs : List CursorOp := List.replicate 24 (.key 10 ⟨0, 0⟩) ++ List.replicate 20 (.key 9 ⟨0, 0⟩)

/-- A line typed up to the margin, one key more, which only breaks the line, and a character deleted. -/
def wrapped : List CursorOp := List.replicate 79 (.key 97 ⟨0, 0⟩) ++ [.key 98 ⟨0, 0⟩, .key 8 ⟨0, 0⟩]

/-- Tabs move the cursor past the margin, where the next tab writes past the last cell; a deletion in the first
column moves it to column -1. -/
theorem cursor_leaves_screen :
    (∃ s, run (cursorStep .sample) boot.terminalOpen.2 tabs = some s ∧ s.con.screenX = 80 ∧ s.con.screenY = 24 ∧
      2000 ∈ s.accesses (.key 9 ⟨0, 0⟩)) ∧
    ∃ s, run (cursorStep .sample) boot.terminalOpen.2 wrapped = some s ∧ s.con.screenX = -1 := by
  constructor
  · refine ⟨_, run_getD (by decide +kernel), ?_, ?_, ?_⟩
    · decide +kernel
    · decide +kernel
    · decide +kernel
  · exact ⟨_, run_getD (by decide +kernel), by decide +kernel⟩

end Kernel

end Os391
