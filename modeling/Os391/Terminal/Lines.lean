/-
The line being edited in each terminal. The buffer is saved and restored with the terminal, but the
insertion position `counter` is not: the lines are kept apart as long as every switch to a started
terminal goes between lines of the same length.
-/
import Os391.Base.Line
import Os391.Base.Run
import Os391.Terminal.Spec

namespace Os391

open Bytes Machine Line

namespace Kernel

variable {img : Image}

/-! ## Editing -/

/-- What `keyboard_read` makes of the line of the displayed terminal: Enter ends it, a printable
character is appended while there is room, and BACKSPACE drops the last one unless the cursor stands
after a prompt. At the end of a screen line a keystroke only breaks the line and is lost. -/
def edit (s : Kernel) (k : UInt8) (line : List UInt8) : List UInt8 :=
  if k = 9 ∨ k = 0xF8 ∨ k = 0xFF then line
  else if k = 10 then []
  else if s.con.screenX ≥ numCols - 1 then line
  else if k = 8 then if atPrompt s.con then line else line.dropLast
  else if k ≥ 32 ∧ k ≤ 126 ∧ line.length < 127 then line ++ [k]
  else line

/-- The lines of the three terminals since their last Enter. -/
abbrev Lines := TermNum → List UInt8

/-- A keystroke edits the line of the terminal it is typed in. -/
def edited (s : Kernel) (op : Op) (L : Lines) : Lines :=
  match op with
  | .key k _ => Function.update L s.curTerminal (s.edit k (L s.curTerminal))
  | _ => L

/-- The line buffer up to the first newline. -/
def delivered (s : Kernel) : List UInt8 := (List.ofFn s.textBuf).takeWhile (· ≠ 10)

/-- The buffer and the insertion position are those of a line. -/
structure ShowsLine (s : Kernel) (line : List UInt8) : Prop where
  position : s.counter.toNat = line.length
  text : Holds s.textBuf line
  room : line.length ≤ 127
  noNewline : 10 ∉ line

/-- A switch to a started terminal goes between lines of the same length. -/
def SameLength (x : Kernel × Lines) : Op → Prop
  | .key k _ => ∀ t ∈ x.1.switchTo k, x.1.started t = true → (x.2 t).length = (x.2 x.1.curTerminal).length
  | _ => True

instance (x : Kernel × Lines) : ∀ op, Decidable (SameLength x op)
  | .key k _ => inferInstanceAs (Decidable (∀ t ∈ x.1.switchTo k, x.1.started t = true → _ = _))
  | .execute .. | .halt .. | .read .. | .write .. | .open .. | .close .. | .getargs .. | .vidmap .. | .setHandler
  | .sigreturn => isTrue trivial

theorem setText_eq (i : Nat) (b : UInt8) (buf : Fin 128 → UInt8) : setText i b buf = store i b buf := rfl

theorem edit_switch {s : Kernel} {k : UInt8} {t : TermNum} (h : s.switchTo k = some t) (line : List UInt8) :
    s.edit k line = line := by
  obtain ⟨-, hk, -⟩ := switchTo_some h
  unfold edit
  rcases switchKey_eq hk with rfl | rfl | rfl <;> simp

/-- A character typed at the end of the line. -/
theorem ShowsLine.push {s s' : Kernel} {line : List UInt8} {k : UInt8} (h : ShowsLine s line) (hk : k ≠ 10)
    (hlen : line.length < 127) (hc : s'.counter = s.counter + 1)
    (ht : s'.textBuf = setText s.counter.toNat k s.textBuf) : ShowsLine s' (line ++ [k]) := by
  obtain ⟨hpos, htext, hroom, hnl⟩ := h
  refine ⟨?_, ?_, by simp; omega, ?_⟩
  · have hone : (1 : UInt32).toNat = 1 := rfl
    rw [hc, UInt32.toNat_add, List.length_append, List.length_singleton]
    omega
  · rw [ht, hpos, setText_eq]
    exact htext.push k (by omega)
  · simp only [List.mem_append, List.mem_singleton, not_or]
    exact ⟨hnl, fun h => hk h.symm⟩

/-- The last character deleted. -/
theorem ShowsLine.dropLast {s s' : Kernel} {line : List UInt8} (h : ShowsLine s line) (h0 : s.counter ≠ 0)
    (hc : s'.counter = s.counter - 1) (ht : s'.textBuf = setText (s.counter - 1).toNat 0 s.textBuf) :
    ShowsLine s' line.dropLast := by
  obtain ⟨hpos, htext, hroom, hnl⟩ := h
  have h1 : (1 : UInt32) ≤ s.counter := by
    rw [UInt32.le_iff_toNat_le]
    have hne : s.counter.toNat ≠ 0 := fun h => h0 (UInt32.toNat_inj.1 h)
    have hone : (1 : UInt32).toNat = 1 := rfl
    omega
  have hsub : (s.counter - 1).toNat = line.length - 1 := by
    rw [UInt32.toNat_sub_of_le _ _ h1, hpos]; rfl
  refine ⟨?_, ?_, by simp; omega, fun hm => hnl (List.mem_of_mem_dropLast hm)⟩
  · rw [hc, hsub, List.length_dropLast]
  · rw [ht, hsub, setText_eq]
    exact htext.dropLast 0

/-- The newline of Enter ends the line. -/
theorem ShowsLine.enter {s : Kernel} {line : List UInt8} (h : ShowsLine s line) :
    (List.ofFn (setText s.counter.toNat 10 s.textBuf)).takeWhile (· ≠ 10) = line := by
  rw [h.position, setText_eq]
  exact h.text.delivered 10 (by have := h.room; omega) h.noNewline

theorem ShowsLine.counter_eq_zero {s : Kernel} {line : List UInt8} (h : ShowsLine s line) :
    s.counter = 0 ↔ line = [] := by
  rw [← UInt32.toNat_inj, h.position]
  exact List.length_eq_zero_iff

theorem ShowsLine.counter_lt {s : Kernel} {line : List UInt8} (h : ShowsLine s line) :
    s.counter < 127 ↔ line.length < 127 := by
  rw [UInt32.lt_iff_toNat_lt, h.position]
  rfl

theorem ShowsLine.frame {s s' : Kernel} {line : List UInt8} (h : ShowsLine s line) (hc : s'.counter = s.counter)
    (ht : s'.textBuf = s.textBuf) : ShowsLine s' line :=
  ⟨by rw [hc]; exact h.position, by rw [ht]; exact h.text, h.room, h.noNewline⟩

/-- A keystroke that stays edits the line in the buffer. -/
theorem key_showsLine {s s' : Kernel} {k : UInt8} {r : Regs} {o : Outcome} {line : List UInt8} (h : ShowsLine s line)
    (hs : s.switchTo k = none) (hr : keyboardRead img k r s = some (o, s')) :
    ShowsLine s' (s.edit k line) ∧ (k = 10 → s'.entered = true ∧ s'.delivered = line) := by
  obtain ⟨-, hst⟩ := stroke_of_keyboardRead hs hr
  unfold edit
  cases hst with
  | tab => exact ⟨h.frame rfl rfl, fun h10 => absurd h10 (by decide)⟩
  | ctrlC => exact ⟨h.frame rfl rfl, fun h10 => absurd h10 (by decide)⟩
  | ctrlL => exact ⟨h.frame rfl rfl, fun h10 => absurd h10 (by decide)⟩
  | enter => exact ⟨⟨rfl, .nil, by simp, by simp⟩, fun _ => ⟨rfl, h.enter⟩⟩
  | lineBreak hk h10 hx =>
    rw [if_neg hk, if_neg h10, if_pos hx]
    exact ⟨h.frame rfl rfl, fun h => absurd h h10⟩
  | atStart hx hp =>
    rw [if_neg (by decide), if_neg (by decide), if_neg hx, if_pos rfl]
    refine ⟨?_, fun h => absurd h (by decide)⟩
    by_cases hat : atPrompt s.con = true
    · rw [if_pos hat]
      exact h.frame rfl rfl
    · -- nothing to delete
      obtain rfl := h.counter_eq_zero.1 (hp.resolve_left hat)
      rw [if_neg hat]
      exact h.frame rfl rfl
  | delete hx hp h0 =>
    rw [if_neg (by decide), if_neg (by decide), if_neg hx, if_pos rfl, if_neg hp]
    exact ⟨h.dropLast h0 rfl rfl, fun h => absurd h (by decide)⟩
  | type hk h10 h8 hx hc =>
    rw [if_neg hk, if_neg h10, if_neg hx, if_neg h8, if_pos ⟨hc.1, hc.2.1, h.counter_lt.1 hc.2.2⟩]
    exact ⟨h.push h10 (h.counter_lt.1 hc.2.2) rfl rfl, fun h => absurd h h10⟩
  | press hk h10 h8 hx hc ht =>
    rw [if_neg hk, if_neg h10, if_neg hx, if_neg h8, if_neg fun hk => hc ⟨hk.1, hk.2.1, h.counter_lt.2 hk.2.2⟩]
    exact ⟨h.frame rfl rfl, fun h => absurd h h10⟩
  | ignored hk h10 h8 hx hc =>
    rw [if_neg hk, if_neg h10, if_neg hx, if_neg h8, if_neg fun hk => hc ⟨hk.1, hk.2.1, h.counter_lt.2 hk.2.2⟩]
    exact ⟨h, fun h => absurd h h10⟩

/-! ## The invariant -/

/-- The displayed terminal is started and shows its line, the buffers saved for the others hold theirs,
and nothing was typed in a terminal that is not started. -/
structure KeptApart (x : Kernel × Lines) : Prop where
  cur : x.1.started x.1.curTerminal = true
  idle : ∀ t, x.1.started t ≠ true → x.2 t = []
  shown : ShowsLine x.1 (x.2 x.1.curTerminal)
  hidden : ∀ t, t ≠ x.1.curTerminal → Holds (x.1.terminals t).tLinebuffer (x.2 t) ∧ (x.2 t).length ≤ 127 ∧ 10 ∉ x.2 t

/-- Nothing is typed yet. -/
theorem keptApart_start {s : Kernel} (hc : s.started s.curTerminal = true) (h0 : s.counter = 0) :
    KeptApart (s, fun _ => []) :=
  ⟨hc, fun _ _ => rfl, ⟨by rw [h0]; rfl, .nil, by simp, by simp⟩, fun t _ => ⟨.nil, by simp, by simp⟩⟩

/-- A step that leaves the terminals and the displayed line alone. -/
theorem KeptApart.frame {s s' : Kernel} {L : Lines} (h : KeptApart (s, L)) (hterm : s'.terminals = s.terminals)
    (hct : s'.curTerminal = s.curTerminal) (hf2 : s'.term2Flag = s.term2Flag) (hf3 : s'.term3Flag = s.term3Flag)
    (htext : s'.textBuf = s.textBuf) (hcount : s'.counter = s.counter) : KeptApart (s', L) := by
  have hst := started_congr hf2 hf3
  refine ⟨by simp only [hct, hst]; exact h.cur, fun t ht => h.idle t (by rw [← hst]; exact ht), ?_, ?_⟩
  · have hs := h.shown
    simp only at hs ⊢
    rw [hct]
    exact hs.frame hcount htext
  · intro t ht
    simp only at ht ⊢
    rw [hct] at ht
    rw [hterm]
    exact h.hidden t ht

/-- A keystroke that stays. -/
theorem stay_keptApart {s s' : Kernel} {L : Lines} {k : UInt8} {r : Regs} {o : Outcome} (h : KeptApart (s, L))
    (hs : s.switchTo k = none) (hr : keyboardRead img k r s = some (o, s')) :
    KeptApart (s', edited s (.key k r) L) := by
  obtain ⟨hshown, -⟩ := key_showsLine h.shown hs hr
  have hframe : s'.terminals = s.terminals ∧ s'.curTerminal = s.curTerminal ∧ s'.term2Flag = s.term2Flag ∧
      s'.term3Flag = s.term3Flag := by
    obtain ⟨-, ⟨t, -, rfl⟩ | ⟨con, textBuf, counter, entered, dev, rfl⟩⟩ := keyboardRead_stay hs hr
    · exact ⟨rfl, rfl, rfl, rfl⟩
    · exact ⟨rfl, rfl, rfl, rfl⟩
  obtain ⟨hterm, hct, hf2, hf3⟩ := hframe
  have hst := started_congr hf2 hf3
  refine ⟨by simp only [hct, hst]; exact h.cur, fun t ht => ?_, ?_, ?_⟩
  · have hidle : s.started t ≠ true := by rw [← hst]; exact ht
    have hne : t ≠ s.curTerminal := fun he => hidle (by rw [he]; exact h.cur)
    show Function.update L s.curTerminal _ t = []
    rw [Function.update_of_ne hne]
    exact h.idle t hidle
  · show ShowsLine s' (Function.update L s.curTerminal _ s'.curTerminal)
    rw [hct, Function.update_self]
    exact hshown
  · intro t ht
    simp only at ht ⊢
    rw [hct] at ht
    show Holds (s'.terminals t).tLinebuffer (Function.update L s.curTerminal _ t) ∧ _
    rw [hterm]
    unfold edited
    simp only [Function.update_of_ne ht]
    exact h.hidden t ht

/-- The lines are the same before and after a switch. -/
theorem edited_switch {s : Kernel} {k : UInt8} {r : Regs} {t : TermNum} (ht : s.switchTo k = some t) (L : Lines) :
    edited s (.key k r) L = L := by
  unfold edited
  simp only [edit_switch ht, Function.update_eq_self]

theorem switch_textBuf {s : Kernel} {t : TermNum} {r : Regs} (h : s.curTerminal ≠ t) :
    (enterTerminal t (leftFor t r s)).textBuf = (s.terminals t).tLinebuffer := by
  have hterm := leftFor_terminals (t := t) r h
  simp only [enterTerminal, loadScreen, hterm]

theorem switch_counter (s : Kernel) (t : TermNum) (r : Regs) :
    (enterTerminal t (leftFor t r s)).counter = s.counter := by
  simp only [enterTerminal, loadScreen, leftFor, leaveTerminal, saveScreen, pressed]

/-- The line just left goes to its buffer; the other buffers stay. -/
theorem leftFor_hidden {s : Kernel} {L : Lines} (t : TermNum) (r : Regs) (h : KeptApart (s, L)) (u : TermNum) :
    Holds ((leftFor t r s).terminals u).tLinebuffer (L u) ∧ (L u).length ≤ 127 ∧ 10 ∉ L u := by
  by_cases hc : u = s.curTerminal
  · subst hc
    have hsaved : ((leftFor t r s).terminals s.curTerminal).tLinebuffer = s.textBuf := by
      show (Function.update s.terminals s.curTerminal _ s.curTerminal).tLinebuffer = _
      rw [Function.update_self]
      rfl
    rw [hsaved]
    exact ⟨h.shown.text, h.shown.room, h.shown.noNewline⟩
  · rw [leftFor_terminals r (fun h => hc h.symm)]
    exact h.hidden u hc

/-- A switch between lines of the same length. -/
theorem switch_keptApart {s : Kernel} {L : Lines} {k : UInt8} {r : Regs} {t : TermNum} (h : KeptApart (s, L))
    (ht : s.switchTo k = some t) (hst : s.started t = true) (hlen : (L t).length = (L s.curTerminal).length) :
    KeptApart (enterTerminal t (leftFor t r s), L) := by
  have hne := switchTo_ne ht
  obtain ⟨htext, hroom, hnl⟩ := h.hidden t hne.symm
  have hct : (enterTerminal t (leftFor t r s)).curTerminal = t := by
    rw [enterTerminal_curTerminal, leftFor_curTerminal]
  refine ⟨?_, fun u hu => ?_, ?_, fun u _ => ?_⟩
  · simp only
    rw [hct, started_enterTerminal, started_leftFor]
    exact hst
  · simp only at hu
    rw [started_enterTerminal, started_leftFor] at hu
    exact h.idle u hu
  · simp only
    rw [hct]
    refine ⟨?_, ?_, hroom, hnl⟩
    · rw [switch_counter, hlen]
      exact h.shown.position
    · rw [switch_textBuf hne]
      exact htext
  · simp only
    rw [enterTerminal_terminals]
    exact leftFor_hidden t r h u

/-- The first switch to a terminal: buffer and position are cleared for the shell to be started. -/
theorem activate_keptApart {s : Kernel} {L : Lines} {r : Regs} {t : TermNum} (h : KeptApart (s, L))
    (hst : s.started t ≠ true) : KeptApart (activate t (leftFor t r s), L) := by
  have hline : L t = [] := h.idle t hst
  have hct : (activate t (leftFor t r s)).curTerminal = t := leftFor_curTerminal t r s
  refine ⟨?_, fun u hu => ?_, ?_, fun u _ => leftFor_hidden t r h u⟩
  · simp only
    rw [hct]
    exact started_activate_self t _
  · apply h.idle u
    intro hs
    exact hu (started_activate (by rw [started_leftFor]; exact hs))
  · simp only
    rw [hct, hline]
    exact ⟨rfl, .nil, by simp, by simp⟩

/-- An `execute` leaves the terminals and the displayed line alone. -/
theorem call_keptApart {s s0 s' : Kernel} {L : Lines} {op : Op} {command : CString} {r : Regs} {o : Outcome}
    (h : KeptApart (s, L)) (hc : s.call op = some (command, r, s0)) (hs : step img s op = some (o, s')) :
    KeptApart (s', edited s op L) := by
  obtain ⟨o', hex, -⟩ := step_call hc hs
  obtain ⟨⟨hterm, hct, hf2, hf3, htext, hcount, -⟩, -⟩ := execute_frame hex
  rcases call_cases hc with ⟨rfl, rfl⟩ | ⟨status, n, rfl, -, -, rfl, rfl⟩ | ⟨k, t, rfl, ht, hst, rfl, rfl⟩
  · exact h.frame hterm hct hf2 hf3 htext hcount
  · exact h.frame hterm hct hf2 hf3 htext hcount
  · rw [edited_switch ht]
    exact (activate_keptApart h hst).frame hterm hct hf2 hf3 htext hcount

theorem step_keptApart {s s' : Kernel} {L : Lines} {op : Op} {o : Outcome} (h : KeptApart (s, L))
    (hq : SameLength (s, L) op) (hs : step img s op = some (o, s')) : KeptApart (s', edited s op L) := by
  rcases hcall : s.call op with _ | ⟨command, r, s0⟩
  · cases op with
    | execute c r =>
      cases c with
      | none => cases hs; exact h
      | some c => cases hcall
    | halt status r =>
      obtain ⟨n, -, -, rfl⟩ := halt_noCall hcall hs
      obtain ⟨-, hterm, hct, hf2, hf3, htext, hcount, -⟩ := haltProgram_frame n s
      exact h.frame hterm hct hf2 hf3 htext hcount
    | key k r =>
      rcases ht : s.switchTo k with _ | t
      · exact stay_keptApart h ht hs
      · have hst : s.started t = true := by
          by_contra hst
          simp only [call, ht] at hcall
          rw [if_neg hst] at hcall
          cases hcall
        rw [key_started ht hst] at hs
        obtain ⟨-, rfl⟩ := Prod.mk.inj (Option.some.inj hs)
        rw [edited_switch ht]
        exact switch_keptApart h ht hst (hq t ht hst)
    | _ =>
      obtain ⟨p, fdIndex, fdVal, fdRtc, slots, con, dev, user, entered, rfl, -⟩ := fileCall_eq rfl hs
      exact h.frame rfl rfl rfl rfl rfl rfl
  · exact call_keptApart h hcall hs

end Kernel

end Os391
