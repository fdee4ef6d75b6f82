/-
What one call or keystroke can do, for every operation: a file call keeps the processes and the
terminals; a keystroke edits, switches to a started terminal, or starts a shell; `halt` starts a
shell or goes back to the caller. Wherever a shell is started, `call` names the state in which
`execute` is called.
-/
import Os391.Process.Halt

namespace Os391

open Bytes

namespace Kernel

variable {img : Image}

/-! ## Keystrokes -/

/-- The terminal a keystroke switches to, if it is not the one displayed. At the end of a line the
switch keys only break the line. -/
def switchTo (s : Kernel) (keystroke : UInt8) : Option TermNum :=
  if s.con.screenX ≥ numCols - 1 then none
  else (switchKey keystroke).bind fun t => if s.curTerminal = t then none else some t

/-- The press flags as `keyboard_read` sets them for a switch key. -/
def pressed (t : TermNum) (s : Kernel) : Kernel :=
  { s with
    term2Press := s.term2Press || t = .t2
    term3Press := s.term3Press || t = .t3 }

/-- The state between the two halves of `terminal_switch`. -/
def leftFor (t : TermNum) (r : Regs) (s : Kernel) : Kernel :=
  { leaveTerminal r (pressed t s) with curTerminal := t }

@[simp] theorem started_leftFor (t c : TermNum) (r : Regs) (s : Kernel) : (leftFor t r s).started c = s.started c := by
  cases c <;> simp only [started, leftFor, leaveTerminal, saveScreen, pressed]

@[simp] theorem started_enterTerminal (t c : TermNum) (s : Kernel) : (enterTerminal t s).started c = s.started c := by
  cases c <;> simp only [started, enterTerminal, loadScreen]

@[simp] theorem leftFor_curTerminal (t : TermNum) (r : Regs) (s : Kernel) : (leftFor t r s).curTerminal = t := by
  simp only [leftFor]

@[simp] theorem leftFor_slots (t : TermNum) (r : Regs) (s : Kernel) : (leftFor t r s).slots = s.slots := by
  simp only [leftFor, leaveTerminal, saveScreen, pressed]

@[simp] theorem leftFor_pcblock (t : TermNum) (r : Regs) (s : Kernel) : (leftFor t r s).pcblock = s.pcblock := by
  simp only [leftFor, leaveTerminal, saveScreen, pressed]

@[simp] theorem leftFor_fdIndex (t : TermNum) (r : Regs) (s : Kernel) : (leftFor t r s).fdIndex = s.fdIndex := by
  simp only [leftFor, leaveTerminal, saveScreen, pressed]

@[simp] theorem leftFor_tasks (t : TermNum) (r : Regs) (s : Kernel) : (leftFor t r s).tasks = s.tasks := by
  simp only [leftFor, leaveTerminal, saveScreen, pressed]

@[simp] theorem leftFor_pc (t : TermNum) (r : Regs) (s : Kernel) : (leftFor t r s).pc = s.pc := by
  simp only [leftFor, leaveTerminal, saveScreen, pressed]

@[simp] theorem leftFor_cr3 (t : TermNum) (r : Regs) (s : Kernel) : (leftFor t r s).cr3 = s.cr3 := by
  simp only [leftFor, leaveTerminal, saveScreen, pressed]

@[simp] theorem leftFor_esp0 (t : TermNum) (r : Regs) (s : Kernel) : (leftFor t r s).esp0 = s.esp0 := by
  simp only [leftFor, leaveTerminal, saveScreen, pressed]

@[simp] theorem enterTerminal_fdIndex (t : TermNum) (s : Kernel) : (enterTerminal t s).fdIndex = s.fdIndex := by
  simp only [enterTerminal, loadScreen]

@[simp] theorem enterTerminal_curTerminal (t : TermNum) (s : Kernel) :
    (enterTerminal t s).curTerminal = s.curTerminal := by
  simp only [enterTerminal, loadScreen]

@[simp] theorem enterTerminal_slots (t : TermNum) (s : Kernel) : (enterTerminal t s).slots = s.slots := by
  simp only [enterTerminal, loadScreen]

@[simp] theorem enterTerminal_terminals (t : TermNum) (s : Kernel) : (enterTerminal t s).terminals = s.terminals := by
  simp only [enterTerminal, loadScreen]

/-- What is saved for the other terminals stays. -/
theorem leftFor_terminals {s : Kernel} {t c : TermNum} (r : Regs) (h : s.curTerminal ≠ c) :
    (leftFor t r s).terminals c = s.terminals c := Function.update_of_ne h.symm _ _

@[simp] theorem activate_pcblock (t : TermNum) (s : Kernel) : (activate t s).pcblock = s.pcblock := rfl

@[simp] theorem activate_fdIndex (t : TermNum) (s : Kernel) : (activate t s).fdIndex = s.fdIndex := rfl

@[simp] theorem activate_tasks (t : TermNum) (s : Kernel) : (activate t s).tasks = s.tasks := rfl

@[simp] theorem activate_pc (t : TermNum) (s : Kernel) : (activate t s).pc = s.pc := rfl

@[simp] theorem activate_curTerminal (t : TermNum) (s : Kernel) : (activate t s).curTerminal = s.curTerminal := rfl

@[simp] theorem activate_terminals (t : TermNum) (s : Kernel) : (activate t s).terminals = s.terminals := rfl

@[simp] theorem activate_slots (t : TermNum) (s : Kernel) : (activate t s).slots = s.slots := rfl

@[simp] theorem activate_cr3 (t : TermNum) (s : Kernel) : (activate t s).cr3 = s.cr3 := rfl

@[simp] theorem activate_esp0 (t : TermNum) (s : Kernel) : (activate t s).esp0 = s.esp0 := rfl

theorem started_activate {t c : TermNum} {s : Kernel} (h : s.started c = true) : (activate t s).started c = true := by
  cases c with
  | t1 => rfl
  | t2 => simp only [started, activate] at h ⊢; rw [h]; rfl
  | t3 => simp only [started, activate] at h ⊢; rw [h]; rfl

theorem started_activate_ne {t u : TermNum} (h : u ≠ t) (s : Kernel) : (activate t s).started u = s.started u := by
  cases u <;> cases t <;> first | exact absurd rfl h | simp [started, activate]

theorem started_activate_self (t : TermNum) (s : Kernel) : (activate t s).started t = true := by
  cases t <;> simp [started, activate]

theorem started_congr {s s' : Kernel} (h2 : s'.term2Flag = s.term2Flag) (h3 : s'.term3Flag = s.term3Flag)
    (c : TermNum) : s'.started c = s.started c := by
  cases c <;> simp only [started, h2, h3]

theorem switchKey_eq {k : UInt8} {t : TermNum} (h : switchKey k = some t) : k = 0xF5 ∨ k = 0xF6 ∨ k = 0xF7 := by
  unfold switchKey at h
  split at h
  · exact Or.inl rfl
  · exact Or.inr (Or.inl rfl)
  · exact Or.inr (Or.inr rfl)
  · cases h

/-- What a switch needs: room on the screen line, the key of a terminal, and another one displayed. -/
theorem switchTo_some {s : Kernel} {k : UInt8} {t : TermNum} (h : s.switchTo k = some t) :
    ¬ s.con.screenX ≥ numCols - 1 ∧ switchKey k = some t ∧ s.curTerminal ≠ t := by
  unfold switchTo at h
  split at h
  · cases h
  rename_i hx
  obtain ⟨t', hk, ht⟩ := Option.bind_eq_some_iff.1 h
  split at ht
  · cases ht
  · rename_i hne
    cases ht
    exact ⟨hx, hk, hne⟩

theorem switchTo_ne {s : Kernel} {k : UInt8} {t : TermNum} (h : s.switchTo k = some t) : s.curTerminal ≠ t :=
  (switchTo_some h).2.2

/-- The other keys switch nothing. -/
theorem switchTo_other {k : UInt8} (h : ¬ (k = 0xF5 ∨ k = 0xF6 ∨ k = 0xF7)) (s : Kernel) : s.switchTo k = none := by
  rcases ht : s.switchTo k with _ | t
  · rfl
  · exact absurd (switchKey_eq (switchTo_some ht).2.1) h

/-- A terminal key that does not switch is the one of the displayed terminal. -/
theorem switchTo_none {s : Kernel} {k : UInt8} {t : TermNum} (h : s.switchTo k = none)
    (hx : ¬ s.con.screenX ≥ numCols - 1) (hk : switchKey k = some t) : s.curTerminal = t := by
  by_contra hc
  unfold switchTo at h
  rw [if_neg hx, hk, Option.bind_some, if_neg hc] at h
  cases h

/-- The key of a terminal, with room on the screen line, calls `terminal_switch`. -/
theorem keyboardRead_switchKey {k : UInt8} {s : Kernel} {t : TermNum} (r : Regs) (hx : ¬ s.con.screenX ≥ numCols - 1)
    (hk : switchKey k = some t) : keyboardRead img k r s = terminalSwitch img t r (pressed t s) := by
  unfold keyboardRead
  rcases switchKey_eq hk with rfl | rfl | rfl <;> simp [hx, hk, pressed]

theorem keyboardRead_switch {k : UInt8} {r : Regs} {s : Kernel} {t : TermNum} (h : s.switchTo k = some t) :
    keyboardRead img k r s =
      if (leftFor t r s).started t then some (.handled, enterTerminal t (leftFor t r s))
      else (execute img (some shell) r (activate t (leftFor t r s))).map fun e =>
        match e.1 with
        | .enter eip => (.enter eip, e.2)
        | _ => (.handled, e.2) := by
  obtain ⟨hx, hk, hc⟩ := switchTo_some h
  have hcur : ¬ (pressed t s).curTerminal = t := hc
  rw [keyboardRead_switchKey r hx hk]
  unfold terminalSwitch
  rw [if_neg hcur]
  rfl

/-- What `keyboard_read` does with a keystroke that displays no other terminal, branch by branch. -/
inductive Stroke (s : Kernel) : UInt8 → Kernel → Prop
  | tab : Stroke s 9 { s with
      con := (s.con.puts (ascii [' ', ' ', ' ', ' '])).setCursor (s.con.screenX + 4) s.con.screenY }
  | ctrlC : Stroke s 0xF8 { s with dev := s.dev.sendEoi 8 }
  | ctrlL : Stroke s 0xFF { s with con := (s.con.clear.setCursor 0 0).puts prompt }
  | enter : Stroke s 10 { s with
      con := (if s.con.screenY ≥ numRows - 1 then s.con.scrollUp else s.con).putc 10
      textBuf := setText s.counter.toNat 10 s.textBuf
      counter := 0
      entered := true }
  | lineBreak {k : UInt8} (hk : ¬ (k = 9 ∨ k = 0xF8 ∨ k = 0xFF)) (h10 : k ≠ 10) (hx : s.con.screenX ≥ numCols - 1) :
      Stroke s k { s with con := (if s.con.screenY ≥ numRows - 1 then s.con.scrollUp else s.con).putc 10 }
  | atStart (hx : ¬ s.con.screenX ≥ numCols - 1) (h : atPrompt s.con = true ∨ s.counter = 0) :
      Stroke s 8 { s with dev := s.dev.sendEoi 1 }
  | delete (hx : ¬ s.con.screenX ≥ numCols - 1) (hp : atPrompt s.con ≠ true) (h0 : s.counter ≠ 0) :
      Stroke s 8 { s with
        con := ((s.con.setx (s.con.screenX - 1)).putc 32).setCursor (s.con.screenX - 1) s.con.screenY
        counter := s.counter - 1
        textBuf := setText (s.counter - 1).toNat 0 s.textBuf }
  | type {k : UInt8} (hk : ¬ (k = 9 ∨ k = 0xF8 ∨ k = 0xFF)) (h10 : k ≠ 10) (h8 : k ≠ 8)
      (hx : ¬ s.con.screenX ≥ numCols - 1) (hc : k ≥ 32 ∧ k ≤ 126 ∧ s.counter < 127) :
      Stroke s k { s with
        textBuf := setText s.counter.toNat k s.textBuf
        con := s.con.putc k
        counter := s.counter + 1 }
  | press {k : UInt8} {t : TermNum} (hk : ¬ (k = 9 ∨ k = 0xF8 ∨ k = 0xFF)) (h10 : k ≠ 10) (h8 : k ≠ 8)
      (hx : ¬ s.con.screenX ≥ numCols - 1) (hc : ¬ (k ≥ 32 ∧ k ≤ 126 ∧ s.counter < 127)) (ht : s.curTerminal = t) :
      Stroke s k (pressed t s)
  | ignored {k : UInt8} (hk : ¬ (k = 9 ∨ k = 0xF8 ∨ k = 0xFF)) (h10 : k ≠ 10) (h8 : k ≠ 8)
      (hx : ¬ s.con.screenX ≥ numCols - 1) (hc : ¬ (k ≥ 32 ∧ k ≤ 126 ∧ s.counter < 127)) : Stroke s k s

/-- A keystroke that displays no other terminal is handled. -/
theorem keyboardRead_stroke {k : UInt8} (r : Regs) {s : Kernel} (h : s.switchTo k = none) :
    ∃ s', keyboardRead img k r s = some (.handled, s') ∧ Stroke s k s' := by
  unfold keyboardRead
  simp only
  by_cases h9 : k = 9
  · subst h9
    exact ⟨_, rfl, .tab⟩
  rw [if_neg h9]
  by_cases hF8 : k = 0xF8
  · subst hF8
    exact ⟨_, rfl, .ctrlC⟩
  rw [if_neg hF8]
  by_cases hFF : k = 0xFF
  · subst hFF
    exact ⟨_, rfl, .ctrlL⟩
  rw [if_neg hFF]
  have hk : ¬ (k = 9 ∨ k = 0xF8 ∨ k = 0xFF) := by rintro (h | h | h) <;> contradiction
  by_cases h10 : k = 10
  · subst h10
    rw [if_pos (Or.inr rfl), if_pos rfl]
    exact ⟨_, rfl, .enter⟩
  by_cases hx : s.con.screenX ≥ numCols - 1
  · rw [if_pos (Or.inl hx), if_neg h10]
    exact ⟨_, rfl, .lineBreak hk h10 hx⟩
  rw [if_neg (by rintro (h | h) <;> contradiction)]
  by_cases h8 : k = 8
  · subst h8
    rw [if_pos rfl]
    by_cases hp : atPrompt s.con = true
    · rw [if_pos hp]
      exact ⟨_, rfl, .atStart hx (Or.inl hp)⟩
    rw [if_neg hp]
    by_cases h0 : s.counter = 0
    · rw [if_pos h0]
      exact ⟨_, rfl, .atStart hx (Or.inr h0)⟩
    rw [if_neg h0]
    exact ⟨_, rfl, .delete hx hp h0⟩
  rw [if_neg h8]
  by_cases hc : k ≥ 32 ∧ k ≤ 126 ∧ s.counter < 127
  · rw [if_pos hc]
    exact ⟨_, rfl, .type hk h10 h8 hx hc⟩
  rw [if_neg hc]
  rcases hsw : switchKey k with _ | t
  · exact ⟨_, rfl, .ignored hk h10 h8 hx hc⟩
  · have ht : s.curTerminal = t := switchTo_none h hx hsw
    exact ⟨_, if_pos ht, .press hk h10 h8 hx hc ht⟩

theorem stroke_of_keyboardRead {k : UInt8} {r : Regs} {s s' : Kernel} {o : Outcome} (h : s.switchTo k = none)
    (hr : keyboardRead img k r s = some (o, s')) : o = .handled ∧ Stroke s k s' := by
  obtain ⟨s1, h1, h2⟩ := @keyboardRead_stroke img k r s h
  rw [h1] at hr
  cases hr
  exact ⟨rfl, h2⟩

/-- A keystroke that does not switch: it edits the line and the screen, or presses the key of the
displayed terminal. -/
theorem keyboardRead_stay {k : UInt8} {r : Regs} {s s' : Kernel} {o : Outcome} (h : s.switchTo k = none)
    (hr : keyboardRead img k r s = some (o, s')) :
    o = .handled ∧ ((∃ t, s.curTerminal = t ∧ s' = pressed t s) ∨
      ∃ con textBuf counter entered dev, s' = { s with
        con := con, textBuf := textBuf, counter := counter, entered := entered, dev := dev }) := by
  obtain ⟨rfl, hst⟩ := stroke_of_keyboardRead h hr
  refine ⟨rfl, ?_⟩
  cases hst with
  | press _ _ _ _ _ ht => exact Or.inl ⟨_, ht, rfl⟩
  | tab | ctrlC | ctrlL | enter | lineBreak | atStart | delete | type | ignored => exact Or.inr ⟨_, _, _, _, _, rfl⟩

/-! ## The file calls -/

/-- The calls that concern files, memory and signals. -/
def Op.isFile : Op → Bool
  | .execute .. => false
  | .halt .. => false
  | .key .. => false
  | _ => true

/-- A file call keeps the process table, the terminals and every PCB copy but its own. -/
theorem fileCall_eq {op : Op} {s s' : Kernel} {o : Outcome} (hop : op.isFile = true)
    (h : step img s op = some (o, s')) :
    ∃ p fdIndex fdVal fdRtc slots con dev user entered, s' = { s with
      pcblock := p, fdIndex := fdIndex, fdVal := fdVal, fdRtc := fdRtc, slots := slots
      con := con, dev := dev, user := user, entered := entered } ∧ ∀ i, i ≠ s.findPid → slots i = s.slots i := by
  cases op with
  | execute | halt | key => cases hop
  | read fd buf nbytes =>
    obtain ⟨d, v, fdVal, user, entered, dev, rfl⟩ := sysRead_eq h
    exact ⟨_, s.fdIndex, _, s.fdRtc, s.slots, s.con, _, _, _, rfl, fun _ _ => rfl⟩
  | write fd buf nbytes =>
    obtain ⟨con, dev, rfl⟩ := sysWrite_eq h
    exact ⟨s.pcblock, s.fdIndex, s.fdVal, s.fdRtc, s.slots, _, _, s.user, s.entered, rfl, fun _ _ => rfl⟩
  | «open» filename =>
    obtain ⟨⟨v, s1⟩, h1, h2⟩ := Option.map_eq_some_iff.1 h
    cases h2
    cases filename with
    | none =>
      cases h1
      exact ⟨s.pcblock, 2, s.fdVal, s.fdRtc, s.slots, s.con, s.dev, s.user, s.entered, rfl, fun _ _ => rfl⟩
    | some name =>
      rcases sysOpen_cases img name s with ⟨fd, hl, ho⟩ | ⟨-, -, ho⟩ | ⟨-, -, ho⟩ <;> rw [ho] at h1
      · rcases hn : img.named name with _ | e
        · rw [openAt_missing hn hl.2.1] at h1
          cases h1
          exact ⟨s.pcblock, _, s.fdVal, s.fdRtc, _, s.con, s.dev, s.user, s.entered, rfl,
            fun i hi => Function.update_of_ne hi _ _⟩
        · obtain ⟨rtc, dev, hop⟩ := openAt_named fd s hn
          rw [hop] at h1
          cases h1
          exact ⟨_, _, s.fdVal, _, _, s.con, _, s.user, s.entered, rfl, fun i hi => Function.update_of_ne hi _ _⟩
      · cases h1
        exact ⟨s.pcblock, 8, s.fdVal, s.fdRtc, s.slots, s.con, s.dev, s.user, s.entered, rfl, fun _ _ => rfl⟩
      · cases h1
  | close fd =>
    cases h
    rcases sysClose_cases fd s with ⟨k, rfl, -, -, v, hcl⟩ | ⟨-, hcl⟩ <;> rw [hcl]
    · exact ⟨_, s.fdIndex, v, s.fdRtc, s.slots, s.con, s.dev, s.user, s.entered, rfl, fun _ _ => rfl⟩
    · exact ⟨s.pcblock, s.fdIndex, s.fdVal, s.fdRtc, s.slots, s.con, s.dev, s.user, s.entered, rfl, fun _ _ => rfl⟩
  | getargs buf nbytes =>
    obtain ⟨⟨v, s1⟩, h1, h2⟩ := Option.map_eq_some_iff.1 h
    cases h2
    obtain ⟨user, rfl⟩ := getargs_eq h1
    exact ⟨s.pcblock, s.fdIndex, s.fdVal, s.fdRtc, s.slots, s.con, s.dev, _, s.entered, rfl, fun _ _ => rfl⟩
  | vidmap screenStart =>
    cases h
    obtain ⟨user, hv⟩ := vidmap_eq screenStart s
    rw [hv]
    exact ⟨s.pcblock, s.fdIndex, s.fdVal, s.fdRtc, s.slots, s.con, s.dev, _, s.entered, rfl, fun _ _ => rfl⟩
  | setHandler | sigreturn =>
    cases h
    exact ⟨s.pcblock, s.fdIndex, s.fdVal, s.fdRtc, s.slots, s.con, s.dev, s.user, s.entered, rfl, fun _ _ => rfl⟩

/-! ## The calls of execute -/

/-- The `execute` an operation makes: its command and the state it is called in. -/
def call (s : Kernel) : Op → Option (CString × Regs × Kernel)
  | .execute (some command) r => some (command, r, s)
  | .halt _ r =>
    match s.cr3.pid with
    | some n => if n.val ≤ 3 then some (shell, r, restartShell n s) else none
    | none => none
  | .key k r =>
    match s.switchTo k with
    | some t => if s.started t then none else some (shell, r, activate t (leftFor t r s))
    | none => none
  | _ => none

/-- The first switch to a terminal executes its shell. -/
theorem call_first {s : Kernel} {k : UInt8} {t : TermNum} (r : Regs) (ht : s.switchTo k = some t)
    (hst : ¬ s.started t = true) : s.call (.key k r) = some (shell, r, activate t (leftFor t r s)) := by
  simp only [call, ht, if_neg hst]

/-- Who calls `execute`: a program, the `halt` of a terminal's shell, or the first switch to a terminal. -/
theorem call_cases {op : Op} {s s0 : Kernel} {command : CString} {r : Regs}
    (h : s.call op = some (command, r, s0)) :
    (op = .execute (some command) r ∧ s0 = s) ∨
    (∃ status n, op = .halt status r ∧ s.cr3.pid = some n ∧ n.val ≤ 3 ∧ command = shell ∧ s0 = restartShell n s) ∨
    ∃ k t, op = .key k r ∧ s.switchTo k = some t ∧ s.started t ≠ true ∧ command = shell ∧
      s0 = activate t (leftFor t r s) := by
  cases op with
  | execute c r' =>
    cases c with
    | none => cases h
    | some c => cases h; exact Or.inl ⟨rfl, rfl⟩
  | halt status r' =>
    simp only [call] at h
    rcases hp : s.cr3.pid with _ | n <;> simp only [hp] at h
    · cases h
    split at h
    · rename_i h3
      cases h
      exact Or.inr (Or.inl ⟨status, n, rfl, rfl, h3, rfl, rfl⟩)
    · cases h
  | key k r' =>
    simp only [call] at h
    rcases ht : s.switchTo k with _ | t <;> simp only [ht] at h
    · cases h
    split at h
    · cases h
    · rename_i hst
      cases h
      exact Or.inr (Or.inr ⟨k, t, rfl, ht, hst, rfl, rfl⟩)
  | _ => cases h

theorem step_call {op : Op} {s s0 s' : Kernel} {command : CString} {r : Regs} {o : Outcome}
    (hc : s.call op = some (command, r, s0)) (h : step img s op = some (o, s')) :
    ∃ o', execute img (some command) r s0 = some (o', s') ∧ ∀ eip, o = .enter eip → o' = .enter eip := by
  have hmatch : ∀ {e : Outcome × Kernel} {d : Outcome}, (∀ eip, d ≠ .enter eip) →
      (match e.1 with
        | .enter eip => ((.enter eip, e.2) : Outcome × Kernel)
        | _ => (d, e.2)) = (o, s') → e = (e.1, s') ∧ ∀ eip, o = .enter eip → e.1 = .enter eip := by
    rintro ⟨e1, e2⟩ d hd he
    cases e1 <;> cases he <;> refine ⟨rfl, fun eip ho => ?_⟩
    all_goals first | exact ho | exact absurd ho (hd eip)
  rcases call_cases hc with ⟨rfl, rfl⟩ | ⟨status, n, rfl, hp, h3, rfl, rfl⟩ | ⟨k, t, rfl, ht, hst, rfl, rfl⟩
  · exact ⟨o, h, fun _ ho => ho⟩
  · simp only [step, halt, hp, h3, if_true] at h
    obtain ⟨e, he, heq⟩ := Option.map_eq_some_iff.1 h
    obtain ⟨h1, h2⟩ := hmatch (d := .ret 0) (by intro eip hh; cases hh) heq
    exact ⟨e.1, by rw [he, h1], h2⟩
  · simp only [step] at h
    rw [keyboardRead_switch ht, started_leftFor, if_neg hst] at h
    obtain ⟨e, he, heq⟩ := Option.map_eq_some_iff.1 h
    obtain ⟨h1, h2⟩ := hmatch (d := .handled) (by intro eip hh; cases hh) heq
    exact ⟨e.1, by rw [he, h1], h2⟩

theorem call_step {op : Op} {s s0 s' : Kernel} {command : CString} {r : Regs} {o' : Outcome}
    (hc : s.call op = some (command, r, s0)) (h : execute img (some command) r s0 = some (o', s')) :
    ∃ o, step img s op = some (o, s') := by
  rcases call_cases hc with ⟨rfl, rfl⟩ | ⟨status, n, rfl, hp, h3, rfl, rfl⟩ | ⟨k, t, rfl, ht, hst, rfl, rfl⟩
  · exact ⟨o', h⟩
  · simp only [step, halt, hp, h3, if_true]
    rw [h]
    cases o' <;> exact ⟨_, rfl⟩
  · simp only [step]
    rw [keyboardRead_switch ht, started_leftFor, if_neg hst, h]
    cases o' <;> exact ⟨_, rfl⟩

/-- A shell has an entry forced on it when a terminal was just selected or its shell has just ended. -/
theorem forced_shell {s : Kernel}
    (h : s.term1Rst = true ∨ (s.term2Press || s.term2Rst) = true ∨ (s.term3Press || s.term3Rst) = true) :
    s.forced shell ≠ none := by
  have hsh : isShell shell = true := by decide
  unfold forced
  simp only [hsh, Bool.true_and]
  split
  · exact Option.some_ne_none _
  split
  · exact Option.some_ne_none _
  split
  · exact Option.some_ne_none _
  split
  · exact Option.some_ne_none _
  · rename_i h1 h2 h3
    rcases h with h | h | h
    · exact absurd h h1
    · exact absurd h h2
    · exact absurd h h3

/-- So it has when `execute` is called by the first switch to a terminal or by the `halt` of its shell. -/
theorem forced_first {s : Kernel} {t : TermNum} (r : Regs) (hst : s.started t ≠ true) :
    (activate t (leftFor t r s)).forced shell ≠ none := by
  apply forced_shell
  cases t with
  | t1 => exact absurd rfl hst
  | t2 => exact Or.inr (Or.inl (by simp [activate, leftFor, leaveTerminal, saveScreen, pressed]))
  | t3 => exact Or.inr (Or.inr (by simp [activate, leftFor, leaveTerminal, saveScreen, pressed]))

theorem forced_restart {s : Kernel} {n : Pid} (hn : n ≠ 0) (h3 : n.val ≤ 3) : (restartShell n s).forced shell ≠ none := by
  apply forced_shell
  have hcases : n = 1 ∨ n = 2 ∨ n = 3 := by
    rcases n with ⟨v, hv⟩
    simp only [ne_eq, Fin.ext_iff] at *
    simp only [Fin.val_zero, Fin.val_one, Fin.val_two] at *
    have : (3 : Pid).val = 3 := rfl
    omega
  rcases hcases with rfl | rfl | rfl
  · exact Or.inl (by simp [restartShell])
  · exact Or.inr (Or.inl (by simp [restartShell]))
  · exact Or.inr (Or.inr (by simp [restartShell]))

theorem claimed_of_forced {command : CString} {s : Kernel} (h : s.forced command ≠ none) :
    s.claimed command = s.forced command := by
  obtain ⟨n, hn⟩ := Option.ne_none_iff_exists'.1 h
  unfold claimed
  rw [hn]
  rfl

/-- A switch to a started terminal. -/
theorem key_started {s : Kernel} {k : UInt8} {r : Regs} {t : TermNum} (ht : s.switchTo k = some t)
    (hst : s.started t = true) : step img s (.key k r) = some (.handled, enterTerminal t (leftFor t r s)) := by
  show keyboardRead img k r s = _
  rw [keyboardRead_switch ht, started_leftFor, if_pos hst]

/-- The `halt` of a program that is no terminal's shell. -/
theorem halt_noCall {s s' : Kernel} {status : UInt8} {r : Regs} {o : Outcome} (hc : s.call (.halt status r) = none)
    (h : step img s (.halt status r) = some (o, s')) : ∃ n, s.cr3.pid = some n ∧ 3 < n.val ∧ s' = haltProgram n s := by
  simp only [call] at hc
  simp only [step, halt] at h
  rcases hp : s.cr3.pid with _ | n <;> simp only [hp] at hc h
  · cases h
  split at hc
  · cases hc
  rename_i h3
  rw [if_neg h3] at h
  cases h
  exact ⟨n, rfl, by omega, rfl⟩

/-- An operation that calls no `execute`: a file call, `execute` of `NULL`, a keystroke that stays, a
switch to a started terminal, or the `halt` of a program that is no terminal's shell. -/
theorem step_noCall {op : Op} {s s' : Kernel} {o : Outcome} (hc : s.call op = none)
    (h : step img s op = some (o, s')) :
    op.isFile = true ∨ s' = s ∨
    (∃ t, s.curTerminal = t ∧ s' = pressed t s) ∨
    (∃ con textBuf counter entered dev, s' = { s with
      con := con, textBuf := textBuf, counter := counter, entered := entered, dev := dev }) ∨
    (∃ k r t, op = .key k r ∧ s.switchTo k = some t ∧ s.started t = true ∧
      s' = enterTerminal t (leftFor t r s)) ∨
    ∃ status r n, op = .halt status r ∧ s.cr3.pid = some n ∧ 3 < n.val ∧ s' = haltProgram n s := by
  cases op with
  | execute c r =>
    cases c with
    | none => cases h; exact Or.inr (Or.inl rfl)
    | some c => cases hc
  | halt status r =>
    obtain ⟨n, hp, h3, hs⟩ := halt_noCall hc h
    exact Or.inr (Or.inr (Or.inr (Or.inr (Or.inr ⟨status, r, n, rfl, hp, h3, hs⟩))))
  | key k r =>
    simp only [call] at hc
    simp only [step] at h
    rcases ht : s.switchTo k with _ | t <;> simp only [ht] at hc
    · obtain ⟨-, h1 | h1⟩ := keyboardRead_stay ht h
      · exact Or.inr (Or.inr (Or.inl h1))
      · exact Or.inr (Or.inr (Or.inr (Or.inl h1)))
    · split at hc
      · rename_i hs
        rw [show keyboardRead img k r s = _ from key_started ht hs] at h
        cases h
        exact Or.inr (Or.inr (Or.inr (Or.inr (Or.inl ⟨k, r, t, rfl, ht, hs, rfl⟩))))
      · cases hc
  | _ => exact Or.inl rfl

end Kernel

end Os391
