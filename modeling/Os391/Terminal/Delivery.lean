/-
Lines and the reads that deliver them. `terminal_read` polls `entered` and then copies `text_buf`, while
`keyboard_read` may interrupt it anywhere and goes on typing into the same buffer. A read delivers the line
that was completed last as long as no keystroke has spoiled that line before it was copied.
-/
import Os391.Terminal.Lines

namespace Os391

open Bytes Machine Line

namespace Kernel

variable {img : Image}

/-! ## read_helper, one access at a time -/

/-- A character of the line buffer. -/
def textAt (textBuf : Fin 128 → UInt8) (i : Nat) : UInt8 := if h : i < 128 then textBuf ⟨i, h⟩ else 0

/-- The arguments of a `terminal_read` on a descriptor other than 1. -/
structure Reading where
  buf : Int
  len : Nat

/-- Where a process stands in `terminal_read`; an interrupt may come in at each of these places. A read that
has found `entered` set goes for the line that was completed last, number `line`, and has stored `out`. -/
inductive Reader
  | idle
  | polling (c : Reading)
  /-- before the loop's test at index `i` -/
  | copying (c : Reading) (line i : Nat) (out : List UInt8)
  /-- character `i` is stored, and not yet compared with the newline -/
  | testing (c : Reading) (line i : Nat) (out : List UInt8)
  /-- the loop is left, `ret_val` is assigned or not, and `entered` is still to be cleared -/
  | closing (ret : Option Nat) (line : Nat) (out : List UInt8)

/-- What `keyboard_read` has made of the keys: the line edited in each terminal since its last Enter, the completed lines
with their terminals, whether the last of these is unspoiled, and the numbers of the lines that were delivered. -/
structure Log where
  typed : Lines
  completed : List (TermNum × List UInt8)
  fresh : Bool
  delivered : List Nat

/-- The kernel with the log and a process that reads. -/
structure Session where
  kernel : Kernel
  log : Log
  reader : Reader

/-- The store of `keyboard_read` to `text_buf`. -/
def storeOf (s : Kernel) (k : UInt8) : Option (Nat × UInt8) :=
  if k = 9 ∨ k = 0xF8 ∨ k = 0xFF then none
  else if k = 10 then some (s.counter.toNat, 10)
  else if s.con.screenX ≥ numCols - 1 then none
  else if k = 8 then if atPrompt s.con ∨ s.counter = 0 then none else some ((s.counter - 1).toNat, 0)
  else if k ≥ 32 ∧ k ≤ 126 ∧ s.counter < 127 then some (s.counter.toNat, k)
  else none

/-- Whether a keystroke stores something else over a line or its newline, from index `i` on. -/
def Spoils (s : Kernel) (k : UInt8) (i : Nat) (line : List UInt8) : Prop :=
  ∃ p ∈ s.storeOf k, i ≤ p.1 ∧ p.1 ≤ line.length ∧ (line ++ [10])[p.1]? ≠ some p.2

instance (s : Kernel) (k : UInt8) (i : Nat) (line : List UInt8) : Decidable (s.Spoils k i line) :=
  match h : s.storeOf k with
  | none => isFalse fun ⟨p, hp, _⟩ => by rw [h] at hp; cases hp
  | some p =>
    decidable_of_iff (i ≤ p.1 ∧ p.1 ≤ line.length ∧ (line ++ [10])[p.1]? ≠ some p.2)
      ⟨fun hp => ⟨p, h, hp⟩, fun ⟨q, hq, hp⟩ => by rw [h] at hq; cases hq; exact hp⟩

/-- Whether a keystroke spoils the line that was completed last. -/
def Log.spoiledBy (g : Log) (s : Kernel) (k : UInt8) : Prop :=
  ∃ l ∈ g.completed.getLast?, l.1 = s.curTerminal ∧ s.Spoils k 0 l.2

instance (g : Log) (s : Kernel) (k : UInt8) : Decidable (g.spoiledBy s k) :=
  match h : g.completed.getLast? with
  | none => isFalse fun ⟨l, hl, _⟩ => by rw [h] at hl; cases hl
  | some l =>
    decidable_of_iff (l.1 = s.curTerminal ∧ s.Spoils k 0 l.2)
      ⟨fun hl => ⟨l, h, hl⟩, fun ⟨q, hq, hl⟩ => by rw [h] at hq; cases hq; exact hl⟩

/-- A keystroke in the log. -/
def Log.key (g : Log) (s : Kernel) (k : UInt8) (r : Regs) : Log :=
  { g with
    typed := edited s (.key k r) g.typed
    completed := if k = 10 then g.completed ++ [(s.curTerminal, g.typed s.curTerminal)] else g.completed
    fresh := k = 10 || (g.fresh && !decide (g.spoiledBy s k)) }

/-- The next access of the process. -/
def tick (s : Kernel) (g : Log) : Reader → Option (Outcome × Session)
  | .idle => none
  | .polling c =>
    if s.entered then some (.handled, ⟨s, g, .copying c (g.completed.length - 1) 0 []⟩)
    else some (.handled, ⟨s, g, .polling c⟩)
  | .copying c line i out =>
    if i < c.len ∧ i < 128 then
      let b := textAt s.textBuf i
      some (.handled, ⟨s.userPut (c.buf + i) 1 fun _ => b, g, .testing c line i (out ++ [b])⟩)
    else some (.handled, ⟨s, g, .closing none line out⟩)
  | .testing c line i out =>
    if textAt s.textBuf i = 10 then some (.handled, ⟨s, g, .closing (some i) line out⟩)
    else some (.handled, ⟨s, g, .copying c line (i + 1) out⟩)
  | .closing ret line _ =>
    some (match ret with
      | some i => .ret i
      | none => .indeterminate,
      ⟨{ s with entered := false }, { g with delivered := line :: g.delivered }, .idle⟩)

/-- What happens: a keyboard interrupt, a call of `terminal_read`, or the next access of that call. -/
inductive SessionOp
  | key (keystroke : UInt8) (r : Regs)
  | call (buf : Int) (len : Nat)
  | tick

/-- One of these, for a process of terminal `t`. It runs while that terminal is displayed. -/
def sessionStep (img : Image) (t : TermNum) (x : Session) : SessionOp → Option (Outcome × Session)
  | .key k r => (keyboardRead img k r x.kernel).map fun y => (y.1, ⟨y.2, x.log.key x.kernel k r, x.reader⟩)
  | .call buf len =>
    match x.reader with
    | .idle => if x.kernel.curTerminal = t then some (.handled, { x with reader := .polling ⟨buf, len⟩ }) else none
    | _ => none
  | .tick => if x.kernel.curTerminal = t then tick x.kernel x.log x.reader else none

/-! ## What is delivered -/

/-- A read that returns has stored a line that was completed in its terminal, newline included, returns its
length, and the line was not delivered before. -/
def Delivers (img : Image) (t : TermNum) (x : Session) (op : SessionOp) : Prop :=
  ∀ ret n out, op = .tick → x.kernel.curTerminal = t → x.reader = .closing ret n out →
    ∃ line y, x.log.completed[n]? = some (t, line) ∧ out = line ++ [10] ∧ n ∉ x.log.delivered ∧
      sessionStep img t x op = some (.ret line.length, y)

/-- The number of the line a read is copying, and the index it has come to. -/
def Reader.position : Reader → Option (Nat × Nat)
  | .copying _ n i _ => some (n, i)
  | .testing _ n i _ => some (n, i)
  | _ => none

/-- Whether a read that finds `entered` set finds the line it should. -/
def Log.findsLine (g : Log) (t : TermNum) (len : Nat) : Prop :=
  ∃ line, g.completed.getLast? = some (t, line) ∧ g.fresh = true ∧ line.length < len

instance (g : Log) (t : TermNum) (len : Nat) : Decidable (g.findsLine t len) :=
  match h : g.completed.getLast? with
  | none => isFalse fun ⟨_, hl, _⟩ => by rw [h] at hl; cases hl
  | some (u, line) =>
    decidable_of_iff (u = t ∧ g.fresh = true ∧ line.length < len)
      ⟨fun hl => ⟨line, by rw [h, hl.1], hl.2⟩, fun ⟨_, hl, hrest⟩ => by rw [h] at hl; cases hl; exact ⟨rfl, hrest⟩⟩

/-- A keystroke switches only between lines of the same length, and stores nothing else over the rest of a line
that is being copied; a read that finds `entered` set finds the last line completed in its terminal, unspoiled
since its Enter, and has room for it. -/
def Undisturbed (t : TermNum) (x : Session) : SessionOp → Prop
  | .key k r => SameLength (x.kernel, x.log.typed) (.key k r) ∧
      ∀ p ∈ x.reader.position, ∀ l ∈ x.log.completed[p.1]?, l.1 = x.kernel.curTerminal → ¬ x.kernel.Spoils k p.2 l.2
  | .call .. => True
  | .tick =>
    match x.reader with
    | .polling c => x.kernel.entered = true → x.log.findsLine t c.len
    | _ => True

instance (t : TermNum) (x : Session) : ∀ op, Decidable (Undisturbed t x op)
  | .key k r => inferInstanceAs (Decidable (SameLength (x.kernel, x.log.typed) (.key k r) ∧ ∀ p ∈ x.reader.position,
      ∀ l ∈ x.log.completed[p.1]?, l.1 = x.kernel.curTerminal → ¬ x.kernel.Spoils k p.2 l.2))
  | .call .. => isTrue trivial
  | .tick =>
    match h : x.reader with
    | .polling c => decidable_of_iff (x.kernel.entered = true → x.log.findsLine t c.len) (by simp only [Undisturbed, h])
    | .idle | .copying .. | .testing .. | .closing .. => isTrue (by simp only [Undisturbed, h])

/-! ## Reads that are not interrupted -/

theorem userPut_succ (s : Kernel) (buf : Int) (i : Nat) (f : Buf) :
    (s.userPut buf i f).userPut (buf + i) 1 (fun _ => f i) = s.userPut buf (i + 1) f := by
  unfold userPut
  simp only [Function.update_self, Function.update_idem]
  congr 2
  funext a
  unfold Mem.put
  by_cases h1 : buf + i ≤ a ∧ a < buf + i + (1 : Nat)
  · have ha : (a - buf).toNat = i := by omega
    rw [if_pos h1, if_pos (by omega), ha]
  · rw [if_neg h1]
    by_cases h2 : buf ≤ a ∧ a < buf + i
    · rw [if_pos h2, if_pos (by omega)]
    · rw [if_neg h2, if_neg (by omega)]

theorem newlineAt_none {textBuf : Fin 128 → UInt8} {len : Nat} (h : ∀ p < min len 128, textAt textBuf p ≠ 10) :
    newlineAt textBuf len = none := by
  unfold newlineAt
  rw [List.find?_eq_none]
  intro p hp
  have hlt := List.mem_range.1 hp
  have hne := h p hlt
  unfold textAt at hne
  rw [dif_pos (by omega)] at hne
  rw [dif_pos (by omega)]
  simpa using hne

theorem newlineAt_some {textBuf : Fin 128 → UInt8} {len i : Nat} (hi : i < min len 128) (ht : textAt textBuf i = 10)
    (h : ∀ p < i, textAt textBuf p ≠ 10) : newlineAt textBuf len = some i := by
  unfold newlineAt
  rw [List.find?_range_eq_some]
  unfold textAt at ht
  rw [dif_pos (by omega)] at ht
  refine ⟨?_, List.mem_range.2 hi, ?_⟩
  · rw [dif_pos (by omega)]
    simpa using ht
  · intro p hp
    have hne := h p hp
    unfold textAt at hne
    rw [dif_pos (by omega)] at hne
    rw [dif_pos (by omega)]
    simpa using hne

/-- How many characters a read stores. -/
def copied (textBuf : Fin 128 → UInt8) (len : Nat) : Nat :=
  match newlineAt textBuf len with
  | some i => i + 1
  | none => min len 128

theorem run_tick {t : TermNum} {x y : Session} {o : Outcome} (h : sessionStep img t x .tick = some (o, y)) (n : Nat) :
    run (sessionStep img t) x (List.replicate (n + 1) .tick) = run (sessionStep img t) y (List.replicate n .tick) := by
  rw [List.replicate_succ, run, h]
  rfl

/-- The loop from index `i` on, with nothing but its own accesses. -/
theorem ticks_copy (img : Image) {t : TermNum} {s : Kernel} (g : Log) (buf : Int) (len line : Nat) (hc : s.curTerminal = t) :
    ∀ (m i : Nat) (out : List UInt8), min len 128 - i = m → i ≤ min len 128 → (∀ p < i, textAt s.textBuf p ≠ 10) →
      ∃ n out', run (sessionStep img t)
        ⟨s.userPut buf i (textAt s.textBuf), g, .copying ⟨buf, len⟩ line i out⟩ (List.replicate n .tick) =
        some ⟨s.userPut buf (copied s.textBuf len) (textAt s.textBuf), g, .closing (newlineAt s.textBuf len) line out'⟩
  | 0, i, out, hm, hi, hno => by
    have hend : i = min len 128 := by omega
    have hnl : newlineAt s.textBuf len = none := newlineAt_none (by rw [← hend]; exact hno)
    have hstep : sessionStep img t ⟨s.userPut buf i (textAt s.textBuf), g, .copying ⟨buf, len⟩ line i out⟩ .tick =
        some (.handled, ⟨s.userPut buf i (textAt s.textBuf), g, .closing none line out⟩) := by
      refine (if_pos hc).trans ?_
      exact if_neg (by simp only; omega)
    refine ⟨1, out, ?_⟩
    rw [run_tick hstep, copied, hnl, hend]
    rfl
  | m + 1, i, out, hm, hi, hno => by
    have hlt : i < len ∧ i < 128 := by omega
    have hcopy : sessionStep img t ⟨s.userPut buf i (textAt s.textBuf), g, .copying ⟨buf, len⟩ line i out⟩ .tick =
        some (.handled, ⟨s.userPut buf (i + 1) (textAt s.textBuf), g,
          .testing ⟨buf, len⟩ line i (out ++ [textAt s.textBuf i])⟩) := by
      refine (if_pos hc).trans ((if_pos hlt).trans ?_)
      rw [← userPut_succ s buf i (textAt s.textBuf)]
      rfl
    by_cases ht : textAt s.textBuf i = 10
    · have htest : sessionStep img t ⟨s.userPut buf (i + 1) (textAt s.textBuf), g,
            .testing ⟨buf, len⟩ line i (out ++ [textAt s.textBuf i])⟩ .tick =
          some (.handled, ⟨s.userPut buf (i + 1) (textAt s.textBuf), g,
            .closing (some i) line (out ++ [textAt s.textBuf i])⟩) := (if_pos hc).trans (if_pos ht)
      refine ⟨2, out ++ [textAt s.textBuf i], ?_⟩
      rw [run_tick hcopy, run_tick htest, copied, newlineAt_some (by omega) ht hno]
      rfl
    · have htest : sessionStep img t ⟨s.userPut buf (i + 1) (textAt s.textBuf), g,
            .testing ⟨buf, len⟩ line i (out ++ [textAt s.textBuf i])⟩ .tick =
          some (.handled, ⟨s.userPut buf (i + 1) (textAt s.textBuf), g,
            .copying ⟨buf, len⟩ line (i + 1) (out ++ [textAt s.textBuf i])⟩) := (if_pos hc).trans (if_neg ht)
      have hno' : ∀ p < i + 1, textAt s.textBuf p ≠ 10 := by
        intro p hp
        rcases Nat.lt_succ_iff_lt_or_eq.1 hp with hp | rfl
        · exact hno p hp
        · exact ht
      obtain ⟨n, out', hrun⟩ := ticks_copy img g buf len line hc m (i + 1) (out ++ [textAt s.textBuf i]) (by omega)
        (by omega) hno'
      refine ⟨n + 1 + 1, out', ?_⟩
      rw [run_tick hcopy, run_tick htest]
      exact hrun

/-- Without interrupts the accesses of a read add up to `terminal_read`. -/
theorem ticks_terminalRead (img : Image) {t : TermNum} {s : Kernel} (g : Log) (buf : Int) (len : Nat) {d : Fin 8}
    (hd : d ≠ 1) (hc : s.curTerminal = t) (he : s.entered = true) :
    ∃ n x o y, run (sessionStep img t) ⟨s, g, .polling ⟨buf, len⟩⟩ (List.replicate n .tick) = some x ∧
      sessionStep img t x .tick = some (o, y) ∧ y.reader = .idle ∧ terminalRead d buf len s = some (o, y.kernel) := by
  have hpoll : sessionStep img t ⟨s, g, .polling ⟨buf, len⟩⟩ .tick =
      some (.handled, ⟨s, g, .copying ⟨buf, len⟩ (g.completed.length - 1) 0 []⟩) := (if_pos hc).trans (if_pos he)
  have hzero : s.userPut buf 0 (textAt s.textBuf) = s := by
    have hput : (s.user s.cr3).put buf 0 (textAt s.textBuf) = s.user s.cr3 := by
      funext a
      exact Mem.put_outside (by omega)
    unfold userPut
    rw [hput, Function.update_eq_self]
  obtain ⟨n, out, hrun⟩ := ticks_copy img g buf len (g.completed.length - 1) hc (min len 128) 0 [] (by omega) (by omega)
    fun p hp => absurd hp (Nat.not_lt_zero p)
  rw [hzero] at hrun
  refine ⟨n + 1, _, _, _, (run_tick hpoll n).trans hrun, if_pos hc, rfl, ?_⟩
  unfold terminalRead copied
  rw [if_neg hd, if_pos he]
  rcases newlineAt s.textBuf len with _ | i <;> rfl

/-! ## Keystrokes and the buffers -/

/-- The line buffer of a terminal. -/
def bufferOf (s : Kernel) (u : TermNum) : Fin 128 → UInt8 :=
  if u = s.curTerminal then s.textBuf else (s.terminals u).tLinebuffer

/-- A keystroke that stays makes its one store. -/
theorem keyboardRead_store {k : UInt8} {r : Regs} {s s' : Kernel} {o : Outcome} (h : s.switchTo k = none)
    (hr : keyboardRead img k r s = some (o, s')) :
    s'.textBuf = (match s.storeOf k with
      | some p => setText p.1 p.2 s.textBuf
      | none => s.textBuf) ∧
    s'.entered = (s.entered || k = 10) := by
  obtain ⟨-, hst⟩ := stroke_of_keyboardRead h hr
  unfold storeOf
  have hflag : k ≠ 10 → s.entered = (s.entered || decide (k = 10)) := by
    intro h10
    rw [decide_eq_false h10, Bool.or_false]
  cases hst with
  | tab => exact ⟨rfl, hflag (by decide)⟩
  | ctrlC => exact ⟨rfl, hflag (by decide)⟩
  | ctrlL => exact ⟨rfl, hflag (by decide)⟩
  | enter => exact ⟨rfl, by simp⟩
  | lineBreak hk h10 hx =>
    rw [if_neg hk, if_neg h10, if_pos hx]
    exact ⟨rfl, hflag h10⟩
  | atStart hx hp =>
    rw [if_neg (by decide), if_neg (by decide), if_neg hx, if_pos rfl, if_pos hp]
    exact ⟨rfl, hflag (by decide)⟩
  | delete hx hp h0 =>
    rw [if_neg (by decide), if_neg (by decide), if_neg hx, if_pos rfl, if_neg (by rintro (h | h) <;> contradiction)]
    exact ⟨rfl, hflag (by decide)⟩
  | type hk h10 h8 hx hc =>
    rw [if_neg hk, if_neg h10, if_neg hx, if_neg h8, if_pos hc]
    exact ⟨rfl, hflag h10⟩
  | press hk h10 h8 hx hc ht =>
    rw [if_neg hk, if_neg h10, if_neg hx, if_neg h8, if_neg hc]
    exact ⟨rfl, hflag h10⟩
  | ignored hk h10 h8 hx hc =>
    rw [if_neg hk, if_neg h10, if_neg hx, if_neg h8, if_neg hc]
    exact ⟨rfl, hflag h10⟩

theorem storeOf_switch {s : Kernel} {k : UInt8} {t : TermNum} (h : s.switchTo k = some t) : s.storeOf k = none := by
  obtain ⟨hx, hk, -⟩ := switchTo_some h
  unfold storeOf
  rcases switchKey_eq hk with rfl | rfl | rfl <;> simp [hx]

/-- Leaving a terminal moves its buffer to where it is saved. -/
theorem leftFor_buffer (t u : TermNum) (r : Regs) (s : Kernel) :
    ((leftFor t r s).terminals u).tLinebuffer = s.bufferOf u := by
  unfold bufferOf
  by_cases huc : u = s.curTerminal
  · rw [if_pos huc, huc]
    show (Function.update s.terminals s.curTerminal _ s.curTerminal).tLinebuffer = _
    rw [Function.update_self]
    rfl
  · rw [if_neg huc, leftFor_terminals r (Ne.symm huc)]

theorem execute_entered_flag {command : CString} {r : Regs} {s s' : Kernel} {o : Outcome}
    (h : execute img (some command) r s = some (o, s')) : s'.entered = s.entered := by
  rcases execute_cases h with ⟨-, -, con, dev, rfl⟩ | ⟨n, q, -, -, ⟨-, -, d, rfl⟩ | ⟨inode, d, fpos, -, ⟨-, rfl⟩ | ⟨eip, -, rfl⟩⟩⟩
  · rw [choosePid_eq]
  · rfl
  · rfl
  · rfl

/-- A keystroke that stays stores to the buffer of the displayed terminal. -/
theorem stay_buffers {k : UInt8} {r : Regs} {s s' : Kernel} {o : Outcome} (ht : s.switchTo k = none)
    (hs : keyboardRead img k r s = some (o, s')) (u : TermNum) :
    s'.started u = s.started u ∧ s'.bufferOf u = match s.storeOf k with
      | some p => if u = s.curTerminal then setText p.1 p.2 (s.bufferOf u) else s.bufferOf u
      | none => s.bufferOf u := by
  obtain ⟨htext, -⟩ := keyboardRead_store ht hs
  have hframe : s'.terminals = s.terminals ∧ s'.curTerminal = s.curTerminal ∧ s'.term2Flag = s.term2Flag ∧
      s'.term3Flag = s.term3Flag := by
    obtain ⟨-, ⟨t, -, rfl⟩ | ⟨con, textBuf, counter, entered, dev, rfl⟩⟩ := keyboardRead_stay ht hs
    · exact ⟨rfl, rfl, rfl, rfl⟩
    · exact ⟨rfl, rfl, rfl, rfl⟩
  obtain ⟨hterm, hcur, hf2, hf3⟩ := hframe
  refine ⟨started_congr hf2 hf3 u, ?_⟩
  unfold bufferOf
  rw [hcur, hterm]
  by_cases huc : u = s.curTerminal
  · rw [if_pos huc, if_pos huc, htext]
    rcases s.storeOf k with _ | p
    · rfl
    · simp only [if_pos huc]
  · rw [if_neg huc, if_neg huc]
    rcases s.storeOf k with _ | p
    · rfl
    · simp only [if_neg huc]

/-- A switch changes no buffer of a started terminal. -/
theorem switch_buffers {k : UInt8} {r : Regs} {s s' : Kernel} {o : Outcome} {t : TermNum} (ht : s.switchTo k = some t)
    (hs : keyboardRead img k r s = some (o, s')) :
    (∀ u, s.started u = true → s'.started u = true ∧ s'.bufferOf u = s.bufferOf u) ∧ s'.entered = s.entered := by
  have hc := switchTo_ne ht
  by_cases hst : s.started t = true
  · rw [show keyboardRead img k r s = _ from key_started ht hst] at hs
    cases hs
    refine ⟨?_, ?_⟩
    · intro u hu
      rw [started_enterTerminal, started_leftFor]
      refine ⟨hu, ?_⟩
      unfold bufferOf
      rw [enterTerminal_curTerminal, leftFor_curTerminal, enterTerminal_terminals]
      by_cases hut : u = t
      · rw [if_pos hut, hut, if_neg (Ne.symm hc), switch_textBuf hc]
      · rw [if_neg hut]
        exact leftFor_buffer t u r s
    · simp only [enterTerminal, loadScreen, leftFor, leaveTerminal, saveScreen, pressed]
  · have hstep : step img s (.key k r) = some (o, s') := hs
    obtain ⟨o', hex, -⟩ := step_call (call_first r ht hst) hstep
    obtain ⟨⟨hterm, hcur, hf2, hf3, -⟩, -⟩ := execute_frame hex
    rw [activate_curTerminal, leftFor_curTerminal] at hcur
    refine ⟨?_, ?_⟩
    · intro u hu
      rw [started_congr hf2 hf3]
      refine ⟨started_activate (by rw [started_leftFor]; exact hu), ?_⟩
      have hut : u ≠ t := by
        rintro rfl
        exact hst hu
      unfold bufferOf
      rw [hcur, if_neg hut, hterm, activate_terminals]
      exact leftFor_buffer t u r s
    · rw [execute_entered_flag hex]
      simp only [activate, leftFor, leaveTerminal, saveScreen, pressed]

/-- What a keystroke does to the buffers of the started terminals: its store goes to the displayed one, and a
switch changes none. -/
theorem key_buffers {k : UInt8} {r : Regs} {s s' : Kernel} {o : Outcome} (hs : keyboardRead img k r s = some (o, s')) :
    (∀ u, s.started u = true → s'.started u = true ∧
      s'.bufferOf u = match s.storeOf k with
        | some p => if u = s.curTerminal then setText p.1 p.2 (s.bufferOf u) else s.bufferOf u
        | none => s.bufferOf u) ∧
    s'.entered = (s.entered || k = 10) := by
  rcases ht : s.switchTo k with _ | t
  · refine ⟨?_, (keyboardRead_store ht hs).2⟩
    intro u hu
    obtain ⟨hst, hbuf⟩ := stay_buffers ht hs u
    exact ⟨hst.trans hu, hbuf⟩
  · obtain ⟨hbuf, hent⟩ := switch_buffers ht hs
    have hk10 : k ≠ 10 := by
      rintro rfl
      obtain ⟨-, hk, -⟩ := switchTo_some ht
      cases hk
    rw [storeOf_switch ht, hent, decide_eq_false hk10, Bool.or_false]
    exact ⟨hbuf, rfl⟩

/-! ## The invariant -/

/-- From index `i` on, the buffer of a terminal holds a line and its newline. -/
def Remains (s : Kernel) (u : TermNum) (line : List UInt8) (i : Nat) : Prop :=
  ∀ p, i ≤ p → ∀ b ∈ (line ++ [10])[p]?, textAt (s.bufferOf u) p = b

theorem textAt_setText (i : Nat) (b : UInt8) (textBuf : Fin 128 → UInt8) (p : Nat) :
    textAt (setText i b textBuf) p = if p = i ∧ p < 128 then b else textAt textBuf p := by
  unfold textAt setText
  by_cases hp : p < 128
  · simp only [dif_pos hp, and_iff_left hp]
  · simp only [dif_neg hp, if_neg (fun h : p = i ∧ p < 128 => hp h.2)]

/-- A keystroke that does not spoil what remains of a line leaves it there. -/
theorem Remains.key {s s' : Kernel} {k : UInt8} {r : Regs} {o : Outcome} {u : TermNum} {line : List UInt8} {i : Nat}
    (h : Remains s u line i) (hu : s.started u = true) (hs : keyboardRead img k r s = some (o, s'))
    (hk : u = s.curTerminal → ¬ s.Spoils k i line) : Remains s' u line i := by
  intro p hp b hb
  rw [((key_buffers hs).1 u hu).2]
  rcases hstore : s.storeOf k with _ | q
  · exact h p hp b hb
  by_cases huc : u = s.curTerminal
  · simp only [if_pos huc]
    rw [textAt_setText]
    split
    · rename_i hpq
      -- the store is at an index of the line, so it stores what is there
      by_contra hne
      refine hk huc ⟨q, hstore, hpq.1 ▸ hp, ?_, ?_⟩
      · have hlen := (List.getElem?_eq_some_iff.1 (Option.mem_def.1 hb)).1
        rw [List.length_append, List.length_singleton] at hlen
        omega
      · rw [← hpq.1, Option.mem_def.1 hb]
        exact fun heq => hne (Option.some.inj heq).symm
    · exact h p hp b hb
  · simp only [if_neg huc]
    exact h p hp b hb

/-- What the reader has stored is the start of its line, and the rest is still in the buffer. -/
def ReaderOk (t : TermNum) (s : Kernel) (g : Log) : Reader → Prop
  | .idle => True
  | .polling _ => True
  | .copying c n i out => ∃ line, g.completed[n]? = some (t, line) ∧ n ∉ g.delivered ∧ line.length < c.len ∧
      i ≤ line.length ∧ out = line.take i ∧ Remains s t line i
  | .testing c n i out => ∃ line, g.completed[n]? = some (t, line) ∧ n ∉ g.delivered ∧ line.length < c.len ∧
      i ≤ line.length ∧ out = (line ++ [10]).take (i + 1) ∧ Remains s t line i
  | .closing ret n out => ∃ line, g.completed[n]? = some (t, line) ∧ n ∉ g.delivered ∧
      ret = some line.length ∧ out = line ++ [10]

/-- The typed lines are kept apart; the completed ones fit their buffers; the last one is still in its buffer
while it is unspoiled, and not delivered while `entered` is set. -/
structure InStep (t : TermNum) (x : Session) : Prop where
  apart : KeptApart (x.kernel, x.log.typed)
  fits : ∀ l ∈ x.log.completed, x.kernel.started l.1 = true ∧ l.2.length ≤ 127 ∧ 10 ∉ l.2
  last : ∀ l ∈ x.log.completed.getLast?, x.log.fresh = true → Remains x.kernel l.1 l.2 0
  numbers : ∀ n ∈ x.log.delivered, n < x.log.completed.length
  pending : x.kernel.entered = true → x.log.completed ≠ [] → x.log.completed.length - 1 ∉ x.log.delivered
  reader : ReaderOk t x.kernel x.log x.reader

/-! ## Steps -/

/-- Enter completes the line, which is in the buffer with its newline then. -/
theorem enter_remains {s s' : Kernel} {r : Regs} {o : Outcome} {line : List UInt8} (h : ShowsLine s line)
    (hc : s.started s.curTerminal = true) (hs : keyboardRead img 10 r s = some (o, s')) :
    Remains s' s.curTerminal line 0 := by
  have hstore : s.storeOf 10 = some (s.counter.toNat, 10) := by
    unfold storeOf
    rw [if_neg (by decide), if_pos rfl]
  have hbuf : s.bufferOf s.curTerminal = s.textBuf := if_pos rfl
  intro p _ b hb
  rw [((key_buffers hs).1 _ hc).2, hstore]
  simp only [if_true]
  rw [hbuf, h.position, setText_eq]
  have hholds := h.text.push 10 (by have := h.room; omega)
  have hlen := (List.getElem?_eq_some_iff.1 (Option.mem_def.1 hb)).1
  have hp : p < 128 := by
    have := h.room
    rw [List.length_append, List.length_singleton] at hlen
    omega
  unfold textAt
  rw [dif_pos hp]
  exact hholds.2 ⟨p, hp⟩ b hb

theorem ReaderOk.key {t : TermNum} {s s' : Kernel} {g g' : Log} {rd : Reader} {k : UInt8} {r : Regs} {o : Outcome}
    (h : ReaderOk t s g rd) (hstarted : ∀ l ∈ g.completed, s.started l.1 = true)
    (hq : ∀ p ∈ rd.position, ∀ l ∈ g.completed[p.1]?, l.1 = s.curTerminal → ¬ s.Spoils k p.2 l.2)
    (hs : keyboardRead img k r s = some (o, s')) (hdel : g'.delivered = g.delivered)
    (hcomp : ∀ (n : Nat) (l : TermNum × List UInt8), g.completed[n]? = some l → g'.completed[n]? = some l) : ReaderOk t s' g' rd := by
  have hkeep : ∀ {n i : Nat} {line : List UInt8}, g.completed[n]? = some (t, line) → rd.position = some (n, i) → Remains s t line i →
      Remains s' t line i := by
    intro n i line hl hpos hrem
    refine hrem.key (hstarted _ (List.mem_of_getElem? hl)) hs ?_
    intro hcur
    exact hq (n, i) hpos (t, line) hl hcur
  cases rd with
  | idle => trivial
  | polling c => trivial
  | copying c n i out =>
    obtain ⟨line, hl, hn, hlen, hi, hout, hrem⟩ := h
    exact ⟨line, hcomp n _ hl, by rwa [hdel], hlen, hi, hout, hkeep hl rfl hrem⟩
  | testing c n i out =>
    obtain ⟨line, hl, hn, hlen, hi, hout, hrem⟩ := h
    exact ⟨line, hcomp n _ hl, by rwa [hdel], hlen, hi, hout, hkeep hl rfl hrem⟩
  | closing ret n out =>
    obtain ⟨line, hl, hn, hret, hout⟩ := h
    exact ⟨line, hcomp n _ hl, by rwa [hdel], hret, hout⟩

/-- A keyboard interrupt. -/
theorem key_inStep {t : TermNum} {x : Session} {k : UInt8} {r : Regs} {o : Outcome} {s' : Kernel} (h : InStep t x)
    (hq : Undisturbed t x (.key k r)) (hs : keyboardRead img k r x.kernel = some (o, s')) :
    InStep t ⟨s', x.log.key x.kernel k r, x.reader⟩ := by
  obtain ⟨hlen, hspoil⟩ := hq
  obtain ⟨hbuf, hent⟩ := key_buffers hs
  have hstep : step img x.kernel (.key k r) = some (o, s') := hs
  have hcomp : ∀ (n : Nat) (l : TermNum × List UInt8), x.log.completed[n]? = some l →
      (x.log.key x.kernel k r).completed[n]? = some l := by
    intro n l hl
    unfold Log.key
    simp only
    split
    · rw [List.getElem?_append_left (List.getElem?_eq_some_iff.1 hl).1, hl]
    · exact hl
  constructor
  · exact step_keptApart h.apart hlen hstep
  · intro l hl
    by_cases hk : k = 10
    · simp only [Log.key, if_pos hk] at hl
      rcases List.mem_append.1 hl with hl | hl
      · obtain ⟨hst, hrest⟩ := h.fits l hl
        exact ⟨(hbuf _ hst).1, hrest⟩
      · obtain rfl := List.mem_singleton.1 hl
        exact ⟨(hbuf _ h.apart.cur).1, h.apart.shown.room, h.apart.shown.noNewline⟩
    · simp only [Log.key, if_neg hk] at hl
      obtain ⟨hst, hrest⟩ := h.fits l hl
      exact ⟨(hbuf _ hst).1, hrest⟩
  · intro l hl hfresh
    by_cases hk : k = 10
    · subst hk
      simp only [Log.key, if_true, List.getLast?_append, List.getLast?_singleton, Option.some_or] at hl
      obtain rfl := Option.some.inj hl
      exact enter_remains h.apart.shown h.apart.cur hs
    · simp only [Log.key, if_neg hk, decide_eq_false hk, Bool.false_or, Bool.and_eq_true, Bool.not_eq_true',
        decide_eq_false_iff_not] at hl hfresh
      refine (h.last l hl hfresh.1).key (h.fits l (List.mem_of_mem_getLast? hl)).1 hs ?_
      intro hcur hsp
      exact hfresh.2 ⟨l, hl, hcur, hsp⟩
  · intro n hn
    have hlt := h.numbers n hn
    unfold Log.key
    simp only
    split
    · rw [List.length_append]
      omega
    · exact hlt
  · intro hentered hne
    by_cases hk : k = 10
    · simp only [Log.key, if_pos hk, List.length_append, List.length_singleton, Nat.add_sub_cancel]
      intro hmem
      exact absurd (h.numbers _ hmem) (lt_irrefl _)
    · simp only [Log.key, if_neg hk] at hne ⊢
      refine h.pending ?_ hne
      rw [hent, decide_eq_false hk, Bool.or_false] at hentered
      exact hentered
  · exact h.reader.key (fun l hl => (h.fits l hl).1) hspoil hs rfl hcomp

/-- The displayed terminal's buffer is read where its line remains. -/
theorem Remains.textAt {s : Kernel} {line : List UInt8} {i : Nat} (h : Remains s s.curTerminal line i) {b : UInt8}
    (hb : (line ++ [10])[i]? = some b) : Kernel.textAt s.textBuf i = b := by
  have hbuf : s.bufferOf s.curTerminal = s.textBuf := if_pos rfl
  rw [← hbuf]
  exact h i (le_refl i) b hb

theorem Remains.mono {s : Kernel} {u : TermNum} {line : List UInt8} {i j : Nat} (h : Remains s u line i) (hij : i ≤ j) :
    Remains s u line j := fun p hp => h p (hij.trans hp)

/-- An access of the reader changes nothing but its own place, what it stores, and at its end `entered`. -/
theorem InStep.reading {t : TermNum} {s s' : Kernel} {g : Log} {rd rd' : Reader} (h : InStep t ⟨s, g, rd⟩)
    (hterm : s'.terminals = s.terminals) (hct : s'.curTerminal = s.curTerminal) (hf2 : s'.term2Flag = s.term2Flag)
    (hf3 : s'.term3Flag = s.term3Flag) (htext : s'.textBuf = s.textBuf) (hcount : s'.counter = s.counter)
    (hent : s'.entered = s.entered) (hrd : ReaderOk t s' g rd') : InStep t ⟨s', g, rd'⟩ := by
  constructor
  · exact h.apart.frame hterm hct hf2 hf3 htext hcount
  · intro l hl
    simp only
    rw [started_congr hf2 hf3]
    exact h.fits l hl
  · intro l hl hfresh p hp b hb
    have hbuf : s'.bufferOf l.1 = s.bufferOf l.1 := by
      unfold bufferOf
      rw [hct, htext, hterm]
    simp only
    rw [hbuf]
    exact h.last l hl hfresh p hp b hb
  · exact h.numbers
  · intro he hne
    simp only at he
    rw [hent] at he
    exact h.pending he hne
  · exact hrd

theorem poll_inStep {t : TermNum} {s : Kernel} {g : Log} {c : Reading} (h : InStep t ⟨s, g, .polling c⟩)
    (hq : Undisturbed t ⟨s, g, .polling c⟩ .tick) (he : s.entered = true) :
    InStep t ⟨s, g, .copying c (g.completed.length - 1) 0 []⟩ := by
  obtain ⟨line, hl, hfresh, hlen⟩ := hq he
  have hne : g.completed ≠ [] := by
    intro hnil
    rw [hnil] at hl
    cases hl
  refine h.reading rfl rfl rfl rfl rfl rfl rfl ⟨line, ?_, h.pending he hne, hlen, Nat.zero_le _, rfl, ?_⟩
  · rw [← List.getLast?_eq_getElem?]
    exact hl
  · exact h.last (t, line) hl hfresh

theorem copy_inStep {t : TermNum} {s : Kernel} {g : Log} {c : Reading} {n i : Nat} {out : List UInt8}
    (h : InStep t ⟨s, g, .copying c n i out⟩) (hc : s.curTerminal = t) :
    (i < c.len ∧ i < 128) ∧ InStep t ⟨s.userPut (c.buf + i) 1 fun _ => textAt s.textBuf i, g,
      .testing c n i (out ++ [textAt s.textBuf i])⟩ := by
  obtain ⟨line, hl, hn, hlen, hi, hout, hrem⟩ := h.reader
  have hroom := (h.fits _ (List.mem_of_getElem? hl)).2.1
  simp only at hroom
  subst hc
  have hlt : i < (line ++ [10]).length := by
    rw [List.length_append, List.length_singleton]
    omega
  have hb := List.getElem?_eq_getElem hlt
  refine ⟨⟨by omega, by omega⟩, h.reading rfl rfl rfl rfl rfl rfl rfl ⟨line, hl, hn, hlen, hi, ?_, hrem⟩⟩
  rw [hrem.textAt hb, hout, List.take_add_one, hb, List.take_append_of_le_length hi]
  rfl

theorem test_inStep {t : TermNum} {s : Kernel} {g : Log} {c : Reading} {n i : Nat} {out : List UInt8}
    (h : InStep t ⟨s, g, .testing c n i out⟩) (hc : s.curTerminal = t) :
    InStep t ⟨s, g, if textAt s.textBuf i = 10 then .closing (some i) n out else .copying c n (i + 1) out⟩ := by
  obtain ⟨line, hl, hn, hlen, hi, hout, hrem⟩ := h.reader
  have hnl := (h.fits _ (List.mem_of_getElem? hl)).2.2
  simp only at hnl
  subst hc
  refine h.reading rfl rfl rfl rfl rfl rfl rfl ?_
  rcases Nat.lt_or_eq_of_le hi with hlt | heq
  · -- inside the line there is no newline
    have hb : (line ++ [10])[i]? = some (line.get ⟨i, hlt⟩) := by
      rw [List.getElem?_append_left hlt, List.getElem?_eq_getElem hlt]
      rfl
    have hne : line.get ⟨i, hlt⟩ ≠ 10 := by
      intro h10
      exact hnl (h10 ▸ List.get_mem line ⟨i, hlt⟩)
    rw [hrem.textAt hb, if_neg hne]
    refine ⟨line, hl, hn, hlen, hlt, ?_, hrem.mono (Nat.le_succ i)⟩
    rw [hout, List.take_append_of_le_length hlt]
  · have hb : (line ++ [10])[i]? = some 10 := by
      rw [heq, List.getElem?_append_right (le_refl _), Nat.sub_self]
      rfl
    rw [hrem.textAt hb, if_pos rfl]
    refine ⟨line, hl, hn, by rw [heq], ?_⟩
    rw [hout, heq, List.take_of_length_le]
    rw [List.length_append, List.length_singleton]

theorem close_inStep {t : TermNum} {s : Kernel} {g : Log} {ret : Option Nat} {n : Nat} {out : List UInt8}
    (h : InStep t ⟨s, g, .closing ret n out⟩) :
    InStep t ⟨{ s with entered := false }, { g with delivered := n :: g.delivered }, .idle⟩ := by
  obtain ⟨line, hl, -⟩ := h.reader
  constructor
  · exact h.apart.frame rfl rfl rfl rfl rfl rfl
  · exact h.fits
  · exact h.last
  · intro m hm
    rcases List.mem_cons.1 hm with rfl | hm
    · exact (List.getElem?_eq_some_iff.1 hl).1
    · exact h.numbers m hm
  · intro he
    cases he
  · trivial

theorem session_inStep {t : TermNum} {x : Session} {op : SessionOp} {y : Outcome × Session} (h : InStep t x)
    (hq : Undisturbed t x op) (hy : sessionStep img t x op = some y) : InStep t y.2 := by
  obtain ⟨s, g, rd⟩ := x
  cases op with
  | key k r =>
    obtain ⟨⟨o, s'⟩, hs, rfl⟩ := Option.map_eq_some_iff.1 hy
    exact key_inStep h hq hs
  | call buf len =>
    simp only [sessionStep] at hy
    split at hy
    · split at hy
      · cases hy
        exact h.reading rfl rfl rfl rfl rfl rfl rfl trivial
      · cases hy
    · cases hy
  | tick =>
    simp only [sessionStep] at hy
    split at hy
    · rename_i hc
      cases rd with
      | idle => cases hy
      | polling c =>
        simp only [tick] at hy
        split at hy
        · rename_i he
          cases hy
          exact poll_inStep h hq he
        · cases hy
          exact h
      | copying c n i out =>
        obtain ⟨hlt, hnext⟩ := copy_inStep h hc
        simp only [tick, if_pos hlt] at hy
        cases hy
        exact hnext
      | testing c n i out =>
        have hnext := test_inStep h hc
        simp only [tick] at hy
        split at hy
        · rename_i ht
          cases hy
          rwa [if_pos ht] at hnext
        · rename_i ht
          cases hy
          rwa [if_neg ht] at hnext
      | closing ret n out =>
        cases hy
        exact close_inStep h
    · cases hy

theorem delivers_of_inStep {t : TermNum} {x : Session} {op : SessionOp} (h : InStep t x) : Delivers img t x op := by
  rintro ret n out rfl hc hrd
  have hok := h.reader
  rw [hrd] at hok
  obtain ⟨line, hl, hn, rfl, hout⟩ := hok
  refine ⟨line, ⟨{ x.kernel with entered := false }, { x.log with delivered := n :: x.log.delivered }, .idle⟩, hl, hout,
    hn, (if_pos hc).trans ?_⟩
  rw [hrd]
  rfl

/-! ## Runs -/

/-- Nothing is typed yet, and the process is not reading. -/
def Session.start (s : Kernel) : Session := ⟨s, ⟨fun _ => [], [], false, []⟩, .idle⟩

/-- From any state with nothing typed yet, however keyboard interrupts come in before, during and between the
reads of a process: as long as they do not disturb it, every read that returns delivers a line completed in its
terminal, unchanged and for the first time. -/
theorem reads_deliver (img : Image) (t : TermNum) (s : Kernel) (hc : s.started s.curTerminal = true)
    (h0 : s.counter = 0) (ops : List SessionOp)
    (hq : Along (sessionStep img t) (Undisturbed t) (Session.start s) ops) :
    Along (sessionStep img t) (Delivers img t) (Session.start s) ops := by
  have hinit : InStep t (Session.start s) := by
    constructor
    · exact keptApart_start hc h0
    · intro l hl
      cases hl
    · intro l hl
      cases hl
    · intro n hn
      cases hn
    · intro _ hne
      exact absurd rfl hne
    · trivial
  exact along_mono (I := InStep t) (fun _ _ h _ => delivers_of_inStep h) (fun _ _ _ h hq hy => session_inStep h hq hy) hinit hq

/-- A keystroke. -/
def press (k : UInt8) : SessionOp := .key k ⟨0, 0⟩

/-- `ab` and Enter, a read of it, with an `x` typed once the read has passed the first character. -/
def typeAhead : List SessionOp :=
  [press 97, press 98, press 10, .call 0x8000000 128, .tick, .tick, .tick, press 120] ++ List.replicate 5 .tick

theorem reads_deliver_ahead :
    Along (sessionStep .sample .t1) (Undisturbed .t1) (Session.start firstShell) typeAhead ∧
      Along (sessionStep .sample .t1) (Delivers .sample .t1) (Session.start firstShell) typeAhead ∧
      (run (sessionStep .sample .t1) (Session.start firstShell) typeAhead).map (fun x => x.log.delivered) = some [0] := by
  have hq : Along (sessionStep .sample .t1) (Undisturbed .t1) (Session.start firstShell) typeAhead := by decide +kernel
  exact ⟨hq, reads_deliver .sample .t1 firstShell (by decide +kernel) (by decide +kernel) typeAhead hq, by decide +kernel⟩

/-- `ab` and Enter, then an `x` before the read. -/
def typeOver : List SessionOp :=
  [press 97, press 98, press 10, press 120, .call 0x8000000 128] ++ List.replicate 7 .tick

/-- What the reader is about to return. -/
def Reader.result : Reader → Option (Option Nat × Nat × List UInt8)
  | .closing ret n out => some (ret, n, out)
  | _ => none

theorem Reader.eq_closing {rd : Reader} {ret : Option Nat} {n : Nat} {out : List UInt8}
    (h : rd.result = some (ret, n, out)) : rd = .closing ret n out := by
  cases rd <;> cases h
  rfl

/-- The read returns `xb`, which was never completed. -/
theorem read_delivers_other :
    ∃ x, run (sessionStep .sample .t1) (Session.start firstShell) typeOver = some x ∧
      x.log.completed = [(.t1, [97, 98])] ∧ x.reader = .closing (some 2) 0 [120, 98, 10] ∧
      ¬ Delivers .sample .t1 x .tick := by
  let x := (run (sessionStep .sample .t1) (Session.start firstShell) typeOver).getD (Session.start firstShell)
  have hcur : x.kernel.curTerminal = .t1 := by decide +kernel
  have hlog : x.log.completed = [(.t1, [97, 98])] := by decide +kernel
  have hrd : x.reader = .closing (some 2) 0 [120, 98, 10] := Reader.eq_closing (by decide +kernel)
  refine ⟨x, run_getD (by decide +kernel), hlog, hrd, ?_⟩
  intro h
  obtain ⟨line, -, hl, hout, -⟩ := h _ _ _ rfl hcur hrd
  rw [hlog] at hl
  cases hl
  exact absurd hout (by decide)

end Kernel

end Os391
