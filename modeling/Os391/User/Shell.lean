/-
A session at the shell: keys come in while it reads, the line they make is executed, and the program found there runs
to its end. What is on the screen is each line behind its prompt, and what is replied to it.
-/
import Os391.Process.Loading
import Os391.Process.Tree
import Os391.Terminal.ReadLine
import Os391.Terminal.Typing
import Os391.User.Cat

namespace Os391

open Bytes Machine

namespace Kernel

/-! ## The shell -/

/-- What a session is given: where the buffers of the shell and of the programs lie, how often the loop of a program
turns at most, the registers at an `execute` and at a `halt`, and what a local holds that was never assigned. -/
structure Setting where
  shellBuf : Int
  buf : Int
  turns : Nat
  caller : Regs
  callee : Regs
  junk : Kernel → Int
  shellBuf_ne : shellBuf ≠ 0
  buf_ne : buf ≠ 0
  junk_ne : ∀ s, junk s ≠ -1

/-- The programs on the disk, by the names of their files. -/
def userMain (img : Image) (x : Setting) (name : List UInt8) (s : Kernel) : Option (Int × Kernel) :=
  if name = ascii ['c', 'a', 't'] then cat img x.junk x.buf x.turns s
  else if name = ascii ['l', 's'] then ls img x.junk x.buf x.turns s
  else none

/-- `ece391_execute`: it comes back when the program has returned from `main` and halted. -/
def runCommand (img : Image) (x : Setting) (line : CString) (s : Kernel) : Option (Int × Kernel) :=
  (execute img (some line) x.caller s).bind fun e =>
    match e.1 with
    | .ret v => some (v, e.2)
    | .enter _ =>
      (userMain img x (commandOf (scanned line)) e.2).bind fun m =>
        (halt img x.callee m.2).bind fun h => if h.1 = .resume then some (0, h.2) else none
    | _ => none

/-- The keys that come while `read_helper` polls; it goes on once a line is entered. -/
def awaitLine (img : Image) : Kernel → List (UInt8 × Regs) → Option (List (UInt8 × Regs) × Kernel)
  | s, [] => if s.entered then some ([], s) else none
  | s, k :: ks => if s.entered then some (k :: ks, s) else (keyStep img s k).bind fun y => awaitLine img y.2 ks

/-- How a turn of the loop of `shell` ends. -/
inductive Turn
  /-- `main` returns -/
  | done (v : Int)
  | next
  deriving DecidableEq

/-- What `shell` does with a line. -/
def shellLine (img : Image) (x : Setting) (line : CString) (s : Kernel) : Option (Turn × Kernel) :=
  if line.bytes = ascii ['e', 'x', 'i', 't'] then some (.done 0, s)
  else if line.bytes = [] then some (.next, s)
  else
    (runCommand img x line s).bind fun e =>
      if e.1 = -1 then (fdputs "no such command\n" e.2).map (.next, ·)
      else if e.1 = 256 then (fdputs "program terminated by exception\n" e.2).map (.next, ·)
      else if e.1 ≠ 0 then (fdputs "program terminated abnormally\n" e.2).map (.next, ·)
      else some (.next, e.2)

/-- A turn of the loop of `shell`, with the keys to come and those left. -/
def shellTurn (img : Image) (x : Setting) (keys : List (UInt8 × Regs)) (s : Kernel) :
    Option (Turn × List (UInt8 × Regs) × Kernel) :=
  (fdputs "391OS> " s).bind fun s =>
  (awaitLine img s keys).bind fun w =>
  (returned x.junk (sysRead img 0 x.shellBuf 1023 w.2)).bind fun c =>
    if c.1 = -1 then (fdputs "read from keyboard failed\n" c.2).map fun s => (.done 3, w.1, s)
    else
      let cnt := if 0 < c.1 ∧ c.2.userView x.shellBuf (c.1 - 1).toNat = 10 then c.1 - 1 else c.1
      let s := c.2.userPut (x.shellBuf + cnt) 1 fun _ => 0
      (shellLine img x (stringAt (s.userView x.shellBuf) 1024) s).map fun t => (t.1, w.1, t.2)

/-- Some turns of the loop. -/
def shellTurns (img : Image) (x : Setting) : Nat → List (UInt8 × Regs) → Kernel → Option (List (UInt8 × Regs) × Kernel)
  | 0, keys, s => some (keys, s)
  | n + 1, keys, s =>
    (shellTurn img x keys s).bind fun t =>
      match t.1 with
      | .next => shellTurns img x n t.2.1 t.2.2
      | .done _ => none

/-- `main` of `shell`, up to so many turns of its loop. -/
def shellMain (img : Image) (x : Setting) (n : Nat) (keys : List (UInt8 × Regs)) (s : Kernel) :
    Option (List (UInt8 × Regs) × Kernel) :=
  (fdputs "Starting 391 Shell\n" s).bind (shellTurns img x n keys)

variable {img : Image} {x : Setting}

/-! ## Typing -/

/-- What keys change when they switch no terminal. -/
def KeysOnly (s0 s : Kernel) : Prop :=
  ∃ con textBuf counter dev, s = { s0 with con := con, textBuf := textBuf, counter := counter, dev := dev }

theorem KeysOnly.more {s0 s : Kernel} (h : KeysOnly s0 s) (con : Console) (textBuf : Fin 128 → UInt8) (counter : UInt32)
    (dev : Devices) : KeysOnly s0 { s with con := con, textBuf := textBuf, counter := counter, dev := dev } := by
  obtain ⟨con0, textBuf0, counter0, dev0, rfl⟩ := h
  exact ⟨con, textBuf, counter, dev, rfl⟩

/-- A line typed behind a prompt, on the screen as in the buffer. -/
structure Typing (s0 s : Kernel) (top : Nat) (p : Paper UInt8) (line : List UInt8) : Prop where
  buffer : ShowsLine s line
  shows : Console.Shows s.con top (p.write 10 line)
  printable : ∀ b ∈ line, Console.Printable b
  high : s.con.screenY ≤ 23
  only : KeysOnly s0 s

/-- A modifier passes 0, which is no character. -/
theorem keyboardRead_zero (img : Image) (r : Regs) {s : Kernel} (hx : s.con.screenX < 79) :
    keyboardRead img 0 r s = some (.handled, s) := by
  unfold keyboardRead numCols
  simp only
  rw [if_neg (by decide), if_neg (by decide), if_neg (by decide), if_neg (by rintro (h | h); exacts [by omega, by cases h]),
    if_neg (by decide), if_neg (fun h => absurd h.1 (by decide))]
  rfl

/-- A key pressed left of the last column, in a line behind a prompt. -/
theorem Typing.key (img : Image) {s0 s : Kernel} {top : Nat} {p : Paper UInt8} {line : List UInt8} (h : Typing s0 s top p line)
    (hp : p.Fresh 80 32) (h7 : 7 ≤ p.col) {k : UInt8} (hk : IsTyping k) (r : Regs) (hx : p.col + line.length < 79) :
    ∃ s', keyStep img s (k, r) = some (.handled, s') ∧ Typing s0 s' top p (applyKey line k) := by
  obtain ⟨hbuf, hshows, hprint, hhigh, honly⟩ := h
  obtain ⟨-, hcol⟩ := Paper.write_chars (p := p) hbuf.noNewline
  have hscreenX := hshows.col
  have hscreenY := hshows.above
  rw [hcol] at hscreenX
  by_cases hk0 : k = 0
  · subst hk0
    rw [applyKey_zero]
    exact ⟨s, keyboardRead_zero img r (by omega), hbuf, hshows, hprint, hhigh, honly⟩
  obtain ⟨s', hs', hst⟩ := @keyboardRead_stroke img k r s (hk.switchTo s)
  refine ⟨s', hs', ?_⟩
  cases hst with
  | tab => exact absurd hk (by unfold IsTyping; decide)
  | ctrlC => exact absurd hk (by unfold IsTyping; decide)
  | ctrlL => exact absurd hk (by unfold IsTyping; decide)
  | enter => exact absurd hk (by unfold IsTyping; decide)
  | lineBreak _ _ hbreak =>
    unfold numCols at hbreak
    omega
  | atStart _ hor =>
    -- right behind the prompt the line is empty
    have hnil : line = [] := by
      rcases hor with hat | h0
      · unfold atPrompt at hat
        have h7' : s.con.screenX = 7 := by simpa using (Bool.and_eq_true_iff.1 hat).2
        exact List.length_eq_zero_iff.1 (by omega)
      · exact hbuf.counter_eq_zero.1 h0
    subst hnil
    exact ⟨hbuf.frame rfl rfl, hshows, hprint, hhigh, honly.more s.con s.textBuf s.counter _⟩
  | delete _ _ h0 =>
    rw [applyKey_back]
    have hne : line ≠ [] := mt hbuf.counter_eq_zero.2 h0
    have hlen := List.length_pos_iff.2 hne
    have hwrite : (p.write 10 line).erase 32 = p.write 10 line.dropLast := by
      have hlast := hprint _ (List.getLast_mem hne)
      conv_lhs => rw [← List.dropLast_append_getLast hne, Paper.write_append]
      have hdrop : (10 : UInt8) ∉ line.dropLast := fun hm => hbuf.noNewline (List.mem_of_mem_dropLast hm)
      obtain ⟨-, hcol'⟩ := Paper.write_chars (p := p) hdrop
      rw [List.length_dropLast] at hcol'
      exact Paper.erase_type hp.write (by rw [hcol']; omega) (hlast.ne (by decide))
    have herase := hshows.erase hhigh (by rw [hcol]; omega)
    rw [hwrite] at herase
    exact ⟨hbuf.dropLast h0 rfl rfl, herase, fun b hb => hprint b (List.mem_of_mem_dropLast hb), hhigh,
      honly.more _ _ _ s.dev⟩
  | type _ h10 _ _ hc =>
    have hlt := hbuf.counter_lt.1 hc.2.2
    rw [applyKey, if_pos ⟨hc.1, hc.2.1⟩, if_pos hlt]
    have hch : Console.Printable k := ⟨hc.1, hc.2.1⟩
    have hput := hshows.print hhigh (by rw [hcol]; exact hx) hch
    refine ⟨hbuf.push h10 hlt rfl rfl, ?_, ?_, ?_, honly.more _ _ _ s.dev⟩
    · rw [Paper.write_append]
      exact hput
    · intro b hb
      rcases List.mem_append.1 hb with hb | hb
      · exact hprint b hb
      · exact List.mem_singleton.1 hb ▸ hch
    · have hin : s.con.InScreen := by
        unfold Console.InScreen numCols numRows
        omega
      show (s.con.putc k).screenY ≤ 23
      rw [(Console.putc_cursor hin hch.not_break).2]
      exact hhigh
  | press _ _ h8 _ hc =>
    rcases hk with hk | hk | hk
    · exact absurd ⟨hk.1, hk.2, hbuf.counter_lt.2 (by omega)⟩ hc
    · exact absurd hk h8
    · exact absurd hk hk0
  | ignored _ _ h8 _ hc =>
    rcases hk with hk | hk | hk
    · exact absurd ⟨hk.1, hk.2, hbuf.counter_lt.2 (by omega)⟩ hc
    · exact absurd hk h8
    · exact absurd hk hk0

/-- The keys of a line, none of them pressed in the last column. -/
theorem Typing.keys (img : Image) {s0 : Kernel} {top : Nat} {p : Paper UInt8} (hp : p.Fresh 80 32) (h7 : 7 ≤ p.col)
    (h0 : s0.entered = false) (rest : List (UInt8 × Regs)) : ∀ {keys : List (UInt8 × Regs)} {s : Kernel}
    {line : List UInt8}, Typing s0 s top p line → (∀ k ∈ keys, IsTyping k.1) →
    (∀ ks, ks <+: keys → p.col + ((ks.map Prod.fst).foldl applyKey line).length < 79) →
      ∃ s', awaitLine img s (keys ++ rest) = awaitLine img s' rest ∧
        Typing s0 s' top p ((keys.map Prod.fst).foldl applyKey line)
  | [], s, _, h, _, _ => ⟨s, rfl, h⟩
  | k :: keys, s, line, h, hk, hroom => by
    obtain ⟨s1, hs1, h1⟩ := h.key img hp h7 (hk k List.mem_cons_self) k.2 (hroom [] List.nil_prefix)
    obtain ⟨s', hs', h'⟩ := Typing.keys img hp h7 h0 rest h1 (fun k' hm => hk k' (List.mem_cons_of_mem _ hm))
      fun ks hks => hroom (k :: ks) (List.cons_prefix_cons.2 ⟨rfl, hks⟩)
    refine ⟨s', ?_, h'⟩
    have hentered : s.entered = false := by
      obtain ⟨con, textBuf, counter, dev, hsame⟩ := h.only
      rw [hsame]
      exact h0
    rw [List.cons_append, awaitLine, hentered, if_neg Bool.false_ne_true, hs1, Option.bind_some]
    exact hs'

/-- Enter behind the line, and `read_helper` goes on. -/
theorem Typing.enter (img : Image) {s0 s : Kernel} {top : Nat} {p : Paper UInt8} {line : List UInt8} (h : Typing s0 s top p line)
    (h0 : s0.entered = false) (r : Regs) (rest : List (UInt8 × Regs)) : ∃ con textBuf dev,
      let s' := { s0 with con := con, textBuf := textBuf, counter := 0, entered := true, dev := dev }
      awaitLine img s ((10, r) :: rest) = some (rest, s') ∧ LineEnds textBuf line.length ∧
        (∀ i, i < line.length → textAt textBuf i = line.getD i 0) ∧
        Console.Shows con top (p.write 10 (line ++ [10])) := by
  obtain ⟨hbuf, hshows, -, hhigh, con0, textBuf0, counter0, dev0, hsame⟩ := h
  have hroom := hbuf.room
  have hentered : s.entered = false := by
    rw [hsame]
    exact h0
  have hchar : ∀ i, i < line.length → textAt (setText s.counter.toNat 10 s.textBuf) i = line.getD i 0 := by
    intro i hi
    unfold textAt setText
    rw [dif_pos (by omega), if_neg (by rw [hbuf.position]; exact Nat.ne_of_lt hi), List.getD_eq_getElem _ _ hi]
    exact hbuf.text.2 ⟨i, by omega⟩ _ (List.getElem?_eq_getElem hi)
  refine ⟨s.con.putc 10, setText s.counter.toNat 10 s.textBuf, s.dev, ?_, ⟨by omega, ?_, fun i hi => ?_⟩, hchar, ?_⟩
  · have hkey : keyStep img s (10, r) = some (.handled, { s with
        con := s.con.putc 10, textBuf := setText s.counter.toNat 10 s.textBuf, counter := 0, entered := true }) := by
      obtain ⟨s', hs', hst⟩ := @keyboardRead_stroke img 10 r s (switchTo_other (by decide) s)
      refine hs'.trans ?_
      cases hst with
      | enter =>
        unfold numRows
        rw [if_neg (by omega)]
      | lineBreak _ h10 | type _ h10 | press _ h10 | ignored _ h10 => exact absurd rfl h10
    rw [awaitLine, hentered, if_neg Bool.false_ne_true, hkey, Option.bind_some]
    have hdone : ∀ (ks : List (UInt8 × Regs)) (s : Kernel), s.entered = true → awaitLine img s ks = some (ks, s) := by
      rintro (_ | ⟨k, ks⟩) s hs <;> rw [awaitLine, hs, if_pos rfl]
    rw [hdone _ _ rfl, hsame]
  · unfold textAt setText
    rw [dif_pos (by omega), if_pos hbuf.position.symm]
  · rw [hchar i hi]
    rw [List.getD_eq_getElem _ _ hi]
    exact fun h10 => hbuf.noNewline (h10 ▸ List.getElem_mem hi)
  · rw [Paper.write_append]
    exact hshows.break hhigh

theorem foldl_applyKey_length : ∀ (keys line : List UInt8), (keys.foldl applyKey line).length ≤ line.length + keys.length
  | [], _ => le_refl _
  | k :: keys, line => by
    have hone : (applyKey line k).length ≤ line.length + 1 := by
      unfold applyKey
      split_ifs
      · simp
      · omega
      · rw [List.length_dropLast]
        omega
      · omega
    have hrest := foldl_applyKey_length keys (applyKey line k)
    rw [List.foldl_cons, List.length_cons]
    omega

/-- So few keys that none can come to the last column. -/
theorem room_of_length {col : Nat} {keys : List (UInt8 × Regs)} (h : col + 7 + keys.length < 79) :
    ∀ ks, ks <+: keys → col + 7 + (typedLine (ks.map Prod.fst)).length < 79 := by
  intro ks hks
  have htyped := foldl_applyKey_length (ks.map Prod.fst) []
  rw [List.length_map, List.length_nil] at htyped
  have hle := hks.length_le
  unfold typedLine
  omega

/-! ## The line -/

/-- A text put out is typed on the paper. -/
theorem fdputs_prints {s : Kernel} {top : Nat} {p : Paper UInt8} (h : Prints s top p) (text : String)
    (htext : Text (ascii text.toList)) (hfit : Paper.Fits 79 p.col ((ascii text.toList).splitOn 10)) :
    ∃ con, fdputs text s = some { s with con := con } ∧
      Prints { s with con := con } (Paper.followText 10 24 top p (ascii text.toList)) (p.write 10 (ascii text.toList)) := by
  have hlength : (ascii text.toList).length = text.length := by
    rw [ascii, List.length_map, String.length_toList]
  have hbytes : (List.range (ascii text.toList).length).map (fun i => (ascii text.toList).getD i 0) = ascii text.toList := by
    apply List.ext_getElem
    · simp
    · intro i h1 h2
      rw [List.getElem_map, List.getElem_range, List.getD_eq_getElem _ _ h2]
  obtain ⟨o, con, hwrite, -, hprints⟩ := writeFd_prints h hbytes htext hfit
  rw [hlength] at hwrite
  refine ⟨con, ?_, hprints⟩
  rw [fdputs, hwrite, Option.map_some]

/-- The read of an entered line, and the zero that the shell puts in the place of its newline. -/
theorem read_line (img : Image) (x : Setting) {s : Kernel} {line : CString} (hflags : (s.pcblock.fileStruct 0).flags ≠ 0)
    (hfops : (s.pcblock.fileStruct 0).fopsPtr = some .terminalFops) (hentered : s.entered = true)
    (hends : LineEnds s.textBuf line.bytes.length)
    (hchars : ∀ i, i < line.bytes.length → textAt s.textBuf i = line.bytes.getD i 0) :
    ∃ s', returned x.junk (sysRead img 0 x.shellBuf 1023 s) = some ((line.bytes.length : Int), s') ∧
      ¬ (0 < (line.bytes.length : Int) ∧ s'.userView x.shellBuf ((line.bytes.length : Int) - 1).toNat = 10) ∧
      stringAt ((s'.userPut (x.shellBuf + line.bytes.length) 1 fun _ => 0).userView x.shellBuf) 1024 = line ∧
      ∃ d v fdVal user dev, s' = { s with
        pcblock := s.pcblock.setFile d fun f => { f with fpos := v }
        fdVal := fdVal, user := user, entered := false, dev := dev } := by
  obtain ⟨s', hread, hstores⟩ := @terminalRead_stores s 0 x.shellBuf 1023 line.bytes.length hends hentered (by decide)
  have hlt := hends.1
  rw [if_pos (by omega)] at hread
  have hsys : sysRead img 0 x.shellBuf 1023 s = some (.ret line.bytes.length, s') := by
    have hcheck : checkFd 0 1023 s = some 0 := checkFd_open (d := 0) (n := 1023) hflags
    unfold sysRead
    rw [if_neg x.shellBuf_ne, hcheck]
    simp only [hfops]
    exact hread
  have hview : ∀ i, i < line.bytes.length → s'.userView x.shellBuf i = line.bytes.getD i 0 := fun i hi =>
    (hstores.line i (by omega)).trans (hchars i hi)
  refine ⟨s', congrArg (returned x.junk) hsys, ?_, ?_, ?_⟩
  · rintro ⟨hpos, h10⟩
    rw [hview _ (by omega), ← hchars _ (by omega)] at h10
    exact hends.2.2 _ (by omega) h10
  · refine stringAt_isString ⟨line.noNul, fun i hi => ?_⟩ (by omega)
    rcases Nat.eq_or_lt_of_le hi with rfl | hi
    · rw [userView_put_self, List.getD_eq_default _ _ (le_refl _)]
    · rw [userView_put_below s' x.shellBuf 0 hi, hview i hi]
  · obtain ⟨d, v, fdVal, user, entered, dev, rfl⟩ := sysRead_eq hsys
    have h0 := hstores.entered
    simp only at h0
    subst h0
    exact ⟨d, v, fdVal, user, dev, rfl⟩

/-- The shell of a terminal at the head of its loop. Nothing is typed, no switch or restart is under way, and commands
that could not be loaded have taken so many of the entries 4, 5 and 6; the others are free. -/
structure Ready (m : Pid) (lost : Nat) (s : Kernel) : Prop where
  pid : m ≠ 0 ∧ m.val ≤ 3
  lost_le : lost ≤ 3
  cr3 : s.cr3 = dirOf m
  pc : s.pc ≠ 0
  restarts : s.term1Rst = false ∧ s.term2Rst = false ∧ s.term3Rst = false
  presses : s.term2Press = false ∧ s.term3Press = false
  first : s.tasks 1 ≠ 0
  entries : ∀ n : Pid, 4 ≤ n.val → (s.tasks n = 0 ↔ 4 + lost ≤ n.val)
  counter : s.counter = 0
  entered : s.entered = false
  flags : (s.pcblock.fileStruct 0).flags ≠ 0
  fopsPtr : (s.pcblock.fileStruct 0).fopsPtr = some .terminalFops

theorem Ready.screen {m : Pid} {lost : Nat} {s : Kernel} (h : Ready m lost s) (con : Console) :
    Ready m lost { s with con := con } :=
  ⟨h.pid, h.lost_le, h.cr3, h.pc, h.restarts, h.presses, h.first, h.entries, h.counter, h.entered, h.flags, h.fopsPtr⟩

theorem text_prompt : Text prompt := by decide +kernel

/-- A turn of the loop up to the line that is typed. -/
theorem shellTurn_line (img : Image) (x : Setting) {m : Pid} {lost : Nat} {s : Kernel} (h : Ready m lost s) {top : Nat} {p : Paper UInt8}
    (hprints : Prints s top p) (hp : p.Fresh 80 32) {keys : List (UInt8 × Regs)} (hk : ∀ k ∈ keys, IsTyping k.1)
    (hroom : ∀ ks, ks <+: keys → p.col + 7 + (typedLine (ks.map Prod.fst)).length < 79) {line : CString}
    (hline : line.bytes = typedLine (keys.map Prod.fst)) (r : Regs) (rest : List (UInt8 × Regs)) :
    ∃ s', shellTurn img x (keys ++ (10, r) :: rest) s = (shellLine img x line s').map (fun t => (t.1, rest, t.2)) ∧
      Ready m lost s' ∧ Prints s' (Paper.followText 10 24 top p (prompt ++ (line.bytes ++ [10])))
        (p.write 10 (prompt ++ (line.bytes ++ [10]))) := by
  have hcol : p.col + 7 < 79 := hroom [] List.nil_prefix
  have hnl : (10 : UInt8) ∉ prompt := by decide
  have hprompt : ascii "391OS> ".toList = prompt := by decide
  -- the prompt
  have hfit : Paper.Fits 79 p.col ((ascii "391OS> ".toList).splitOn 10) := by
    have hone : (ascii "391OS> ".toList).splitOn 10 = [prompt] := by decide
    rw [hone]
    exact ⟨by show p.col + 7 ≤ 79; omega, trivial⟩
  obtain ⟨con1, hfd, hprints1⟩ := fdputs_prints hprints "391OS> " (by rw [hprompt]; exact text_prompt) hfit
  rw [hprompt] at hprints1
  rw [Paper.followText_append, Paper.write_append]
  obtain ⟨-, hcol1⟩ := Paper.write_chars (p := p) hnl
  have hlen : prompt.length = 7 := rfl
  rw [hlen] at hcol1
  have hfresh1 : (p.write 10 prompt).Fresh 80 32 := hp.write
  generalize p.write 10 prompt = p1 at hprints1 hcol1 hfresh1 ⊢
  generalize Paper.followText 10 24 top p prompt = top1 at hprints1 ⊢
  have hshows1 := hprints1.shows
  have hhigh : con1.screenY ≤ 23 := by
    have hlow : con1.screenY ≤ 24 := hshows1.low
    have hedge : con1.screenY = 24 → p1.col = 0 := hshows1.edge
    by_contra hgt
    have := hedge (by omega)
    omega
  -- the keys
  have hstart : Typing { s with con := con1 } { s with con := con1 } top1 p1 [] :=
    ⟨⟨by rw [show ({ s with con := con1 } : Kernel).counter = 0 from h.counter]; rfl, .nil, by simp, by simp⟩, hshows1,
      by simp, hhigh, con1, s.textBuf, s.counter, s.dev, rfl⟩
  have hentered : ({ s with con := con1 } : Kernel).entered = false := h.entered
  obtain ⟨s2, hawait, htyped⟩ := hstart.keys img hfresh1 (by omega) hentered ((10, r) :: rest) hk
    fun ks hks => by rw [hcol1]; exact hroom ks hks
  obtain ⟨con, textBuf, dev, henter, hends, hchars, hshows⟩ := htyped.enter img hentered r rest
  have hnlLine : 10 ∉ line.bytes := by
    rw [hline]
    exact htyped.buffer.noNewline
  rw [← typedLine, ← hline] at hends hchars hshows
  -- the line
  obtain ⟨s', hread, hstrip, hstring, d, v, fdVal, user, dev', hs'⟩ := read_line img x (s := { s with
    con := con, textBuf := textBuf, counter := 0, entered := true, dev := dev }) h.flags h.fopsPtr rfl hends hchars
  refine ⟨s'.userPut (x.shellBuf + line.bytes.length) 1 fun _ => 0, ?_, ?_, ?_⟩
  · unfold shellTurn
    rw [hfd, Option.bind_some, hawait, henter, Option.bind_some, hread, Option.bind_some]
    dsimp only
    rw [if_neg (by omega), if_neg hstrip, hstring]
  · subst hs'
    have hkinds := sameKinds_setFpos s.pcblock d v 0
    exact ⟨h.pid, h.lost_le, h.cr3, h.pc, h.restarts, h.presses, h.first, h.entries, rfl, rfl,
      fun h0 => h.flags (hkinds.1.symm.trans h0), hkinds.2.1.trans h.fopsPtr⟩
  · subst hs'
    have hkinds := sameKinds_setFpos s.pcblock d v 1
    have hrow := hshows1.row
    rw [Paper.followText_line hnlLine (by
      have hrow' : (top1 : Int) + con1.screenY = p1.row := hrow
      omega)]
    exact ⟨fun h0 => hprints1.flags (hkinds.1.symm.trans h0), hkinds.2.1.trans hprints1.fopsPtr, hshows⟩

/-! ## Programs come and go -/

/-- An `execute` sets no restart flag. -/
theorem Ready.restarts_and {m : Pid} {lost : Nat} {s : Kernel} (h : Ready m lost s) (a b c : Bool) :
    (s.term1Rst && a) = false ∧ (s.term2Rst && b) = false ∧ (s.term3Rst && c) = false := by
  obtain ⟨h1, h2, h3⟩ := h.restarts
  rw [h1, h2, h3]
  exact ⟨rfl, rfl, rfl⟩

/-- The entry for the next program, if one is left. -/
theorem Ready.claimed {m : Pid} {lost : Nat} {s : Kernel} (h : Ready m lost s) (line : CString) :
    (∀ n : Pid, n.val = 4 + lost → s.claimed line = some n) ∧ (lost = 3 → s.claimed line = none) := by
  have hforced : s.forced line = none := by
    obtain ⟨h1, h2, h3⟩ := h.restarts
    obtain ⟨h4, h5⟩ := h.presses
    unfold forced
    rw [if_neg h.pc, h1, h2, h3, h4, h5]
    simp
  have hentries : ∀ n : Pid, 4 ≤ n.val → (s.tasks n = 0 ↔ 4 + lost ≤ n.val) := h.entries
  have h4 := hentries 4 (by decide)
  have h5 := hentries 5 (by decide)
  have h6 := hentries 6 (by decide)
  have hle := h.lost_le
  unfold Kernel.claimed
  rw [hforced, Option.none_or, findTask_eq, if_neg h.first]
  constructor
  · intro n hn
    have hlt : lost < 3 := by omega
    obtain rfl | rfl | rfl : lost = 0 ∨ lost = 1 ∨ lost = 2 := by omega
    · obtain rfl : n = 4 := Fin.ext hn
      rw [if_pos (h4.2 (by decide))]
    · obtain rfl : n = 5 := Fin.ext hn
      rw [if_neg (mt h4.1 (by decide)), if_pos (h5.2 (by decide))]
    · obtain rfl : n = 6 := Fin.ext hn
      rw [if_neg (mt h4.1 (by decide)), if_neg (mt h5.1 (by decide)), if_pos (h6.2 (by decide))]
  · rintro rfl
    rw [if_neg (mt h4.1 (by decide)), if_neg (mt h5.1 (by decide)), if_neg (mt h6.1 (by decide))]

/-- A command whose file `loader` accepts and stages below the PCB copies, with an entry point in it that is not the value
for an error. -/
def Starts (img : Image) (line : CString) : Prop :=
  ∃ inode, program img line = some inode ∧ 28 ≤ (img.dataLength inode).toNat ∧
    (img.dataLength inode).toNat ≤ stagingRoom ∧ word (img.fileByte inode) 24 ≠ 0xFFFFFFFF

/-- A program entered by a shell, under an entry that was free. -/
structure ChildOf (m n : Pid) (s s1 : Kernel) : Prop where
  cr3 : s1.cr3 = dirOf n
  tasks : s1.tasks = Function.update s.tasks n m.val
  pc : s1.pc = s.pc + 1
  restarts : s1.term1Rst = false ∧ s1.term2Rst = false ∧ s1.term3Rst = false
  presses : s1.term2Press = false ∧ s1.term3Press = false
  counter : s1.counter = s.counter
  entered : s1.entered = s.entered
  caller : (s1.slots m.val).cr3 = s.cr3

theorem Ready.enters {m n : Pid} {lost : Nat} {s : Kernel} (h : Ready m lost s) (hn : n.val = 4 + lost) {line : CString}
    (hstarts : Starts img line) (r : Regs) :
    ∃ eip s1, execute img (some line) r s = some (.enter eip, s1) ∧ ChildOf m n s s1 := by
  obtain ⟨inode, hprogram, hlen, -, hentry⟩ := hstarts
  obtain ⟨q, hwords, hexe⟩ := Option.bind_eq_some_iff.1 hprogram
  have hclaimed := (h.claimed line).1 n hn
  have hcur := curPid_dirOf h.cr3 h.pid.1
  have hn0 : n ≠ 0 := by
    rintro rfl
    exact absurd hn (by show ¬ (0 : Nat) = 4 + lost; omega)
  have hn1 : n ≠ 1 := by
    rintro rfl
    exact absurd hn (by show ¬ (1 : Nat) = 4 + lost; omega)
  have hnm : (m.val : Int) ≠ n.val := by
    have hm := h.pid.2
    omega
  obtain ⟨d, fpos, hload⟩ := loader_loads (n := n) (claim line r n q s) hexe rfl
  have hword : word ((staged img inode (claim line r n q s).mem).view newLoad) 24 ≠ 0xFFFFFFFF := by
    rw [staged_entry _ hlen]
    split_ifs
    · exact hentry
    · decide
  refine ⟨word ((staged img inode (claim line r n q s).mem).view newLoad) 24,
    (enterProgram n s.curPid (word ((staged img inode (claim line r n q s).mem).view newLoad) 24)
      (loaded img inode n d fpos (claim line r n q s))).2, ?_, ?_⟩
  · rw [execute_claimed hclaimed, hwords, Option.map_some]
    simp only [hload]
    rw [if_neg hword]
    rfl
  · refine ⟨taskDir_of_ne hn0 _, by rw [← hcur]; rfl, ?_, h.restarts_and _ _ _, ⟨rfl, rfl⟩, rfl, rfl, ?_⟩
    · show (if n = 1 ∨ n = 4 ∨ n = 5 ∨ n = 6 then s.pc + 1 else s.pc) = _
      have hlt := n.isLt
      rw [if_pos]
      obtain h4 | h5 | h6 : n.val = 4 ∨ n.val = 5 ∨ n.val = 6 := by omega
      · exact Or.inr (Or.inl (Fin.ext h4))
      · exact Or.inr (Or.inr (Or.inl (Fin.ext h5)))
      · exact Or.inr (Or.inr (Or.inr (Fin.ext h6)))
    · show (Function.update (claim line r n q s).slots (n.val : Int) _ m.val).cr3 = s.cr3
      rw [Function.update_of_ne hnm, claim_slots hn1, hcur, Function.update_self]

/-- A program that has opened something halts: the shell is back. -/
theorem Ready.back {m n : Pid} {lost : Nat} {s s1 s2 : Kernel} (h : Ready m lost s) (hn : n.val = 4 + lost)
    (hchild : ChildOf m n s s1) (hfresh : Fresh s1.pcblock.fileStruct) (hkept : KeptByCalls s1 s2) (hindex : 2 ≤ s2.fdIndex)
    {top : Nat} {p : Paper UInt8} (hprints : Prints s2 top p) (r : Regs) :
    ∃ s', halt img r s2 = some (.resume, s') ∧ Ready m lost s' ∧ Prints s' top p := by
  have hcr3 : s2.cr3 = dirOf n := hkept.cr3.trans hchild.cr3
  have hnm : (m.val : Int) ≠ n.val := by
    have hm := h.pid.2
    omega
  have htask : s2.tasks n = m.val := by
    rw [hkept.tasks, hchild.tasks, Function.update_self]
  have hslot : (s2.slots (s2.tasks n)).cr3 = dirOf m := by
    rw [htask, hkept.slots _ (by rw [findPid_dirOf hchild.cr3]; exact hnm), hchild.caller, h.cr3]
  have hfree : s.tasks n = 0 := (h.entries n (by omega)).2 hn.ge
  have htasks : Function.update s2.tasks n 0 = s.tasks := by
    rw [hkept.tasks, hchild.tasks, Function.update_idem, ← hfree, Function.update_eq_self]
  -- the two descriptors on the terminal are not closed
  have hfile : ∀ d : Fin 8, d.val < 2 →
      (s2.pcblock.closedOn s2.fdIndex (s2.pcblock.openIn haltFiles)).fileStruct d = s2.pcblock.fileStruct d := by
    intro d hd
    have hopen : d ∉ s2.pcblock.openIn haltFiles := by
      intro hm
      have hlist : d ∈ haltFiles.toFinset := (Finset.mem_filter.1 hm).1
      have h2 : ∀ d ∈ haltFiles.toFinset, 2 ≤ d.val := by decide
      exact absurd (h2 d hlist) (by omega)
    unfold Pcb.closedOn
    simp only
    rw [if_neg (fun hk => absurd hk.2 (by omega)), if_neg hopen, if_neg hopen]
  obtain ⟨v, hhalt⟩ := haltProgram_eq n s2
  have hzero := hfresh 0
  rw [if_pos (by decide)] at hzero
  refine ⟨haltProgram n s2, ?_, ?_, ?_⟩
  · unfold halt
    rw [hcr3, dirOf_pid]
    dsimp only
    rw [if_neg (by omega)]
  · rw [hhalt]
    refine ⟨h.pid, h.lost_le, hslot, ?_, ?_, ?_, ?_, ?_, ?_, ?_, ?_, ?_⟩
    · show s2.pc - 1 ≠ 0
      rw [hkept.pc, hchild.pc, UInt32.add_sub_cancel]
      exact h.pc
    · show s2.term1Rst = false ∧ s2.term2Rst = false ∧ s2.term3Rst = false
      rw [hkept.restarts.1, hkept.restarts.2.1, hkept.restarts.2.2]
      exact hchild.restarts
    · show s2.term2Press = false ∧ s2.term3Press = false
      rw [hkept.presses.1, hkept.presses.2]
      exact hchild.presses
    · show Function.update s2.tasks n 0 1 ≠ 0
      rw [htasks]
      exact h.first
    · show ∀ k : Pid, 4 ≤ k.val → (Function.update s2.tasks n 0 k = 0 ↔ 4 + lost ≤ k.val)
      rw [htasks]
      exact h.entries
    · exact (hkept.counter.trans hchild.counter).trans h.counter
    · exact (hkept.entered.trans hchild.entered).trans h.entered
    · show ((s2.pcblock.closedOn s2.fdIndex _).fileStruct 0).flags ≠ 0
      rw [hfile 0 (by decide), (hkept.kinds 0 (by decide)).1, hzero.1]
      decide
    · show ((s2.pcblock.closedOn s2.fdIndex _).fileStruct 0).fopsPtr = _
      rw [hfile 0 (by decide), (hkept.kinds 0 (by decide)).2]
      exact hzero.2
  · rw [hhalt]
    refine ⟨?_, ?_, hprints.shows⟩
    · show ((s2.pcblock.closedOn s2.fdIndex _).fileStruct 1).flags ≠ 0
      rw [hfile 1 (by decide)]
      exact hprints.flags
    · show ((s2.pcblock.closedOn s2.fdIndex _).fileStruct 1).fopsPtr = _
      rw [hfile 1 (by decide)]
      exact hprints.fopsPtr

/-- A program that is started runs and comes back. -/
theorem Ready.runs {m : Pid} {lost : Nat} {s : Kernel} (h : Ready m lost s) (hlt : lost < 3) {line : CString}
    (hstarts : Starts img line) {top : Nat} {p : Paper UInt8}
    (hmain : ∀ s1, Entered line s s1 → ∃ s2, userMain img x (commandOf (scanned line)) s1 = some (0, s2) ∧
      KeptByCalls s1 s2 ∧ 2 ≤ s2.fdIndex ∧ Prints s2 top p) :
    ∃ s', runCommand img x line s = some (0, s') ∧ Ready m lost s' ∧ Prints s' top p := by
  obtain ⟨eip, s1, hexe, hchild⟩ := h.enters (n := ⟨4 + lost, by omega⟩) rfl hstarts x.caller
  have hentered := execute_programEntered hexe
  obtain ⟨s2, hmain', hkept, hindex, hprints⟩ := hmain s1 hentered
  obtain ⟨s', hhalt, hready, hprints'⟩ := h.back rfl hchild hentered.fresh hkept hindex hprints x.callee
  refine ⟨s', ?_, hready, hprints'⟩
  unfold runCommand
  rw [hexe, Option.bind_some]
  dsimp only
  rw [hmain', Option.bind_some, hhalt, Option.bind_some, if_pos rfl]

/-- A command that cannot be loaded takes an entry for good. -/
theorem Ready.refuses {m : Pid} {lost : Nat} {s : Kernel} (h : Ready m lost s) (hlt : lost < 3) {line : CString} {q : Pcb}
    (hwords : words line = some q) (hexe : img.executable q.cmdView = none) {top : Nat} {p : Paper UInt8}
    (hprints : Prints s top p) :
    ∃ s', runCommand img x line s = some (-1, s') ∧ Ready m (lost + 1) s' ∧ Prints s' top p := by
  obtain ⟨n, hn⟩ : ∃ n : Pid, n.val = 4 + lost := ⟨⟨4 + lost, by omega⟩, rfl⟩
  have hclaimed := (h.claimed line).1 n hn
  have hcur : s.curPid ≠ 0 := curPid_ne_zero s
  obtain ⟨d, hload⟩ := loader_refused (claim line x.caller n q s) hexe
  refine ⟨{ claim line x.caller n q s with dentry1 := d }, ?_, ?_, hprints.flags, hprints.fopsPtr, hprints.shows⟩
  · unfold runCommand
    rw [execute_claimed hclaimed, hwords, Option.map_some]
    simp only [hload]
    rfl
  · refine ⟨h.pid, hlt, h.cr3, h.pc, h.restarts_and _ _ _, h.presses, ?_, fun k hk => ?_, h.counter, h.entered, h.flags,
      h.fopsPtr⟩
    · have hne : (1 : Pid) ≠ n := by
        rintro rfl
        exact absurd hn (by show ¬ (1 : Nat) = 4 + lost; omega)
      show Function.update s.tasks n s.curPid 1 ≠ 0
      rw [Function.update_of_ne hne]
      exact h.first
    · show Function.update s.tasks n s.curPid k = 0 ↔ _
      by_cases heq : k = n
      · rw [heq, Function.update_self]
        exact ⟨fun h0 => absurd h0 hcur, fun hle => absurd hle (by omega)⟩
      · have hval : k.val ≠ 4 + lost := fun hv => heq (Fin.ext (hv.trans hn.symm))
        rw [Function.update_of_ne heq, h.entries k hk]
        omega

/-- With no entry left nothing is started. -/
theorem Ready.full (img : Image) (x : Setting) {m : Pid} {s : Kernel} (h : Ready m 3 s) (line : CString) {top : Nat} {p : Paper UInt8}
    (hprints : Prints s top p) (hfit : Paper.Fits 79 p.col (((List.range 25).map sixPrograms).splitOn 10)) :
    ∃ s', runCommand img x line s = some (-1, s') ∧ Ready m 3 s' ∧
      Prints s' (Paper.followText 10 24 top p ((List.range 25).map sixPrograms))
        (p.write 10 ((List.range 25).map sixPrograms)) := by
  have hclaimed := (h.claimed line).2 rfl
  have hchoose : Prints (choosePid line s) top p := by
    rw [choosePid_eq]
    exact ⟨hprints.flags, hprints.fopsPtr, hprints.shows⟩
  obtain ⟨o, con, hwrite, -, hprints'⟩ := writeFd_prints hchoose
    (show (List.range ((List.range 25).map sixPrograms).length).map sixPrograms = (List.range 25).map sixPrograms from rfl)
    (by decide +kernel) hfit
  refine ⟨{ choosePid line s with con := con }, ?_, ?_, hprints'⟩
  · have hcount : (((List.range 25).map sixPrograms).length : Int) = 25 := rfl
    rw [hcount] at hwrite
    unfold runCommand
    rw [execute_unclaimed hclaimed, hwrite]
    rfl
  · rw [choosePid_eq]
    exact ⟨h.pid, h.lost_le, h.cr3, h.pc, h.restarts_and _ _ _, h.presses, h.first, h.entries, h.counter, h.entered,
      h.flags, h.fopsPtr⟩

/-! ## Sessions -/

/-- What is replied to a line, with so many entries lost before and after it. -/
inductive Replies (img : Image) (x : Setting) : Nat → CString → List UInt8 → Nat → Prop
  | empty {lost : Nat} {line : CString} (hline : line.bytes = []) : Replies img x lost line [] lost
  | cat {lost : Nat} {line name : CString} {inode : UInt32} (hlt : lost < 3) (hw : img.WellFormed)
      (hstarts : Starts img line) (hcommand : commandOf (scanned line) = ascii ['c', 'a', 't'])
      (harg : argumentOf (scanned line) = name.bytes) (hlen : name.bytes.length ≤ 40) (hname : NamesFile img name inode)
      (hturns : (img.file inode).length < x.turns) : Replies img x lost line (img.file inode) lost
  | ls {lost : Nat} {line : CString} {e : Dentry} (hlt : lost < 3) (hlistable : Listable img) (hstarts : Starts img line)
      (hcommand : commandOf (scanned line) = ascii ['l', 's']) (hdot : img.named dot = some e) (htype : e.fileType = 1)
      (hturns : img.names.length < x.turns) : Replies img x lost line (listed (img.names.takeWhile (· ≠ []))) lost
  | unknown {lost : Nat} {line : CString} {q : Pcb} (hlt : lost < 3) (hline : line.bytes ≠ [])
      (hexit : line.bytes ≠ ascii ['e', 'x', 'i', 't']) (hwords : words line = some q)
      (hexe : img.executable q.cmdView = none) : Replies img x lost line (ascii "no such command\n".toList) (lost + 1)
  | full {line : CString} (hline : line.bytes ≠ []) (hexit : line.bytes ≠ ascii ['e', 'x', 'i', 't']) :
      Replies img x 3 line ((List.range 25).map sixPrograms ++ ascii "no such command\n".toList) 3

/-- The lines typed in a session that starts on some paper, what it leaves there, and the entries it loses. What is held of
a line never reaches column 79 behind its prompt, and a reply is of printable characters in lines that end by column 79. -/
inductive Transcript (img : Image) (x : Setting) : Nat → Paper UInt8 → List (List (UInt8 × Regs)) → List UInt8 → Nat → Prop
  | done {lost : Nat} {p : Paper UInt8} : Transcript img x lost p [] [] lost
  | turn {lost lost' lost'' : Nat} {p : Paper UInt8} {keys : List (UInt8 × Regs)} {more : List (List (UInt8 × Regs))}
      {line : CString} {reply text : List UInt8} (typing : ∀ k ∈ keys, IsTyping k.1)
      (room : ∀ ks, ks <+: keys → p.col + 7 + (typedLine (ks.map Prod.fst)).length < 79)
      (typed : line.bytes = typedLine (keys.map Prod.fst)) (replies : Replies img x lost line reply lost')
      (printed : Text reply) (fits : Paper.Fits 79 0 (reply.splitOn 10))
      (rest : Transcript img x lost' ((p.write 10 (prompt ++ (line.bytes ++ [10]))).write 10 reply) more text lost'') :
      Transcript img x lost p (keys :: more) (prompt ++ (line.bytes ++ [10]) ++ (reply ++ text)) lost''

/-- A line that starts a program is neither empty nor `exit`. -/
theorem shellLine_runs {line : CString} {s s' : Kernel} (hempty : commandOf (scanned line) ≠ [])
    (hexit : commandOf (scanned line) ≠ ascii ['e', 'x', 'i', 't']) (h : runCommand img x line s = some (0, s')) :
    shellLine img x line s = some (.next, s') := by
  have hne : line.bytes ≠ [] ∧ line.bytes ≠ ascii ['e', 'x', 'i', 't'] := by
    obtain ⟨bytes, hno⟩ := line
    constructor
    · rintro rfl
      exact hempty rfl
    · rintro rfl
      exact hexit rfl
  unfold shellLine
  rw [if_neg hne.2, if_neg hne.1, h, Option.bind_some]
  rfl

/-- A line for which `execute` returns -1. -/
theorem shellLine_fails {line : CString} {s s1 : Kernel} (hline : line.bytes ≠ [])
    (hexit : line.bytes ≠ ascii ['e', 'x', 'i', 't']) (h : runCommand img x line s = some (-1, s1)) {m : Pid} {lost : Nat}
    (hready : Ready m lost s1) {top : Nat} {p : Paper UInt8} (hprints : Prints s1 top p)
    (hfit : Paper.Fits 79 p.col ((ascii "no such command\n".toList).splitOn 10)) :
    ∃ s', shellLine img x line s = some (.next, s') ∧ Ready m lost s' ∧
      Prints s' (Paper.followText 10 24 top p (ascii "no such command\n".toList))
        (p.write 10 (ascii "no such command\n".toList)) := by
  obtain ⟨con, hfd, hprints'⟩ := fdputs_prints hprints "no such command\n" (by decide +kernel) hfit
  refine ⟨{ s1 with con := con }, ?_, hready.screen con, hprints'⟩
  unfold shellLine
  rw [if_neg hexit, if_neg hline, h, Option.bind_some]
  dsimp only
  rw [if_pos rfl, hfd]
  rfl

/-- What the shell does with a line types the reply. -/
theorem shellLine_replies {m : Pid} {lost lost' : Nat} {s : Kernel} (h : Ready m lost s) {line : CString}
    {reply : List UInt8} (hr : Replies img x lost line reply lost') (htext : Text reply) {top : Nat} {p : Paper UInt8}
    (hprints : Prints s top p) (hfit : Paper.Fits 79 p.col (reply.splitOn 10)) :
    ∃ s', shellLine img x line s = some (.next, s') ∧ Ready m lost' s' ∧
      Prints s' (Paper.followText 10 24 top p reply) (p.write 10 reply) := by
  cases hr with
  | empty hline =>
    refine ⟨s, ?_, h, hprints⟩
    unfold shellLine
    rw [hline, if_neg (by decide), if_pos rfl]
  | cat hlt hw hstarts hcommand harg hlen hname hturns =>
    obtain ⟨s', hrun, hready, hprints'⟩ := h.runs (x := x) hlt hstarts fun s1 hentered => by
      rw [userMain, if_pos hcommand]
      exact hentered.cat_ends hw harg hlen hname htext hprints.shows hfit x.junk_ne x.buf_ne hturns
    exact ⟨s', shellLine_runs (by rw [hcommand]; decide) (by rw [hcommand]; decide) hrun, hready, hprints'⟩
  | ls hlt hlistable hstarts hcommand hdot htype hturns =>
    obtain ⟨s', hrun, hready, hprints'⟩ := h.runs (x := x) hlt hstarts fun s1 hentered => by
      rw [userMain, if_neg (by rw [hcommand]; decide), if_pos hcommand]
      exact hentered.ls_ends hlistable hdot htype hprints.shows x.junk_ne x.buf_ne htext hfit x.turns hturns
    exact ⟨s', shellLine_runs (by rw [hcommand]; decide) (by rw [hcommand]; decide) hrun, hready, hprints'⟩
  | unknown hlt hline hexit hwords hexe =>
    obtain ⟨s1, hrun, hready, hprints1⟩ := h.refuses (x := x) hlt hwords hexe hprints
    exact shellLine_fails hline hexit hrun hready hprints1 hfit
  | full hline hexit =>
    obtain ⟨hfit1, hfit2⟩ := Paper.fits_append hfit
    obtain ⟨s1, hrun, hready, hprints1⟩ := h.full img x line hprints hfit1
    rw [Paper.followText_append, Paper.write_append]
    exact shellLine_fails hline hexit hrun hready hprints1 hfit2

/-- A session from the head of the loop on. -/
theorem Transcript.shows {lost lost' : Nat} {p : Paper UInt8} {lines : List (List (UInt8 × Regs))} {text : List UInt8}
    (h : Transcript img x lost p lines text lost') (r : Regs) {m : Pid} : ∀ {s : Kernel} {top : Nat}, Ready m lost s →
      Prints s top p → p.Fresh 80 32 → ∃ s',
        shellTurns img x lines.length (lines.flatMap fun keys => keys ++ [(10, r)]) s = some ([], s') ∧
        Ready m lost' s' ∧ Prints s' (Paper.followText 10 24 top p text) (p.write 10 text) := by
  induction h with
  | done => exact fun {s top} hready hprints _ => ⟨s, rfl, hready, hprints⟩
  | @turn lost lost' lost'' p keys more line reply text typing room typed replies printed fits rest ih =>
    intro s top hready hprints hfresh
    obtain ⟨s1, hturn, hready1, hprints1⟩ := shellTurn_line img x hready hprints hfresh typing room typed r
      (more.flatMap fun keys => keys ++ [(10, r)])
    have hcol : (p.write 10 (prompt ++ (line.bytes ++ [10]))).col = 0 := by
      rw [← List.append_assoc, Paper.write_append]
      rfl
    obtain ⟨s2, hline, hready2, hprints2⟩ := shellLine_replies hready1 replies printed hprints1 (by rw [hcol]; exact fits)
    obtain ⟨s', hturns, hready', hprints'⟩ := ih hready2 hprints2 hfresh.write.write
    refine ⟨s', ?_, hready', ?_⟩
    · rw [List.flatMap_cons, List.append_assoc, List.singleton_append, List.length_cons, shellTurns, hturn, hline]
      exact hturns
    · rw [Paper.followText_append, Paper.write_append p (prompt ++ (line.bytes ++ [10])), Paper.followText_append,
        Paper.write_append _ reply]
      exact hprints'

/-- The first shell at the head of its loop. -/
theorem ready_boot {r : Regs} {eip : UInt32} {s : Kernel} (hboot : execute img (some shell) r boot = some (.enter eip, s)) :
    Ready 1 0 s := by
  obtain ⟨n, q, inode, d, fpos, hclaimed, -, -, rfl⟩ := execute_entered hboot
  obtain rfl : n = 1 := (Option.some.inj hclaimed).symm
  have hzero := freshFiles_fresh (loaded img inode 1 d fpos (claim shell r 1 q boot)).pcblock.fileStruct 0
  rw [if_pos (by decide)] at hzero
  refine ⟨⟨by decide, by decide⟩, Nat.zero_le _, rfl, ?_, ⟨rfl, rfl, rfl⟩, ⟨rfl, rfl⟩, ?_, fun k hk => ?_, rfl, rfl, ?_, hzero.2⟩
  · show (0 : UInt32) + 1 ≠ 0
    decide
  · show Function.update boot.tasks 1 boot.curPid 1 ≠ 0
    rw [Function.update_self]
    exact curPid_ne_zero boot
  · have hne : k ≠ 1 := by
      rintro rfl
      exact absurd hk (by decide)
    have hne0 : k ≠ 0 := by
      rintro rfl
      exact absurd hk (by decide)
    show Function.update boot.tasks 1 boot.curPid k = 0 ↔ _
    rw [Function.update_of_ne hne]
    exact ⟨fun _ => hk, fun _ => if_neg hne0⟩
  · exact fun h0 => absurd (hzero.1.symm.trans h0) (by decide)

/-- The cleared screen is blank. -/
theorem fresh_boot : boot.con.paper.Fresh 80 32 := by
  intro r j hj _
  unfold Console.paper boot Console.getChar Console.clear Console.cell numRows numCols
  dsimp only
  by_cases hr : r < 24
  · rw [if_pos hr, if_pos (by omega), if_pos (by omega)]
  · exact if_neg hr

/-- What the shell prints first. -/
def starting : List UInt8 := ascii "Starting 391 Shell\n".toList

/-- From the start of the first shell on, for lines and replies as `Transcript` has them: the screen shows each line that
was typed behind its prompt, corrections done, and then the file, the listing or the message that the line gets. Three
commands that cannot be loaded use up the table: from then on no program is started. -/
theorem shell_session {r : Regs} {eip : UInt32} {s : Kernel}
    (hboot : execute img (some shell) r boot = some (.enter eip, s)) {lines : List (List (UInt8 × Regs))}
    {text : List UInt8} {lost : Nat} (h : Transcript img x 0 (boot.con.paper.write 10 starting) lines text lost) (r' : Regs) :
    ∃ s', shellMain img x lines.length (lines.flatMap fun keys => keys ++ [(10, r')]) s = some ([], s') ∧ Ready 1 lost s' ∧
      Console.Shows s'.con (Paper.followText 10 24 0 boot.con.paper (starting ++ text))
        (boot.con.paper.write 10 (starting ++ text)) := by
  have hentered := execute_programEntered hboot
  have hready := ready_boot hboot
  obtain ⟨con, hfd, hprints⟩ := fdputs_prints (hentered.prints shows_boot) "Starting 391 Shell\n" (by decide +kernel) (by decide +kernel)
  obtain ⟨s', hturns, hend, hprints'⟩ := h.shows r' (hready.screen con) hprints fresh_boot.write
  refine ⟨s', ?_, hend, ?_⟩
  · unfold shellMain
    rw [hfd]
    exact hturns
  · rw [Paper.followText_append, Paper.write_append]
    exact hprints'.shows

/-- Keys with the registers at their interrupts. -/
def typing (keys : List UInt8) : List (UInt8 × Regs) := keys.map fun k => (k, ⟨0, 0⟩)

/-- `cat frame0.txt`, `ls` with a correction, and a name that is not there. -/
def threeLines : List (List (UInt8 × Regs)) := [typing catFrame0.bytes, typing [108, 120, 8, 115], typing [102, 111, 111]]

def sixTurns : Setting := ⟨1, 1, 6, ⟨0, 0⟩, ⟨0, 0⟩, fun _ => 0, by decide, by decide, fun _ => by decide⟩

theorem zero_notMem_ls : 0 ∉ ascii ['l', 's'] := by decide
theorem zero_notMem_foo : 0 ∉ ascii ['f', 'o', 'o'] := by decide

theorem library_starts {line : CString} (h : program library line = some 0) : Starts library line :=
  ⟨0, h, by decide +kernel, by decide +kernel, by decide +kernel⟩

theorem library_file : library.file 1 = [97, 98, 10, 99, 100] := by decide +kernel

/-- What the three lines leave on the paper. -/
def threeReplies : List UInt8 :=
  prompt ++ (catFrame0.bytes ++ [10]) ++ (library.file 1 ++
  (prompt ++ (ascii ['l', 's'] ++ [10]) ++ (listed (library.names.takeWhile (· ≠ [])) ++
  (prompt ++ (ascii ['f', 'o', 'o'] ++ [10]) ++ (ascii "no such command\n".toList ++ [])))))

theorem transcript_library :
    Transcript library sixTurns 0 (boot.con.paper.write 10 starting) threeLines threeReplies 1 := by
  have htyping : ∀ keys : List UInt8, (∀ k ∈ keys, IsTyping k) → ∀ k ∈ typing keys, IsTyping k.1 := by
    intro keys hall k hk
    obtain ⟨b, hb, rfl⟩ := List.mem_map.1 hk
    exact hall b hb
  have hcat : Replies library sixTurns 0 catFrame0 (library.file 1) 0 :=
    .cat (by decide) library_wellFormed (library_starts (by decide +kernel)) (by decide +kernel) catFrame0_argument (by decide)
      (show NamesFile library frame0 1 from ⟨library.dentryAt 4, by decide +kernel⟩) (by rw [library_file]; decide)
  have hls : Replies library sixTurns 0 ⟨ascii ['l', 's'], zero_notMem_ls⟩ (listed (library.names.takeWhile (· ≠ []))) 0 :=
    .ls (by decide) library_listable (library_starts (by decide +kernel)) (by decide +kernel)
      (show library.named dot = some (library.dentryAt 0) by decide +kernel) (by decide +kernel) (by decide +kernel)
  obtain ⟨q, hq⟩ : ∃ q, words ⟨ascii ['f', 'o', 'o'], zero_notMem_foo⟩ = some q ∧ library.executable q.cmdView = none := by
    have hmap : (words ⟨ascii ['f', 'o', 'o'], zero_notMem_foo⟩).map (fun q => library.executable q.cmdView) = some none := by
      decide +kernel
    exact Option.map_eq_some_iff.1 hmap
  have hfoo : Replies library sixTurns 0 ⟨ascii ['f', 'o', 'o'], zero_notMem_foo⟩ (ascii "no such command\n".toList) 1 :=
    .unknown (by decide) (by decide) (by decide) hq.1 hq.2
  exact .turn (htyping _ (by unfold IsTyping; decide +kernel)) (room_of_length (by decide +kernel)) (by decide +kernel) hcat
    (by rw [library_file]; decide +kernel) (by rw [library_file]; decide +kernel)
    (.turn (htyping _ (by unfold IsTyping; decide +kernel)) (room_of_length (by rw [library_file]; decide +kernel))
      (by decide +kernel) hls (by rw [library_names]; decide +kernel) (by rw [library_names]; decide +kernel)
      (.turn (htyping _ (by unfold IsTyping; decide +kernel))
        (room_of_length (by rw [library_file, library_names]; decide +kernel)) (by decide +kernel) hfoo (by decide +kernel)
        (by decide +kernel) .done))

/-- The second line of the file, the prompt behind it, the last name of the listing, and the message. -/
theorem shell_session_library : ∃ s s', execute library (some shell) ⟨0, 0⟩ boot = some (.enter 0, s) ∧
    shellMain library sixTurns 3 (threeLines.flatMap fun keys => keys ++ [(10, ⟨0, 0⟩)]) s = some ([], s') ∧
      (s'.tasks 4 ≠ 0 ∧ s'.tasks 5 = 0) ∧ s'.con.getChar 0 3 = 99 ∧ s'.con.getChar 2 3 = 51 ∧ s'.con.getChar 0 8 = 115 ∧
      s'.con.getChar 0 10 = 110 := by
  have hboot : execute library (some shell) ⟨0, 0⟩ boot =
      some (.enter 0, ((execute library (some shell) ⟨0, 0⟩ boot).getD (.handled, boot)).2) :=
    eq_some_of_fst _ (by decide +kernel)
  obtain ⟨s', hs', hready, hshows⟩ := shell_session hboot transcript_library ⟨0, 0⟩
  refine ⟨_, s', hboot, hs', ⟨mt (hready.entries 4 (by decide)).1 (by decide), (hready.entries 5 (by decide)).2 (by decide)⟩,
    ?_, ?_, ?_, ?_⟩
  · exact (hshows.rows 3 0 (by decide) (by decide)).trans (by unfold threeReplies; rw [library_file, library_names]; decide +kernel)
  · exact (hshows.rows 3 2 (by decide) (by decide)).trans (by unfold threeReplies; rw [library_file, library_names]; decide +kernel)
  · exact (hshows.rows 8 0 (by decide) (by decide)).trans (by unfold threeReplies; rw [library_file, library_names]; decide +kernel)
  · exact (hshows.rows 10 0 (by decide) (by decide)).trans (by unfold threeReplies; rw [library_file, library_names]; decide +kernel)

end Kernel

end Os391
