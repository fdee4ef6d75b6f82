/-
The terminals: `terminal_switch` and `keyboard_read`.
-/
import Os391.Kernel.Exec

namespace Os391

open Bytes

namespace Kernel

variable (img : Image)

/-! ## Save areas -/

/-- The value of `(uint32_t *)TERMn` for each terminal. The casts take the first summand only, so
what is added to `MEM_6MB` counts in words of four bytes. -/
def termArea : TermNum → Int
  | .t1 => 0x600000
  | .t2 => 0x600000 + 4 * 0x1000
  | .t3 => 0x600000 + 4 * (0x1000 * 2)

/-- `MEM_4KB`, the size of a save area. -/
def areaSize : Nat := 0x1000

/-- The displayed screen copied to a terminal's save area. -/
def saveScreen (t : TermNum) (s : Kernel) : Kernel :=
  { s with mem := s.mem.put (termArea t) areaSize (s.con.video.view 0) }

/-- A terminal's save area copied to the screen. -/
def loadScreen (t : TermNum) (s : Kernel) : Kernel :=
  { s with con := { s.con with video := s.con.video.put 0 areaSize (s.mem.view (termArea t)) } }

/-! ## terminal_switch -/

/-- The first half of `terminal_switch`: the displayed terminal saved. Its descriptors are taken
from the PCB copy of the running process, not from `pcblock`. -/
def leaveTerminal (r : Regs) (s : Kernel) : Kernel :=
  let c := s.curTerminal
  let termPcb := s.slots (getPidFromCr3 s.cr3)
  let saved : Terminal :=
    { tLinebuffer := s.textBuf
      posX := s.con.screenX
      posY := s.con.screenY
      esp := r.esp
      kernelEsp := UInt32.ofInt s.esp0
      cr3 := s.cr3
      fileStruct := termPcb.fileStruct }
  let s := { s with termPcb := termPcb, terminals := Function.update s.terminals c saved }
  let s := s.saveScreen c
  { s with con := s.con.clear.setCursor 0 0 }

/-- Whether a switch to a terminal finds it started. -/
def started (s : Kernel) : TermNum → Bool
  | .t1 => true
  | .t2 => s.term2Flag
  | .t3 => s.term3Flag

/-- What a first switch to terminal 2 or 3 sets before it starts the shell there. -/
def activate (t : TermNum) (s : Kernel) : Kernel :=
  { s with
    textBuf := fun _ => 0
    counter := 0
    term2Flag := s.term2Flag || t = .t2
    term3Flag := s.term3Flag || t = .t3
    dev := s.dev.sendEoi 1 }

/-- The second half of `terminal_switch` for a started terminal: screen, cursor, line buffer, and
`pcblock` from the PCB copy of the process there with the descriptors saved in `terminals`. -/
def enterTerminal (t : TermNum) (s : Kernel) : Kernel :=
  let s := { s with term2Press := false, term3Press := false }
  let s := s.loadScreen t
  let term := s.terminals t
  let pid := getPidFromCr3 term.cr3
  let termPcb := { s.slots pid with fileStruct := term.fileStruct }
  { s with
    con := s.con.setCursor term.posX term.posY
    textBuf := term.tLinebuffer
    dev := s.dev.sendEoi 1
    termPcb := termPcb
    pcblock := termPcb
    esp0 := stackTop pid
    cr3 := term.cr3
    regs := { s.regs with esp := term.esp } }

/-- `terminal_switch`. -/
def terminalSwitch (t : TermNum) (r : Regs) (s : Kernel) : Option (Outcome × Kernel) :=
  if s.curTerminal = t then some (.handled, s)
  else
    let s := { leaveTerminal r s with curTerminal := t }
    if s.started t then some (.handled, enterTerminal t s)
    else
      (execute img (some shell) r (activate t s)).map fun e =>
        match e.1 with
        | .enter eip => (.enter eip, e.2)
        | _ => (.handled, e.2)

/-! ## terminal_open -/

/-- `terminal_open`. -/
def terminalOpen (s : Kernel) : Int × Kernel :=
  (0, { s with
    textBuf := fun _ => 0
    counter := 0
    con := s.con.setCursor 0 0
    term2Press := false
    term3Press := false
    dev := s.dev.enableIrq 1 })

/-! ## keyboard_read -/

/-- The prompt `keyboard_read` prints and `BACKSPACE` stops at. -/
def prompt : List UInt8 := ascii ['3', '9', '1', 'O', 'S', '>', ' ']

/-- The values `read_keyboard` passes for Alt+F1 to Alt+F3. -/
def switchKey : UInt8 → Option TermNum
  | 0xF5 => some .t1
  | 0xF6 => some .t2
  | 0xF7 => some .t3
  | _ => none

/-- Whether the cursor stands right after a prompt: `BACKSPACE` deletes nothing there. -/
def atPrompt (c : Console) : Bool :=
  strncmp (fun i => c.getChar i c.screenY) (fun i => prompt.getD i 0) 7 = 0 && c.screenX = 7

/-- A store to `text_buf`; `counter` stays below 128. -/
def setText (i : Nat) (b : UInt8) (textBuf : Fin 128 → UInt8) : Fin 128 → UInt8 :=
  fun j => if j.val = i then b else textBuf j

/-- `keyboard_read`. -/
def keyboardRead (keystroke : UInt8) (r : Regs) (s : Kernel) : Option (Outcome × Kernel) :=
  let x := s.con.screenX
  let y := s.con.screenY
  if keystroke = 9 then
    some (.handled, { s with con := (s.con.puts (ascii [' ', ' ', ' ', ' '])).setCursor (x + 4) y })
  else if keystroke = 0xF8 then some (.handled, { s with dev := s.dev.sendEoi 8 })
  else if keystroke = 0xFF then
    some (.handled, { s with con := (s.con.clear.setCursor 0 0).puts prompt })
  else if x ≥ numCols - 1 ∨ keystroke = 10 then
    let con := (if y ≥ numRows - 1 then s.con.scrollUp else s.con).putc 10
    if keystroke = 10 then
      some (.handled, { s with
        con := con
        textBuf := setText s.counter.toNat 10 s.textBuf
        counter := 0
        entered := true })
    else some (.handled, { s with con := con })
  else if keystroke = 8 then
    if atPrompt s.con then some (.handled, { s with dev := s.dev.sendEoi 1 })
    else if s.counter = 0 then some (.handled, { s with dev := s.dev.sendEoi 1 })
    else
      some (.handled, { s with
        con := ((s.con.setx (x - 1)).putc 32).setCursor (x - 1) y
        counter := s.counter - 1
        textBuf := setText (s.counter - 1).toNat 0 s.textBuf })
  else if keystroke ≥ 32 ∧ keystroke ≤ 126 ∧ s.counter < 127 then
    some (.handled, { s with
      textBuf := setText s.counter.toNat keystroke s.textBuf
      con := s.con.putc keystroke
      counter := s.counter + 1 })
  else
    match switchKey keystroke with
    | some t =>
      let s := { s with
        term2Press := s.term2Press || t = .t2
        term3Press := s.term3Press || t = .t3 }
      terminalSwitch img t r s
    | none => some (.handled, s)

/-! ## Runs -/

/-- What happens to the kernel: a system call of the running process, or a keystroke. -/
inductive Op
  | execute (command : Option CString) (r : Regs)
  | halt (status : UInt8) (r : Regs)
  | read (fd buf nbytes : Int)
  | write (fd buf nbytes : Int)
  | open (filename : Option CString)
  | close (fd : Int)
  | getargs (buf nbytes : Int)
  | vidmap (screenStart : Int)
  | setHandler
  | sigreturn
  | key (keystroke : UInt8) (r : Regs)

/-- One call or keystroke, up to the return to user mode. -/
def step (s : Kernel) : Op → Option (Outcome × Kernel)
  | .execute command r => execute img command r s
  | .halt _ r => halt img r s
  | .read fd buf nbytes => sysRead img fd buf nbytes s
  | .write fd buf nbytes => sysWrite fd buf nbytes s
  | .open filename => (sysOpen img filename s).map fun r => (.ret r.1, r.2)
  | .close fd => some (.ret (sysClose fd s).1, (sysClose fd s).2)
  | .getargs buf nbytes => (getargs buf nbytes s).map fun r => (.ret r.1, r.2)
  | .vidmap screenStart => some (.ret (vidmap screenStart s).1, (vidmap screenStart s).2)
  | .setHandler => some (.ret 0, s)
  | .sigreturn => some (.ret 0, s)
  | .key keystroke r => keyboardRead img keystroke r s

/-- The state in which `entry` executes the first shell. Memory that was never written is zero. -/
def boot : Kernel :=
  { pcblock := .zero, fdIndex := 0, fdVal := 0, fdRtc := 0, newPid := none
    tasks := fun n => if n = 0 then 1 else 0
    pc := 0
    term1Rst := false, term2Rst := false, term3Rst := false
    term2Press := false, term3Press := false
    term2Flag := false, term3Flag := false
    curTerminal := .t1
    terminals := fun _ => ⟨fun _ => 0, 0, 0, 0, 0, .other 0, fun _ => ⟨none, 0, 0⟩⟩
    termPcb := .zero
    textBuf := fun _ => 0, counter := 0, entered := false
    con := ({ video := fun _ => 0, screenX := 0, screenY := 0 } : Console).clear
    dentry1 := .zero
    slots := fun _ => .zero
    mem := fun _ => 0, user := fun _ _ => 0
    cr3 := .pageDirectory, esp0 := 0x800000
    regs := ⟨0, 0⟩
    dev := { rtcA := 0x0F, rtcB := 0x40, intrFlag := 0, masterMask := 0xF9, slaveMask := 0xFE,
             masterEoi := 0, slaveEoi := 0 } }

end Kernel

end Os391
