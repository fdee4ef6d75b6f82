/-
Starting and ending programs: `parse_cmd`, `loader`, `execute` and `halt`.
-/
import Os391.Kernel.Files

namespace Os391

open Bytes

/-! ## parse_cmd -/

namespace Pcb

/-- A byte stored at an offset from `cmd_name`: the arrays `cmd_name` and `arg_name` and the byte
`data_arg_size` follow each other, and past them the block ends. -/
def storeByte (p : Pcb) (off : Nat) (b : UInt8) : Option Pcb :=
  if h : off < 40 then some { p with cmdName := Function.update p.cmdName ⟨off, h⟩ b }
  else if h : off < 80 then some { p with argName := Function.update p.argName ⟨off - 40, by omega⟩ b }
  else if off = 80 then some { p with dataArgSize := b }
  else none

/-- `cmd_name` as `loader` reads it, from its first byte on. -/
def cmdView (p : Pcb) : Buf := fun i =>
  if h : i < 40 then p.cmdName ⟨i, h⟩
  else if h : i < 80 then p.argName ⟨i - 40, by omega⟩
  else p.dataArgSize

end Pcb

/-- The locals of `parse_cmd` and the block it fills. -/
structure Parse where
  pcb : Pcb
  cmdSize : Nat
  argSize : Nat
  switchFlag : Bool

/-- One turn of the scanner at index `i`. Both of its copies in the source have this body. -/
def parseStep (input : Buf) (i : Nat) (st : Parse) : Option Parse := do
  let st ←
    if !st.switchFlag && input i ≠ 32 then
      (st.pcb.storeByte st.cmdSize (input i)).map fun p => { st with pcb := p, cmdSize := st.cmdSize + 1 }
    else if st.switchFlag && input i ≠ 32 then
      (st.pcb.storeByte (40 + st.argSize) (input i)).map fun p => { st with pcb := p, argSize := st.argSize + 1 }
    else some st
  return if !st.switchFlag && input (i + 1) = 32 then { st with switchFlag := true } else st

/-- The scanner from index `i` on, `n` characters. -/
def parseLoop (input : Buf) : Nat → Nat → Parse → Option Parse
  | _, 0, st => some st
  | i, n + 1, st => (parseStep input i st).bind (parseLoop input (i + 1) n)

/-- `parse_cmd`: the block with `cmd_name`, `arg_name` and `data_arg_size` filled; `none` when a word
is so long that it is written past the block. A leading space makes the scan start at the number of
all spaces in the input. -/
def parseCmd (input : CString) (p : Pcb) : Option Pcb :=
  let inputLength := input.strlen % 256
  let p := { p with cmdName := fun _ => 0, argName := fun _ => 0 }
  let start := if input.get 0 = 32 then (List.range inputLength).countP fun i => input.get i = 32 else 0
  (parseLoop input.get start (inputLength - start) ⟨p, 0, 0, false⟩).map fun st =>
    { st.pcb with dataArgSize := UInt8.ofNat st.argSize }

namespace Kernel

variable (img : Image)

/-! ## loader -/

/-- The value of `(uint8_t *)NEW_LOAD`: the cast takes the first summand only, and the rest is added
in bytes. -/
def newLoad : Int := 0x600000 + 1 * (0x1000 * 5)

/-- The bytes from `NEW_LOAD` up to the lowest PCB copy, that of pid 6. `loader` stages a file of any length, and
here the copies and the kernel stacks lie apart from `mem`: the states of this model are those of the kernel as long
as no program of more bytes is loaded. A longer one goes over the copies, then over the kernel stacks, and from
`0x1FB000` bytes on out of the kernel's page. -/
def stagingRoom : Nat := 0x1E2FFC

example : newLoad + stagingRoom = slotAddr 6 := by decide

/-- `PROGRAM_IMG`. -/
def programImg : Int := 0x08048000

/-- The four magic bytes at the start of an executable. -/
def isMagic (b : Buf) : Bool := b 0 = 0x7f && b 1 = 0x45 && b 2 = 0x4c && b 3 = 0x46

/-- The CR3 load of `loader`, with the count of programs: pids 2 and 3 are not counted. -/
def loadTask (s : Kernel) : Kernel :=
  match s.newPid with
  | some n => { s with
      cr3 := taskDir n s.cr3
      pc := if n = 1 ∨ n = 4 ∨ n = 5 ∨ n = 6 then s.pc + 1 else s.pc }
  | none => s

/-- `loader`: the entry point, or `-1` as the 32-bit value the caller compares. The staging and the copy are those
of a program of at most `stagingRoom` bytes. -/
def loader (filename : Buf) (s : Kernel) : UInt32 × Kernel :=
  let r := img.readDentryByName filename s.dentry1
  if r.1 = -1 then (0xFFFFFFFF, s)
  else
    let s := { s with dentry1 := r.2 }
    let inode := s.dentry1.inodeNumber
    let dataLength := img.dataLength inode
    if dataLength < 4 then (0xFFFFFFFF, s)
    else if isMagic (img.block inode 0) then
      let r := img.readData inode 0 (s.mem.view newLoad) dataLength
      let s := { s with mem := s.mem.put newLoad dataLength.toNat r.buf }.storeFpos r.fpos
      let eip := word (s.mem.view newLoad) 24
      let s := s.loadTask
      (eip, s.userPut programImg dataLength.toNat (s.mem.view newLoad))
    else (0xFFFFFFFF, s)

/-! ## execute -/

/-- The literal `"shell"`. -/
def shell : CString := ⟨ascii ['s', 'h', 'e', 'l', 'l'], by decide⟩

/-- The scan of `execute` for a free entry, `for (i = 1; i < MAX_TASKS; i++)`, from `i` on. At 2 it
jumps to 4. -/
def findTaskFrom (tasks : Pid → Int) (i : Nat) : Nat → Option Pid
  | 0 => none
  | n + 1 =>
    if i < 7 then
      let i := if i = 2 then i + i else i
      if h : i < 7 then if tasks ⟨i, h⟩ = 0 then some ⟨i, h⟩ else findTaskFrom tasks (i + 1) n else none
    else none

/-- The scan from 1. -/
def findTask (tasks : Pid → Int) : Option Pid := findTaskFrom tasks 1 7

/-- Whether a command starts with `shell`: `!strncmp(command, "shell", 5)`. -/
def isShell (command : CString) : Bool := strncmp command.get shell.get 5 = 0

/-- The branches that override the scanned `new_pid`. -/
def forcePid (command : CString) (s : Kernel) : Kernel :=
  if s.pc = 0 then { s with newPid := some 1 }
  else if isShell command && s.term1Rst then { s with term1Rst := false, newPid := some 1 }
  else if isShell command && (s.term2Press || s.term2Rst) then { s with term2Rst := false, newPid := some 2 }
  else if isShell command && (s.term3Press || s.term3Rst) then { s with term3Rst := false, newPid := some 3 }
  else s

/-- The message `execute` writes when no entry is free. -/
def sixPrograms : Buf := fun i =>
  (ascii ['6', ' ', 'p', 'r', 'o', 'g', 'r', 'a', 'm', 's', ' ', 'a', 'l', 'r', 'e', 'a', 'd', 'y', ' ',
    'o', 'p', 'e', 'n', '.', '\n']).getD i 0

/-- The caller's PCB saved, which `execute` does unless it starts pid 1. -/
def saveCaller (n : Pid) (curPid : Int) (s : Kernel) : Kernel :=
  if n ≠ 1 then
    let s := s.savePcb curPid
    { s with pcblock := { s.pcblock with prevPcb := slotAddr curPid } }
  else s

/-- The descriptor table of a new program: 0 and 1 on the terminal, the others marked free. -/
def freshFiles (f : Fin 8 → FileStruct) : Fin 8 → FileStruct := fun d =>
  if d.val < 2 then { f d with flags := 1, fopsPtr := some .terminalFops } else { f d with flags := 0 }

/-- `execute` from a successful load on: the new PCB, the kernel stack and the `iret`. -/
def enterProgram (n : Pid) (curPid : Int) (eip : UInt32) (s : Kernel) : Outcome × Kernel :=
  let s := { s with
    term2Press := false
    term3Press := false
    pcblock := { s.pcblock with fileStruct := freshFiles s.pcblock.fileStruct, cr3 := s.cr3 } }
  let s := s.savePcb n.val
  (.enter eip, { s with
    pcblock := { s.pcblock with
      prevPcb := slotAddr n.val
      parentPid := curPid
      cr3 := taskDir n s.pcblock.cr3 }
    esp0 := stackTop n.val })

/-- `execute` with a pid chosen: the table entry is taken before the command is even parsed. -/
def startProgram (command : CString) (r : Regs) (n : Pid) (s : Kernel) : Option (Outcome × Kernel) :=
  let curPid := if s.findPid = 0 then 1 else s.findPid
  let s := { s with
    tasks := Function.update s.tasks n curPid
    pcblock := { s.pcblock with esp := r.esp, ebp := r.ebp } }
  let s := saveCaller n curPid s
  (parseCmd command s.pcblock).map fun p =>
    let l := loader img p.cmdView { s with pcblock := p }
    if l.1 = 0xFFFFFFFF then (.ret (-1), l.2) else enterProgram n curPid l.1 l.2

/-- The first steps of `execute`: CR3 noted and a pid chosen. -/
def choosePid (command : CString) (s : Kernel) : Kernel :=
  forcePid command { s with pcblock := { s.pcblock with cr3 := s.cr3 }, newPid := findTask s.tasks }

/-- `execute`. -/
def execute (command : Option CString) (r : Regs) (s : Kernel) : Option (Outcome × Kernel) :=
  match command with
  | none => some (.ret (-1), s)
  | some cmd =>
    let s := choosePid cmd s
    match s.newPid with
    | none => (writeFd 1 sixPrograms 25 s).map fun w => (.ret (-1), w.2)
    | some n => startProgram img cmd r n s

/-! ## halt -/

/-- The loop of `halt` over the descriptors `FILE_MIN..FILE_MAX - 1`. -/
def closeAll (s : Kernel) : Kernel := ([2, 3, 4, 5, 6, 7] : List (Fin 8)).foldl (fun s d => (closeAt d s).2) s

/-- What `halt` sets before it starts a terminal's shell again. -/
def restartShell (pidf : Pid) (s : Kernel) : Kernel :=
  { s with
    term1Rst := s.term1Rst || pidf = 1
    term2Rst := s.term2Rst || pidf = 2
    term3Rst := s.term3Rst || pidf = 3
    tasks := Function.update s.tasks pidf 0
    pc := s.pc - 1 }

/-- `halt` of a program that is no terminal's shell: back to the caller's page directory and stack. -/
def haltProgram (pidf : Pid) (s : Kernel) : Kernel :=
  let tempPcb := s.slots (s.tasks pidf)
  let s := { s with pc := s.pc - 1, tasks := Function.update s.tasks pidf 0 }
  let s := { s.closeAll with cr3 := tempPcb.cr3 }
  { s with esp0 := stackTop s.findPid, regs := ⟨tempPcb.esp, tempPcb.ebp⟩ }

/-- `halt`. With a CR3 that is no page directory of the kernel `tasks[-1]` is written. -/
def halt (r : Regs) (s : Kernel) : Option (Outcome × Kernel) :=
  match s.cr3.pid with
  | none => none
  | some pidf =>
    if pidf.val ≤ 3 then
      (execute img (some shell) r (restartShell pidf s)).map fun e =>
        match e.1 with
        | .enter eip => (.enter eip, e.2)
        | _ => (.ret 0, e.2)
    else some (.resume, haltProgram pidf s)

end Kernel

end Os391
