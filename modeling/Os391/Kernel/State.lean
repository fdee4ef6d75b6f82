/-
The kernel's state: the process control block `pcblock` and its copies, the process table, the
terminals, and the machine registers the code reads and writes.
-/
import Os391.Fs.Image
import Os391.Lib.Console
import Os391.Lib.Devices

namespace Os391

open Bytes

/-- The operation tables a `fops_t *` points to. -/
inductive Fops
  | rtcFops
  | terminalFops
  | filesystemFops
  deriving DecidableEq

/-- `file_struct_t`; `fopsPtr` is `none` for `NULL`. Nothing reads or writes `inode_ptr`. -/
@[ext]
structure FileStruct where
  fopsPtr : Option Fops
  fpos : UInt32
  flags : UInt32
  deriving DecidableEq

-- `0` is an index of each of the two tables: seven tasks, eight descriptors
instance seven_neZero : NeZero 7 := ⟨by decide⟩
instance eight_neZero : NeZero 8 := ⟨by decide⟩

/-- The page directory CR3 points to. The seven directories lie at different addresses; `other` is
any further value. -/
inductive PageDir
  | pageDirectory
  | task1
  | task2
  | task3
  | task4
  | task5
  | task6
  | other (addr : UInt32)
  deriving DecidableEq

/-- Indices of `tasks`. -/
abbrev Pid := Fin 7

/-- The comparisons of `find_pid` and `get_pid_from_cr3`, which agree. -/
def PageDir.pid : PageDir → Option Pid
  | .pageDirectory => some 0
  | .task1 => some 1
  | .task2 => some 2
  | .task3 => some 3
  | .task4 => some 4
  | .task5 => some 5
  | .task6 => some 6
  | .other _ => none

/-- `get_pid_from_cr3`. -/
def getPidFromCr3 (cr3 : PageDir) : Int :=
  match cr3.pid with
  | some n => n.val
  | none => -1

/-- The page directory `loader` loads for a pid; pid 0 has none of its own. -/
def taskDir (n : Pid) (cr3 : PageDir) : PageDir :=
  match n with
  | 1 => .task1
  | 2 => .task2
  | 3 => .task3
  | 4 => .task4
  | 5 => .task5
  | 6 => .task6
  | 0 => cr3

/-- `pcb_t`. The arrays lie one after the other in the order given here. -/
@[ext]
structure Pcb where
  prevPcb : Int
  esp : UInt32
  ebp : UInt32
  cr3 : PageDir
  parentPid : Int
  fileStruct : Fin 8 → FileStruct
  dentry : Fin 8 → Dentry
  cmdName : Fin 40 → UInt8
  argName : Fin 40 → UInt8
  dataArgSize : UInt8
  deriving DecidableEq

/-- The contents of a PCB in zeroed memory. -/
def Pcb.zero : Pcb :=
  { prevPcb := 0, esp := 0, ebp := 0, cr3 := .other 0, parentPid := 0
    fileStruct := fun _ => ⟨none, 0, 0⟩, dentry := fun _ => .zero
    cmdName := fun _ => 0, argName := fun _ => 0, dataArgSize := 0 }

/-- The three terminals. -/
inductive TermNum
  | t1
  | t2
  | t3
  deriving DecidableEq

/-- `terminal_t`. The field `counter` is never written or read. -/
structure Terminal where
  tLinebuffer : Fin 128 → UInt8
  posX : Int
  posY : Int
  esp : UInt32
  kernelEsp : UInt32
  cr3 : PageDir
  fileStruct : Fin 8 → FileStruct

/-- The stack registers where the kernel saves them. -/
structure Regs where
  esp : UInt32
  ebp : UInt32
  deriving DecidableEq

/-- How a call or an interrupt ends. -/
inductive Outcome
  /-- the call returns a value -/
  | ret (v : Int)
  /-- the call returns a local that was never assigned -/
  | indeterminate
  /-- `iret` into a program -/
  | enter (eip : UInt32)
  /-- `halt` of a program: its caller's `execute` returns 0 -/
  | resume
  /-- the interrupt handler is through -/
  | handled
  deriving DecidableEq

/-- The kernel's globals, the PCB copies below 8 MB, memory and the registers. `mem` holds the
save areas and the staging area of `loader`, which the copies lie apart from (`stagingRoom` says up to what
program size); `user` is what each page directory maps at 128 MB. -/
structure Kernel where
  pcblock : Pcb
  fdIndex : Nat
  fdVal : Fin 8
  fdRtc : Nat
  newPid : Option Pid
  tasks : Pid → Int
  pc : UInt32
  term1Rst : Bool
  term2Rst : Bool
  term3Rst : Bool
  term2Press : Bool
  term3Press : Bool
  term2Flag : Bool
  term3Flag : Bool
  curTerminal : TermNum
  terminals : TermNum → Terminal
  termPcb : Pcb
  textBuf : Fin 128 → UInt8
  counter : UInt32
  entered : Bool
  con : Console
  dentry1 : Dentry
  slots : Int → Pcb
  mem : Mem
  user : PageDir → Mem
  cr3 : PageDir
  esp0 : Int
  regs : Regs
  dev : Devices

namespace Kernel

/-- `find_pid`. -/
def findPid (s : Kernel) : Int := getPidFromCr3 s.cr3

/-- `EIGHT_MB - KB_8 * pid - START - T_6 * KB_8`, where the PCB copy of a pid lies. -/
def slotAddr (pid : Int) : Int := 0x800000 - 0x2000 * pid - 4 - 6 * 0x2000

/-- `EIGHT_MB - KB_8 * (pid - 1) - START`, where the kernel stack of a pid starts. -/
def stackTop (pid : Int) : Int := 0x800000 - 0x2000 * (pid - 1) - 4

/-- `memcpy(pcb_ptr, &pcblock, PCB_SIZE)` to the copy of a pid. -/
def savePcb (s : Kernel) (pid : Int) : Kernel := { s with slots := Function.update s.slots pid s.pcblock }

@[simp] theorem savePcb_pcblock (s : Kernel) (pid : Int) : (s.savePcb pid).pcblock = s.pcblock := rfl

end Kernel

/-! ## Descriptor entries -/

namespace Pcb

/-- `file_struct[i].flags` for `i ≤ 8`. The ninth entry is read from the first bytes of `dentry`,
which follows in memory: its `flags` are bytes 12..15 of the name of entry 0. -/
def flagsAt (p : Pcb) (i : Nat) : UInt32 :=
  if h : i < 8 then (p.fileStruct ⟨i, h⟩).flags else (p.dentry 0).nameWord 3

/-- One descriptor's entry changed. -/
def setFile (p : Pcb) (d : Fin 8) (f : FileStruct → FileStruct) : Pcb :=
  { p with fileStruct := Function.update p.fileStruct d (f (p.fileStruct d)) }

/-- One descriptor's directory entry changed. -/
def setDentry (p : Pcb) (d : Fin 8) (f : Dentry → Dentry) : Pcb :=
  { p with dentry := Function.update p.dentry d (f (p.dentry d)) }

/-- `file_struct[i].fops_ptr = NULL` for `i ≤ 8`; the ninth entry's pointer is the first four bytes
of the name of entry 0. -/
def clearFops (p : Pcb) (i : Nat) : Pcb :=
  if h : i < 8 then p.setFile ⟨i, h⟩ fun f => { f with fopsPtr := none }
  else p.setDentry 0 fun d => { d with fileName := fun j => if j.val < 4 then 0 else d.fileName j }

end Pcb

end Os391
