/-
The file system calls of `systemcalls.c` and the drivers behind them: `open`, `close`, `read`,
`write` and `getargs`, through the operation tables of `filesystem.c`, `terminal.c` and `rtc.c`.
A call has no outcome (`none`) when it uses a local that was never assigned, follows a `NULL`
table, or does not come back at this point.
-/
import Os391.Kernel.State

namespace Os391

open Bytes

namespace Kernel

variable (img : Image)

/-- The bytes at a user address of the running process. -/
def userView (s : Kernel) (buf : Int) : Buf := (s.user s.cr3).view buf

/-- `n` bytes stored at a user address of the running process. -/
def userPut (s : Kernel) (buf : Int) (n : Nat) (f : Buf) : Kernel :=
  { s with user := Function.update s.user s.cr3 ((s.user s.cr3).put buf n f) }

/-! ## open -/

/-- The search of `open` from descriptor `i` on, over `n` entries; the last one looked at is entry 8,
past the end of `file_struct`. -/
def findFdFrom (p : Pcb) (i : Nat) : Nat → Option Nat
  | 0 => none
  | n + 1 => if p.flagsAt i = 0 then some i else findFdFrom p (i + 1) n

/-- `for (; fd_index <= FILE_ARRAY_SIZE; fd_index++)` from `FD_MIN`: where it breaks. -/
def findFd (p : Pcb) : Option Nat := findFdFrom p 2 7

/-- `filesystem_open`: the entry goes to `pcblock.dentry[fd_val]`. -/
def filesystemOpen (filename : CString) (s : Kernel) : Int × Kernel :=
  if strncmp filename.get (fun _ => 0) 1 ≠ 0 then
    let r := img.readDentryByName filename.get (s.pcblock.dentry s.fdVal)
    (r.1, { s with pcblock := s.pcblock.setDentry s.fdVal fun _ => r.2 })
  else (-1, s)

/-- `open` once a free descriptor `fd` is found. -/
def openAt (filename : CString) (fd : Fin 8) (s : Kernel) : Int × Kernel :=
  let pid := s.findPid
  let s := { s with
    fdIndex := fd
    pcblock := s.pcblock.setFile fd fun f => { f with flags := 1 } }
  let s :=
    if strncmp filename.get (fun _ => 0) 1 ≠ 0 then
      { s with pcblock := s.pcblock.setDentry fd fun d => (img.readDentryByName filename.get d).2 }
    else s
  let r := filesystemOpen img filename s
  let s := r.2
  if r.1 = -1 then
    let s := { s with pcblock := s.pcblock.setFile fd fun f => { f with flags := 0 } }
    (-1, s.savePcb pid)
  else if (s.pcblock.dentry fd).fileType = 0 then
    let s := { s with
      fdRtc := fd
      dev := s.dev.rtcInit
      pcblock := s.pcblock.setFile fd fun f => { f with flags := 1, fopsPtr := some .rtcFops } }
    (fd, s.savePcb pid)
  else
    let s := { s with
      pcblock := s.pcblock.setFile fd fun f => { f with fpos := 0, fopsPtr := some .filesystemFops } }
    (fd, s.savePcb pid)

/-- `open`. When the search runs past entry 8 without a break, `index_temp` is used unassigned. -/
def sysOpen (filename : Option CString) (s : Kernel) : Option (Int × Kernel) :=
  match filename with
  | none => some (-1, { s with fdIndex := 2 })
  | some name =>
    match findFd s.pcblock with
    | none => none
    | some i => if h : i < 8 then some (openAt img name ⟨i, h⟩ s) else some (-1, { s with fdIndex := i })

/-! ## close -/

/-- `filesystem_close`; `dirclose` does nothing. -/
def filesystemClose (fd : Fin 8) (s : Kernel) : Int × Kernel :=
  let s := { s with fdVal := fd }
  if (s.pcblock.dentry fd).fileType = 1 then (0, s)
  else if fd = 0 ∨ fd = 1 then (-1, s)
  else (0, { s with pcblock := s.pcblock.setFile fd fun f => { f with flags := 0 } })

/-- `close` of a descriptor in `FD_MIN..FD_MAX`. The table pointer cleared is that of `fd_index`,
the descriptor `open` looked at last. -/
def closeAt (fd : Fin 8) (s : Kernel) : Int × Kernel :=
  if (s.pcblock.fileStruct fd).flags = 1 then
    let p := s.pcblock.setFile fd fun f => { f with fpos := 0 }
    let p := p.setDentry fd fun d => { d with fileType := 0, inodeNumber := 0 }
    let p := p.clearFops s.fdIndex
    let p := p.setDentry fd fun d => { d with fileName := fun _ => 0, reserved := fun _ => 0 }
    let s := { s with pcblock := p }
    -- `rtc_close` does nothing
    let s := if s.fdRtc > 1 ∧ fd.val = s.fdRtc then s else (filesystemClose fd s).2
    (0, { s with pcblock := s.pcblock.setFile fd fun f => { f with flags := 0 } })
  else (-1, s)

/-- `close`. -/
def sysClose (fd : Int) (s : Kernel) : Int × Kernel :=
  if h : 2 ≤ fd ∧ fd ≤ 7 then closeAt ⟨fd.toNat, by omega⟩ s else (-1, s)

/-! ## read -/

/-- Where the copy loop of `read_helper` stops at a newline: the first one before `length` and the
end of the buffer. -/
def newlineAt (textBuf : Fin 128 → UInt8) (length : Nat) : Option Nat :=
  (List.range (min length 128)).find? fun i => if h : i < 128 then textBuf ⟨i, h⟩ = 10 else false

/-- `terminal_read`. The loop of `read_helper` polls `entered`; while it is clear the call does not
come back. `ret_val` is only assigned where a newline is found. -/
def terminalRead (fd : Fin 8) (buf : Int) (len : Nat) (s : Kernel) : Option (Outcome × Kernel) :=
  if fd = 1 then some (.ret (-1), s)
  else if s.entered then
    let nl := newlineAt s.textBuf len
    let n := match nl with
      | some i => i + 1
      | none => min len 128
    let s := s.userPut buf n fun i => if h : i < 128 then s.textBuf ⟨i, h⟩ else 0
    let s := { s with entered := false }
    match nl with
    | some i => some (.ret i, s)
    | none => some (.indeterminate, s)
  else none

/-- The store `pcblock.file_struct[fd_val].fpos = offset + rval` at the end of `read_data`, if the
call gets there. -/
def storeFpos (s : Kernel) : Option UInt32 → Kernel
  | some p => { s with pcblock := s.pcblock.setFile s.fdVal fun f => { f with fpos := p } }
  | none => s

/-- `filesystem_read`. -/
def filesystemRead (fd : Fin 8) (buf : Int) (nbytes : Nat) (s : Kernel) : Option (Outcome × Kernel) :=
  let s := { s with fdVal := fd }
  let fpos := (s.pcblock.fileStruct fd).fpos
  if (s.pcblock.dentry fd).fileType = 1 then
    (img.dirread fpos (s.userView buf)).map fun r =>
      let s := s.userPut buf r.1.toNat r.2.1
      (.ret r.1, { s with pcblock := s.pcblock.setFile fd fun f => { f with fpos := r.2.2 } })
  else
    let r := img.readData (s.pcblock.dentry fd).inodeNumber fpos (s.userView buf) (UInt32.ofNat nbytes)
    some (.ret r.ret, (s.userPut buf nbytes r.buf).storeFpos r.fpos)

/-- `rtc_read`: it waits for the next interrupt. -/
def rtcRead (s : Kernel) : Outcome × Kernel := (.ret 0, { s with dev := { s.dev with intrFlag := 1 } })

/-- The check at the head of `read` and `write`, for a non-NULL buffer: the descriptor when the call
goes on. -/
def checkFd (fd nbytes : Int) (s : Kernel) : Option (Fin 8) :=
  if h : 0 ≤ fd ∧ fd ≤ 7 then
    if (s.pcblock.fileStruct ⟨fd.toNat, by omega⟩).flags = 0 ∨ nbytes < 0 then none
    else some ⟨fd.toNat, by omega⟩
  else none

/-- `read`. -/
def sysRead (fd buf nbytes : Int) (s : Kernel) : Option (Outcome × Kernel) :=
  if buf = 0 then some (.ret (-1), s)
  else match checkFd fd nbytes s with
  | none => some (.ret (-1), s)
  | some d =>
    match (s.pcblock.fileStruct d).fopsPtr with
    | none => none
    | some .rtcFops => some (rtcRead s)
    | some .terminalFops => terminalRead d buf nbytes.toNat s
    | some .filesystemFops => filesystemRead img d buf nbytes.toNat s

/-! ## write, getargs -/

/-- `terminal_write`. -/
def terminalWrite (fd : Fin 8) (text : Buf) (len : Nat) (s : Kernel) : Outcome × Kernel :=
  if fd = 0 then (.ret (-1), s)
  else
    let r := s.con.writeHelper text len
    (match r.1 with
      | some v => .ret v
      | none => .indeterminate,
      { s with con := r.2 })

/-- `write` of a non-NULL text. The table of the file system holds `terminal_write`. -/
def writeFd (fd : Int) (text : Buf) (nbytes : Int) (s : Kernel) : Option (Outcome × Kernel) :=
  match checkFd fd nbytes s with
  | none => some (.ret (-1), s)
  | some d =>
    match (s.pcblock.fileStruct d).fopsPtr with
    | none => none
    | some .rtcFops =>
      let r := s.dev.rtcWrite (word text 0).toInt32.toInt nbytes
      some (.ret r.1, { s with dev := r.2 })
    | some .terminalFops => some (terminalWrite d text nbytes.toNat s)
    | some .filesystemFops => some (terminalWrite d text nbytes.toNat s)

/-- `write`. -/
def sysWrite (fd buf nbytes : Int) (s : Kernel) : Option (Outcome × Kernel) :=
  if buf = 0 then some (.ret (-1), s) else writeFd fd (s.userView buf) nbytes s

/-- `getargs`. The first `BUFF_MAX` bytes of the buffer are cleared whatever `nbytes` is. The copy
may run one byte past `arg_name`, into `data_arg_size`; beyond it lies whatever follows the block. -/
def getargs (buf nbytes : Int) (s : Kernel) : Option (Int × Kernel) :=
  if buf = 0 ∨ nbytes < 0 then some (-1, s)
  else
    let size := s.pcblock.dataArgSize.toNat
    let n := if (size : Int) < nbytes then size else nbytes.toNat
    let arg : Buf := fun i => if h : i < 40 then s.pcblock.argName ⟨i, h⟩ else s.pcblock.dataArgSize
    let s := s.userPut buf 1024 fun _ => 0
    if n ≤ 41 then some (0, s.userPut buf n arg) else none

/-- `vidmap`: the address of video memory stored at `screen_start`. -/
def vidmap (screenStart : Int) (s : Kernel) : Int × Kernel :=
  if screenStart = 0 ∨ screenStart = 0x400000 then (-1, s)
  else (0, s.userPut screenStart 4 fun i => if i = 1 then 0x80 else if i = 2 then 0x0B else 0)

end Kernel

end Os391
