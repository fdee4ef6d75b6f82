/-
What `execute` does, way out by way out: the words `parse_cmd` finds, the files `loader` accepts,
the process-table entry `execute` claims, and the state each ending leaves. The proofs about
processes use these equations and never unfold the calls.
-/
import Os391.Files.Spec
import Os391.Kernel.Terminal

namespace Os391

open Bytes

/-! ## parse_cmd -/

/-- A block with the command words of another one: `cmd_name`, `arg_name` and `data_arg_size`. -/
def Pcb.withWords (p q : Pcb) : Pcb :=
  { p with cmdName := q.cmdName, argName := q.argName, dataArgSize := q.dataArgSize }

/-- The words of a command, as `parse_cmd` leaves them; none when one is too long for the block. -/
def words (command : CString) : Option Pcb := parseCmd command .zero

theorem storeByte_withWords (p q : Pcb) (off : Nat) (b z : UInt8) : ∃ z',
    ({ p.withWords q with dataArgSize := z } : Pcb).storeByte off b =
      (q.storeByte off b).map fun q' => { p.withWords q' with dataArgSize := z' } := by
  unfold Pcb.storeByte
  split
  · exact ⟨z, rfl⟩
  split
  · exact ⟨z, rfl⟩
  split
  · exact ⟨b, rfl⟩
  · exact ⟨z, rfl⟩

/-- One scanner turn in another block: the words are the same, only the byte after them may differ. -/
theorem parseStep_withWords (p : Pcb) (input : Buf) (i : Nat) (st : Parse) (z : UInt8) : ∃ z',
    parseStep input i { st with pcb := { p.withWords st.pcb with dataArgSize := z } } =
      (parseStep input i st).map fun st' => { st' with pcb := { p.withWords st'.pcb with dataArgSize := z' } } := by
  obtain ⟨z1, h1⟩ := storeByte_withWords p st.pcb st.cmdSize (input i) z
  obtain ⟨z2, h2⟩ := storeByte_withWords p st.pcb (40 + st.argSize) (input i) z
  unfold parseStep
  simp only [h1, h2]
  split
  · refine ⟨z1, ?_⟩
    rcases st.pcb.storeByte st.cmdSize (input i) with _ | q
    · rfl
    · simp only [Option.map_some, Option.bind_eq_bind, Option.bind_some, Option.pure_def]
      split <;> rfl
  split
  · refine ⟨z2, ?_⟩
    rcases st.pcb.storeByte (40 + st.argSize) (input i) with _ | q
    · rfl
    · simp only [Option.map_some, Option.bind_eq_bind, Option.bind_some, Option.pure_def]
      split <;> rfl
  · refine ⟨z, ?_⟩
    simp only [Option.bind_eq_bind, Option.bind_some, Option.pure_def, Option.map_some]
    split <;> rfl

theorem parseLoop_withWords (p : Pcb) (input : Buf) : ∀ (n i : Nat) (st : Parse) (z : UInt8), ∃ z',
    parseLoop input i n { st with pcb := { p.withWords st.pcb with dataArgSize := z } } =
      (parseLoop input i n st).map fun st' => { st' with pcb := { p.withWords st'.pcb with dataArgSize := z' } }
  | 0, _, _, z => ⟨z, rfl⟩
  | n + 1, i, st, z => by
    obtain ⟨z1, h1⟩ := parseStep_withWords p input i st z
    unfold parseLoop
    rw [h1]
    rcases parseStep input i st with _ | st'
    · exact ⟨z, rfl⟩
    · obtain ⟨z2, h2⟩ := parseLoop_withWords p input n (i + 1) st' z1
      exact ⟨z2, h2⟩

/-- The words do not depend on the block they are written to. -/
theorem parseCmd_eq (command : CString) (p : Pcb) : parseCmd command p = (words command).map p.withWords := by
  unfold words parseCmd
  simp only
  obtain ⟨z, h⟩ := parseLoop_withWords p command.get
    (command.strlen % 256 - if command.get 0 = 32 then
      (List.range (command.strlen % 256)).countP fun i => command.get i = 32 else 0)
    (if command.get 0 = 32 then (List.range (command.strlen % 256)).countP fun i => command.get i = 32 else 0)
    ⟨{ Pcb.zero with cmdName := fun _ => 0, argName := fun _ => 0 }, 0, 0, false⟩ p.dataArgSize
  have h0 : ({ p with cmdName := fun _ => 0, argName := fun _ => 0 } : Pcb) =
      { p.withWords { Pcb.zero with cmdName := fun _ => 0, argName := fun _ => 0 } with
        dataArgSize := p.dataArgSize } := rfl
  rw [h0, h, Option.map_map, Option.map_map]
  rfl

theorem Pcb.withWords_cmdView (p q : Pcb) : (p.withWords q).cmdView = q.cmdView := rfl

/-! ## loader -/

/-- The inode of the program a name loads: the file is found, has four bytes and the magic. -/
def Image.executable (img : Image) (filename : Buf) : Option UInt32 :=
  (img.lookup filename).bind fun e =>
    if img.dataLength e.inodeNumber < 4 then none
    else if Kernel.isMagic (img.block e.inodeNumber 0) then some e.inodeNumber else none

/-- The position that the read of `loader` stores for `fd_val`: the length of the file, unless `read_data` refuses
its inode. -/
def Image.loadPosition (img : Image) (inode : UInt32) : Option UInt32 :=
  if inode < img.numInodes - 1 then some (img.dataLength inode) else none

theorem Image.readData_position {img : Image} {inode : UInt32} {buf : Buf} (h : ¬ img.dataLength inode < 4) :
    (img.readData inode 0 buf (img.dataLength inode)).fpos = img.loadPosition inode := by
  have hsome : ¬ (0 : UInt32) ≥ img.dataLength inode := by
    rw [UInt32.lt_iff_toNat_lt] at h
    rw [ge_iff_le, UInt32.le_iff_toNat_le]
    exact fun h0 => h (lt_of_le_of_lt h0 (by decide))
  have hsum : ∀ n : UInt32, 0 + n = n := fun n => by simp
  have hirr : ¬ img.dataLength inode < img.dataLength inode := UInt32.lt_irrefl _
  unfold readData loadPosition
  simp only [if_neg hsome, hsum, gt_iff_lt, if_neg hirr]
  by_cases hi : inode < img.numInodes - 1
  · rw [if_neg (UInt32.not_le.2 hi), if_pos hi]
  · rw [if_pos (UInt32.not_lt.1 hi), if_neg hi]

namespace Kernel

variable {img : Image}

theorem loader_refused {filename : Buf} (s : Kernel) (h : img.executable filename = none) :
    ∃ d, loader img filename s = (0xFFFFFFFF, { s with dentry1 := d }) := by
  unfold Image.executable at h
  unfold loader Image.readDentryByName
  rcases hl : img.lookup filename with _ | e
  · exact ⟨s.dentry1, rfl⟩
  · rw [hl] at h
    simp only [Option.bind_some] at h
    refine ⟨s.dentry1.withHead e, ?_⟩
    have hi : (s.dentry1.withHead e).inodeNumber = e.inodeNumber := rfl
    simp only [hi]
    by_cases h4 : img.dataLength e.inodeNumber < 4
    · simp only [h4, if_true]; rfl
    · rw [if_neg h4] at h
      have hm : ¬ isMagic (img.block e.inodeNumber 0) = true := by
        intro hm; rw [if_pos hm] at h; cases h
      simp only [h4, hm, if_false]; rfl

/-- The bytes `loader` leaves at `NEW_LOAD` and after. -/
def staged (img : Image) (inode : UInt32) (m : Mem) : Mem :=
  m.put newLoad (img.dataLength inode).toNat (img.readData inode 0 (m.view newLoad) (img.dataLength inode)).buf

/-- The state `loader` leaves when it accepts a file for entry `n`: the file staged, the task's page
directory loaded and the program copied there. The read may overwrite the position of `fd_val`. -/
def loaded (img : Image) (inode : UInt32) (n : Pid) (d : Dentry) (fpos : Option UInt32) (s : Kernel) : Kernel :=
  { s with
    pcblock := (s.storeFpos fpos).pcblock
    dentry1 := d
    mem := staged img inode s.mem
    cr3 := taskDir n s.cr3
    pc := if n = 1 ∨ n = 4 ∨ n = 5 ∨ n = 6 then s.pc + 1 else s.pc
    user := Function.update s.user (taskDir n s.cr3) ((s.user (taskDir n s.cr3)).put programImg
      (img.dataLength inode).toNat ((staged img inode s.mem).view newLoad)) }

/-- What `loader` does with a file it accepts. -/
theorem loader_accepted {filename : Buf} {inode : UInt32} (s : Kernel) (h : img.executable filename = some inode) :
    ∃ d, loader img filename s =
      let t := { s with dentry1 := d, mem := staged img inode s.mem }.storeFpos (img.loadPosition inode)
      (word (t.mem.view newLoad) 24,
        t.loadTask.userPut programImg (img.dataLength inode).toNat (t.loadTask.mem.view newLoad)) := by
  unfold Image.executable at h
  unfold loader Image.readDentryByName
  rcases hl : img.lookup filename with _ | e <;> rw [hl] at h
  · cases h
  simp only [Option.bind_some] at h
  have h4 : ¬ img.dataLength e.inodeNumber < 4 := by
    intro h4; rw [if_pos h4] at h; cases h
  rw [if_neg h4] at h
  have hm : isMagic (img.block e.inodeNumber 0) = true := by
    by_contra hm; rw [if_neg hm] at h; cases h
  rw [if_pos hm] at h
  cases h
  have hi : (s.dentry1.withHead e).inodeNumber = e.inodeNumber := rfl
  refine ⟨s.dentry1.withHead e, ?_⟩
  simp only [hi, h4, hm, if_false, if_true]
  rw [Image.readData_position h4]
  rfl

/-- What it leaves for entry `n`, the position of `fd_val` included. -/
theorem loader_loads_at {filename : Buf} {inode : UInt32} {n : Pid} (s : Kernel)
    (h : img.executable filename = some inode) (hn : s.newPid = some n) :
    ∃ d, loader img filename s =
      (word ((staged img inode s.mem).view newLoad) 24, loaded img inode n d (img.loadPosition inode) s) := by
  obtain ⟨d, hs⟩ := loader_accepted s h
  refine ⟨d, hs.trans ?_⟩
  rcases img.loadPosition inode with _ | v <;> simp only [storeFpos, loadTask, hn, userPut, loaded]

theorem loader_loads {filename : Buf} {inode : UInt32} {n : Pid} (s : Kernel)
    (h : img.executable filename = some inode) (hn : s.newPid = some n) :
    ∃ d fpos, loader img filename s =
      (word ((staged img inode s.mem).view newLoad) 24, loaded img inode n d fpos s) := by
  obtain ⟨d, hs⟩ := loader_loads_at s h hn
  exact ⟨d, _, hs⟩

/-! ## The claimed entry -/

theorem findTask_eq (tasks : Pid → Int) :
    findTask tasks = if tasks 1 = 0 then some 1 else if tasks 4 = 0 then some 4
      else if tasks 5 = 0 then some 5 else if tasks 6 = 0 then some 6 else none := by
  simp [findTask, findTaskFrom]

/-- The entry the flags force on an `execute`, in the order in which they are tested. -/
def forced (command : CString) (s : Kernel) : Option Pid :=
  if s.pc = 0 then some 1
  else if isShell command && s.term1Rst then some 1
  else if isShell command && (s.term2Press || s.term2Rst) then some 2
  else if isShell command && (s.term3Press || s.term3Rst) then some 3
  else none

/-- The entry an `execute` claims: the forced one, or else the first free one of 1, 4, 5 and 6. -/
def claimed (command : CString) (s : Kernel) : Option Pid := (s.forced command).or (findTask s.tasks)

/-- Whether an `execute` clears the restart flag of a terminal. -/
def spends (command : CString) (s : Kernel) (n : Pid) : Bool := s.pc ≠ 0 && s.forced command = some n

/-- The pid `execute` takes for its caller's. -/
def curPid (s : Kernel) : Int := if s.findPid = 0 then 1 else s.findPid

theorem findTask_free {tasks : Pid → Int} {n : Pid} (h : findTask tasks = some n) : n ≠ 0 ∧ tasks n = 0 := by
  rw [findTask_eq] at h
  split at h
  · cases h; exact ⟨by decide, by assumption⟩
  split at h
  · cases h; exact ⟨by decide, by assumption⟩
  split at h
  · cases h; exact ⟨by decide, by assumption⟩
  split at h
  · cases h; exact ⟨by decide, by assumption⟩
  · cases h

/-- Only the entries of the terminals' shells are forced. -/
theorem forced_cases {command : CString} {s : Kernel} {n : Pid} (h : s.forced command = some n) :
    n = 1 ∨ n = 2 ∨ n = 3 := by
  unfold forced at h
  split at h
  · cases h; exact Or.inl rfl
  split at h
  · cases h; exact Or.inl rfl
  split at h
  · cases h; exact Or.inr (Or.inl rfl)
  split at h
  · cases h; exact Or.inr (Or.inr rfl)
  · cases h

theorem forced_ne_zero {command : CString} {s : Kernel} {n : Pid} (h : s.forced command = some n) : n ≠ 0 := by
  rcases forced_cases h with rfl | rfl | rfl <;> decide

theorem forced_le {command : CString} {s : Kernel} {n : Pid} (h : s.forced command = some n) : n.val ≤ 3 := by
  rcases forced_cases h with rfl | rfl | rfl <;> decide

theorem claimed_ne_zero {command : CString} {s : Kernel} {n : Pid} (h : s.claimed command = some n) : n ≠ 0 := by
  unfold claimed at h
  rcases hf : s.forced command with _ | m <;> rw [hf] at h
  · exact (findTask_free h).1
  · cases h; exact forced_ne_zero hf

theorem choosePid_eq (command : CString) (s : Kernel) :
    choosePid command s = { s with
      pcblock := { s.pcblock with cr3 := s.cr3 }
      newPid := s.claimed command
      term1Rst := s.term1Rst && !s.spends command 1
      term2Rst := s.term2Rst && !s.spends command 2
      term3Rst := s.term3Rst && !s.spends command 3 } := by
  unfold choosePid forcePid claimed spends forced
  by_cases h0 : s.pc = 0
  · simp [h0]
  simp only [h0, if_false]
  by_cases h1 : (isShell command && s.term1Rst) = true
  · simp [h0, h1]
  simp only [h1]
  by_cases h2 : (isShell command && (s.term2Press || s.term2Rst)) = true
  · simp [h0, h2]
  simp only [h2]
  by_cases h3 : (isShell command && (s.term3Press || s.term3Rst)) = true
  · simp [h0, h3]
  · simp [h3]

/-! ## execute -/

/-- The state in which `execute` calls `loader`, with entry `n` claimed and the words `q` parsed. -/
def claim (command : CString) (r : Regs) (n : Pid) (q : Pcb) (s : Kernel) : Kernel :=
  let caller := { s.pcblock with cr3 := s.cr3, esp := r.esp, ebp := r.ebp }
  { s with
    newPid := some n
    term1Rst := s.term1Rst && !s.spends command 1
    term2Rst := s.term2Rst && !s.spends command 2
    term3Rst := s.term3Rst && !s.spends command 3
    tasks := Function.update s.tasks n s.curPid
    slots := if n ≠ 1 then Function.update s.slots s.curPid caller else s.slots
    pcblock := ({ caller with prevPcb := if n ≠ 1 then slotAddr s.curPid else caller.prevPcb } : Pcb).withWords q }

/-- An entry other than 1 saves the caller's block. -/
theorem claim_slots {command : CString} {r : Regs} {n : Pid} {q : Pcb} {s : Kernel} (hn : n ≠ 1) :
    (claim command r n q s).slots = Function.update s.slots s.curPid
      { s.pcblock with cr3 := s.cr3, esp := r.esp, ebp := r.ebp } := by
  unfold claim
  simp only
  rw [if_pos hn]

theorem execute_claimed {command : CString} {r : Regs} {s : Kernel} {n : Pid} (h : s.claimed command = some n) :
    execute img (some command) r s = (words command).map fun q =>
      let l := loader img q.cmdView (claim command r n q s)
      if l.1 = 0xFFFFFFFF then (.ret (-1), l.2) else enterProgram n s.curPid l.1 l.2 := by
  have hp : (choosePid command s).findPid = s.findPid := by rw [choosePid_eq]; rfl
  unfold execute
  simp only
  rw [show (choosePid command s).newPid = some n by rw [choosePid_eq]; exact h]
  unfold startProgram
  simp only [hp, parseCmd_eq, Option.map_map]
  congr 1
  funext q
  have hs : ({ saveCaller n s.curPid { choosePid command s with
        tasks := Function.update (choosePid command s).tasks n s.curPid
        pcblock := { (choosePid command s).pcblock with esp := r.esp, ebp := r.ebp } } with
      pcblock := (saveCaller n s.curPid { choosePid command s with
        tasks := Function.update (choosePid command s).tasks n s.curPid
        pcblock := { (choosePid command s).pcblock with esp := r.esp, ebp := r.ebp } }).pcblock.withWords q } : Kernel) =
      claim command r n q s := by
    rw [choosePid_eq]
    unfold saveCaller claim savePcb
    by_cases hn : n = 1
    · subst hn; simp [h]
    · simp [hn, h]
  show (if (loader img _ _).1 = _ then _ else _) = _
  simp only [Pcb.withWords_cmdView]
  erw [hs]
  rfl

/-- An `execute` whose file is accepted, up to the test of the entry point. -/
theorem execute_loads_at {command : CString} {r : Regs} {s : Kernel} {n : Pid} {q : Pcb} {inode : UInt32}
    (h : s.claimed command = some n) (hq : words command = some q) (he : img.executable q.cmdView = some inode) :
    ∃ d, execute img (some command) r s =
      let eip := word ((staged img inode s.mem).view newLoad) 24
      let t := loaded img inode n d (img.loadPosition inode) (claim command r n q s)
      some (if eip = 0xFFFFFFFF then (.ret (-1), t) else enterProgram n s.curPid eip t) := by
  obtain ⟨d, hd⟩ := loader_loads_at (n := n) (claim command r n q s) he rfl
  refine ⟨d, ?_⟩
  rw [execute_claimed h, hq, Option.map_some, hd]
  rfl

/-- With no entry to claim it prints and returns. -/
theorem execute_unclaimed {command : CString} {r : Regs} {s : Kernel} (h : s.claimed command = none) :
    execute img (some command) r s = (writeFd 1 sixPrograms 25 (choosePid command s)).map fun w => (.ret (-1), w.2) := by
  have hp : (choosePid command s).newPid = none := by rw [choosePid_eq]; exact h
  unfold execute
  simp only [hp]

/-- The ways out of `execute`: no entry to claim; the command refused; or the program loaded, and
then entered unless its entry point reads as the error value. -/
theorem execute_cases {command : CString} {r : Regs} {s s' : Kernel} {o : Outcome}
    (h : execute img (some command) r s = some (o, s')) :
    (s.claimed command = none ∧ o = .ret (-1) ∧ ∃ con dev, s' = { choosePid command s with con := con, dev := dev }) ∨
    ∃ n q, s.claimed command = some n ∧ words command = some q ∧
      ((img.executable q.cmdView = none ∧ o = .ret (-1) ∧ ∃ d, s' = { claim command r n q s with dentry1 := d }) ∨
       ∃ inode d fpos, img.executable q.cmdView = some inode ∧
        ((o = .ret (-1) ∧ s' = loaded img inode n d fpos (claim command r n q s)) ∨
         ∃ eip, o = .enter eip ∧
          s' = (enterProgram n s.curPid eip (loaded img inode n d fpos (claim command r n q s))).2)) := by
  rcases hc : s.claimed command with _ | n
  · left
    rw [execute_unclaimed hc] at h
    obtain ⟨⟨o', w⟩, hw, he⟩ := Option.map_eq_some_iff.1 h
    cases he
    exact ⟨rfl, rfl, writeFd_eq hw⟩
  · right
    rw [execute_claimed hc] at h
    obtain ⟨q, hq, hl⟩ := Option.map_eq_some_iff.1 h
    refine ⟨n, q, rfl, hq, ?_⟩
    simp only at hl
    rcases he : img.executable q.cmdView with _ | inode
    · left
      obtain ⟨d, hd⟩ := loader_refused (claim command r n q s) he
      rw [hd] at hl
      cases hl
      exact ⟨rfl, rfl, d, rfl⟩
    · right
      obtain ⟨d, fpos, hd⟩ := loader_loads (n := n) (claim command r n q s) he rfl
      rw [hd] at hl
      refine ⟨inode, d, fpos, rfl, ?_⟩
      split at hl
      · obtain ⟨rfl, rfl⟩ := Prod.mk.inj hl
        exact Or.inl ⟨rfl, rfl⟩
      · obtain ⟨rfl, rfl⟩ := Prod.mk.inj hl
        exact Or.inr ⟨_, rfl, rfl⟩

/-- A successful `execute`. -/
theorem execute_entered {command : CString} {r : Regs} {s s' : Kernel} {eip : UInt32}
    (h : execute img (some command) r s = some (.enter eip, s')) :
    ∃ n q inode d fpos, s.claimed command = some n ∧ words command = some q ∧
      img.executable q.cmdView = some inode ∧
      s' = (enterProgram n s.curPid eip (loaded img inode n d fpos (claim command r n q s))).2 := by
  rcases execute_cases h with ⟨-, ho, -⟩ | ⟨n, q, hn, hq, ⟨-, ho, -⟩ | ⟨inode, d, fpos, he, ⟨ho, -⟩ | ⟨eip', ho, hs⟩⟩⟩
  · cases ho
  · cases ho
  · cases ho
  · cases ho
    exact ⟨n, q, inode, d, fpos, hn, hq, he, hs⟩

/-- What every `execute` keeps: the terminals and their line buffers, the indices between file calls,
and every PCB copy but the caller's and the new program's. -/
theorem execute_frame {command : CString} {r : Regs} {s s' : Kernel} {o : Outcome}
    (h : execute img (some command) r s = some (o, s')) :
    (s'.terminals = s.terminals ∧ s'.curTerminal = s.curTerminal ∧ s'.term2Flag = s.term2Flag ∧
      s'.term3Flag = s.term3Flag ∧ s'.textBuf = s.textBuf ∧ s'.counter = s.counter ∧ s'.fdIndex = s.fdIndex) ∧
    ∀ i, i ≠ s.curPid → (∀ n ∈ s.claimed command, i ≠ n.val) → s'.slots i = s.slots i := by
  have hslots : ∀ n q i, i ≠ s.curPid → (claim command r n q s).slots i = s.slots i := by
    intro n q i hi
    by_cases hn : n = 1
    · subst hn; rfl
    · rw [claim_slots hn, Function.update_of_ne hi]
  rcases execute_cases h with ⟨-, -, con, dev, rfl⟩ |
      ⟨n, q, hn, -, ⟨-, -, d, rfl⟩ | ⟨inode, d, fpos, -, ⟨-, rfl⟩ | ⟨eip, -, rfl⟩⟩⟩
  · rw [choosePid_eq]
    exact ⟨⟨rfl, rfl, rfl, rfl, rfl, rfl, rfl⟩, fun _ _ _ => rfl⟩
  · exact ⟨⟨rfl, rfl, rfl, rfl, rfl, rfl, rfl⟩, fun i hi _ => hslots n q i hi⟩
  · exact ⟨⟨rfl, rfl, rfl, rfl, rfl, rfl, rfl⟩, fun i hi _ => hslots n q i hi⟩
  · refine ⟨⟨rfl, rfl, rfl, rfl, rfl, rfl, rfl⟩, fun i hi hin => ?_⟩
    show Function.update (claim command r n q s).slots (n.val : Int) _ i = s.slots i
    rw [Function.update_of_ne (hin n hn)]
    exact hslots n q i hi

/-! ## The first shell -/

/-- The state after `entry` has started the shell of the small image. -/
def firstShell : Kernel := ((execute .sample (some shell) ⟨0, 0⟩ boot).getD (.handled, boot)).2

/-- A call whose ending is known returns the state its evaluation gives. -/
theorem eq_some_of_fst {x : Option (Outcome × Kernel)} {o : Outcome} (d : Outcome × Kernel)
    (h : x.map Prod.fst = some o) : x = some (o, (x.getD d).2) := by
  obtain ⟨⟨o', s⟩, rfl, ho⟩ := Option.map_eq_some_iff.1 h
  cases ho
  rfl

theorem execute_firstShell : execute .sample (some shell) ⟨0, 0⟩ boot = some (.enter 0, firstShell) :=
  eq_some_of_fst _ (by decide +kernel)

end Kernel

end Os391
