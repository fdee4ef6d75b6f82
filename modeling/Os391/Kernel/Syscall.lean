/-
`syscall_handler` of `syscall_table.S`, from INT 0x80 to the `iret`, with the ten system calls as parameters.
-/
import Os391.Base.X86

namespace Os391

open X86

/-- The system calls, in the order of `system_call_table`. -/
inductive Sysno
  | halt | execute | read | write | open | close | getargs | vidmap | setHandler | sigreturn
  deriving DecidableEq

namespace Sysno

/-- The number in EAX. -/
def number : Sysno → UInt32
  | halt => 1
  | execute => 2
  | read => 3
  | write => 4
  | .open => 5
  | close => 6
  | getargs => 7
  | vidmap => 8
  | setHandler => 9
  | sigreturn => 10

/-- How many parameters the C function has. -/
def params : Sysno → Nat
  | halt | execute | .open | close | vidmap => 1
  | read | write => 3
  | getargs | setHandler => 2
  | sigreturn => 0

/-- The parameters, from EBX, ECX and EDX. -/
def args (n : Sysno) (m : Machine) : List UInt32 := [m.ebx, m.ecx, m.edx].take n.params

/-- How many registers the stub pushes: `sys_sigreturn` pushes EBX for a function without parameters. -/
def pushes (n : Sysno) : Nat := max n.params 1

/-- What the stub pushes, from the top of the stack on. -/
def pushed (n : Sysno) (m : Machine) : List UInt32 := [m.ebx, m.ecx, m.edx].take n.pushes

theorem length_pushed (n : Sysno) (m : Machine) : (n.pushed m).length = n.pushes := by
  cases n <;> rfl

theorem number_range (n : Sysno) : 1 ≤ n.number.toNat ∧ n.number.toNat ≤ 10 := by
  cases n <;> decide

/-- Every number from 1 to 10 is that of a system call. -/
theorem exists_number {v : UInt32} (h : 1 ≤ v ∧ v ≤ 10) : ∃ n : Sysno, v = n.number := by
  obtain ⟨hlow, hhigh⟩ := h
  have hlow' : 1 ≤ v.toNat := hlow
  have hhigh' : v.toNat ≤ 10 := hhigh
  have hof : v = UInt32.ofNat v.toNat := UInt32.ofNat_toNat.symm
  generalize v.toNat = k at hof hlow' hhigh'
  subst hof
  interval_cases k
  exacts [⟨halt, rfl⟩, ⟨execute, rfl⟩, ⟨read, rfl⟩, ⟨write, rfl⟩, ⟨.open, rfl⟩, ⟨close, rfl⟩, ⟨getargs, rfl⟩,
    ⟨vidmap, rfl⟩, ⟨setHandler, rfl⟩, ⟨sigreturn, rfl⟩]

/-- The parameters are on top of what is pushed. -/
theorem pushed_eq (n : Sysno) (m : Machine) : ∃ rest, n.pushed m = n.args m ++ rest := by
  cases n
  case sigreturn => exact ⟨[m.ebx], rfl⟩
  all_goals exact ⟨[], rfl⟩

end Sysno

/-- The code of the system calls, and the addresses behind the `call`s of them. -/
structure Syscalls where
  code : Sysno → Machine → Option Machine
  ret : Sysno → UInt32

namespace Syscalls

/-! ## syscall_handler -/

/-- The registers saved at the entry. -/
def saveAll (m : Machine) : Machine :=
  let m := m.pushl m.eax
  let m := m.pushw m.es
  let m := m.pushw m.ds
  let m := m.pushw m.fs
  let m := m.pushw m.gs
  let m := m.pushl m.ebp
  let m := m.pushl m.edi
  let m := m.pushl m.esi
  let m := m.pushl m.edx
  let m := m.pushl m.ecx
  m.pushl m.ebx

/-- `exit`, up to the `iret`. -/
def exit (m : Machine) : Machine :=
  let m := m.popl fun v m => { m with ebx := v }
  let m := m.popl fun v m => { m with ecx := v }
  let m := m.popl fun v m => { m with edx := v }
  let m := m.popl fun v m => { m with esi := v }
  let m := m.popl fun v m => { m with edi := v }
  let m := m.popl fun v m => { m with ebp := v }
  let m := m.popw fun v m => { m with gs := v }
  let m := m.popw fun v m => { m with fs := v }
  let m := m.popw fun v m => { m with ds := v }
  let m := m.popw fun v m => { m with es := v }
  m.drop 4

/-- `invalid_sysno`. -/
def invalidSysno (m : Machine) : Machine := exit { m with eax := 0xFFFFFFFF }

/-- A stub of the table: the arguments pushed, the last one first, the call, and `bytes` dropped again. -/
def stub (c : Syscalls) (n : Sysno) (pushed : List UInt32) (bytes : UInt32) (m : Machine) : Option Machine :=
  let m := pushed.foldl (fun m v => m.pushl v) m
  (m.call (c.ret n) (c.code n)).map fun m => exit (m.drop bytes)

variable (c : Syscalls) (m : Machine)

/-- `sys_halt`. -/
def sysHalt : Option Machine := c.stub .halt [m.ebx] 4 m
/-- `sys_empty`, which runs into `sys_halt`. -/
def sysEmpty : Option Machine := c.sysHalt m
/-- `sys_execute`. -/
def sysExecute : Option Machine := c.stub .execute [m.ebx] 4 m
/-- `sys_read`. -/
def sysRead : Option Machine := c.stub .read [m.edx, m.ecx, m.ebx] 12 m
/-- `sys_write`. -/
def sysWrite : Option Machine := c.stub .write [m.edx, m.ecx, m.ebx] 12 m
/-- `sys_open`. -/
def sysOpen : Option Machine := c.stub .open [m.ebx] 4 m
/-- `sys_close`. -/
def sysClose : Option Machine := c.stub .close [m.ebx] 4 m
/-- `sys_getargs`. -/
def sysGetargs : Option Machine := c.stub .getargs [m.ecx, m.ebx] 8 m
/-- `sys_vidmap`. -/
def sysVidmap : Option Machine := c.stub .vidmap [m.ebx] 4 m
/-- `sys_set_handler`. -/
def sysSetHandler : Option Machine := c.stub .setHandler [m.ecx, m.ebx] 8 m
/-- `sys_sigreturn`, which pushes an argument its function does not have. -/
def sysSigreturn : Option Machine := c.stub .sigreturn [m.ebx] 4 m

/-- `system_call_table`. -/
def systemCallTable : List (Machine → Option Machine) :=
  [c.sysEmpty, c.sysHalt, c.sysExecute, c.sysRead, c.sysWrite, c.sysOpen, c.sysClose, c.sysGetargs, c.sysVidmap,
    c.sysSetHandler, c.sysSigreturn]

/-- `syscall_handler`. -/
def syscallHandler : Option Machine :=
  let m := saveAll m
  if (Flags.cmp m.eax.toBitVec 0).be then some (invalidSysno m)
  else if (Flags.cmp m.eax.toBitVec 11).ae then some (invalidSysno m)
  else (c.systemCallTable[m.eax.toNat]?).bind fun entry => entry m

/-! ## What is saved -/

/-- The bytes that lie on the stack once the registers are saved. -/
def saved (m : Machine) : List UInt8 :=
  [le32 m.ebx, le32 m.ecx, le32 m.edx, le32 m.esi, le32 m.edi, le32 m.ebp, le16 m.gs, le16 m.fs, le16 m.ds, le16 m.es,
    le32 m.eax].flatten

/-- The registers at the `iret` are those at the entry, EAX apart, and ESP is back at the interrupt frame. -/
structure Restored (m m' : Machine) : Prop where
  esp : m'.esp = m.esp
  ebx : m'.ebx = m.ebx
  ecx : m'.ecx = m.ecx
  edx : m'.edx = m.edx
  esi : m'.esi = m.esi
  edi : m'.edi = m.edi
  ebp : m'.ebp = m.ebp
  es : m'.es = m.es
  ds : m'.ds = m.ds
  fs : m'.fs = m.fs
  gs : m'.gs = m.gs

variable {c : Syscalls} {m : Machine}

@[simp] theorem saveAll_eax (m : Machine) : (saveAll m).eax = m.eax := by
  simp only [saveAll, Machine.pushl, Machine.pushw, Machine.push_eax]

@[simp] theorem saveAll_esp (m : Machine) : (saveAll m).esp = m.esp - 36 := by
  simp only [saveAll, Machine.pushl, Machine.pushw, Machine.push_esp, length_le32, length_le16]
  show m.esp - 4 - 2 - 2 - 2 - 2 - 4 - 4 - 4 - 4 - 4 - 4 = _
  grind

@[simp] theorem saveAll_ebx (m : Machine) : (saveAll m).ebx = m.ebx := by
  simp only [saveAll, Machine.pushl, Machine.pushw, Machine.push_ebx]

@[simp] theorem saveAll_ecx (m : Machine) : (saveAll m).ecx = m.ecx := by
  simp only [saveAll, Machine.pushl, Machine.pushw, Machine.push_ecx]

@[simp] theorem saveAll_edx (m : Machine) : (saveAll m).edx = m.edx := by
  simp only [saveAll, Machine.pushl, Machine.pushw, Machine.push_edx]

theorem saveAll_stacked (m : Machine) : (saveAll m).Stacked (saved m) := by
  have h : m.Stacked [] := rfl
  simp only [saveAll, saved, Machine.pushl, Machine.pushw, Machine.push_ebx, Machine.push_ecx, Machine.push_edx,
    Machine.push_esi, Machine.push_edi, Machine.push_ebp, Machine.push_es, Machine.push_ds, Machine.push_fs,
    Machine.push_gs, List.flatten_cons, List.flatten_nil]
  repeat refine Machine.Stacked.push ?_ (by simp)
  exact h

theorem length_saved (m : Machine) : (saved m).length = 36 := rfl

/-- `exit` over the saved registers. -/
theorem exit_saved {x : Machine} (h : x.Stacked (saved m)) :
    exit x = { m with eax := x.eax, esp := x.esp + 36, df := x.df, mem := x.mem } := by
  simp only [saved, List.flatten_cons, List.flatten_nil] at h
  have ecx := h.dropl
  have edx := ecx.dropl
  have esi := edx.dropl
  have edi := esi.dropl
  have ebp := edi.dropl
  have gs := ebp.dropl
  have fs := gs.dropw
  have ds := fs.dropw
  have es := ds.dropw
  replace h := h.topl
  replace ecx := ecx.topl
  replace edx := edx.topl
  replace esi := esi.topl
  replace edi := edi.topl
  replace ebp := ebp.topl
  replace gs := gs.topw
  replace fs := fs.topw
  replace ds := ds.topw
  replace es := es.topw
  simp only [Machine.topl, Machine.topw, Machine.drop] at h ecx edx esi edi ebp gs fs ds es
  simp only [exit, Machine.popl, Machine.popw, Machine.topl, Machine.topw, Machine.drop, h, ecx, edx, esi, edi, ebp,
    gs, fs, ds, es]
  rw [show x.esp + 4 + 4 + 4 + 4 + 4 + 4 + 2 + 2 + 2 + 2 + 4 = x.esp + 36 by grind]

/-! ## The stubs -/

theorem systemCallTable_number (c : Syscalls) (n : Sysno) :
    c.systemCallTable[n.number.toNat]? =
      some fun m => c.stub n (n.pushed m).reverse (UInt32.ofNat (4 * n.pushes)) m := by
  cases n <;> rfl

/-- The machine with the registers pushed for the call. -/
def passed (n : Sysno) (m : Machine) : Machine := (n.pushed m).reverse.foldl (fun m v => m.pushl v) (saveAll m)

/-- The machine as the code of a system call finds it. -/
def entered (c : Syscalls) (n : Sysno) (m : Machine) : Machine := (passed n m).pushl (c.ret n)

theorem length_flatMap_pushed (n : Sysno) (m : Machine) : ((n.pushed m).flatMap le32).length = 4 * n.pushes := by
  cases n <;> rfl

theorem params_le_pushes (n : Sysno) : n.params ≤ n.pushes := le_max_left _ _

theorem pushes_le (n : Sysno) : n.pushes ≤ 3 := by
  cases n <;> decide

theorem passed_stacked (n : Sysno) (m : Machine) : (passed n m).Stacked ((n.pushed m).flatMap le32 ++ saved m) := by
  have hpushes := pushes_le n
  have h := (saveAll_stacked m).pushls (n.pushed m).reverse (by
    rw [length_saved, List.length_reverse, Sysno.length_pushed]
    omega)
  rwa [List.reverse_reverse] at h

theorem passed_esp (n : Sysno) (m : Machine) : (passed n m).esp + UInt32.ofNat (4 * n.pushes) + 36 = m.esp := by
  rw [passed, Machine.pushls_esp, saveAll_esp, List.length_reverse, Sysno.length_pushed]
  grind

theorem entered_stacked (c : Syscalls) (n : Sysno) (m : Machine) :
    (c.entered n m).Stacked (le32 (c.ret n) ++ ((n.pushed m).flatMap le32 ++ saved m)) := by
  have hpushes := pushes_le n
  refine (passed_stacked n m).push ?_
  rw [List.length_append, length_flatMap_pushed, length_saved, length_le32]
  omega

/-- `syscall_handler` on a number of the table. -/
theorem syscallHandler_number {n : Sysno} (h : m.eax = n.number) :
    c.syscallHandler m =
      (c.code n (c.entered n m)).map fun m' => exit (m'.drop (UInt32.ofNat (4 * n.pushes))) := by
  obtain ⟨hlow, hhigh⟩ := n.number_range
  have hbe : ¬ (Flags.cmp (saveAll m).eax.toBitVec 0).be = true := by
    rw [Flags.be_cmp, saveAll_eax, h]
    show ¬ n.number.toNat ≤ 0
    omega
  have hae : ¬ (Flags.cmp (saveAll m).eax.toBitVec 11).ae = true := by
    rw [Flags.ae_cmp, saveAll_eax, h]
    show ¬ 11 ≤ n.number.toNat
    omega
  have hpushed : n.pushed (saveAll m) = n.pushed m := by simp [Sysno.pushed]
  unfold syscallHandler
  dsimp only
  rw [if_neg hbe, if_neg hae, saveAll_eax, h, systemCallTable_number, Option.bind_some]
  dsimp only
  rw [hpushed]
  rfl

/-- `syscall_handler` on any other number. -/
theorem syscallHandler_invalid (h : ¬ (1 ≤ m.eax ∧ m.eax ≤ 10)) :
    c.syscallHandler m = some (invalidSysno (saveAll m)) := by
  unfold syscallHandler
  simp only [saveAll_eax]
  split_ifs with hbe hae
  · rfl
  · rfl
  · rw [Flags.be_cmp] at hbe
    rw [Flags.ae_cmp] at hae
    refine absurd ⟨?_, ?_⟩ h
    · show 1 ≤ m.eax.toNat
      have : ¬ m.eax.toNat ≤ 0 := hbe
      omega
    · show m.eax.toNat ≤ 10
      have : ¬ 11 ≤ m.eax.toNat := hae
      omega

/-- `exit` with the saved registers on top and ESP below the interrupt frame by their size. -/
theorem exit_restored {x : Machine} (h : x.Stacked (saved m)) (hesp : x.esp + 36 = m.esp) :
    (exit x).eax = x.eax ∧ Restored m (exit x) := by
  rw [exit_saved h]
  exact ⟨rfl, hesp, rfl, rfl, rfl, rfl, rfl, rfl, rfl, rfl, rfl, rfl⟩

theorem invalidSysno_restored (m : Machine) :
    (invalidSysno (saveAll m)).eax = 0xFFFFFFFF ∧ Restored m (invalidSysno (saveAll m)) := by
  have hsaved : ({ saveAll m with eax := 0xFFFFFFFF } : Machine).Stacked (saved m) := saveAll_stacked m
  refine exit_restored hsaved ?_
  show (saveAll m).esp + 36 = m.esp
  rw [saveAll_esp]
  grind

/-- What a call leaves when it comes back: the registers saved, under the arguments that its stub drops. -/
theorem exit_returned {n : Sysno} {x : Machine} (hn : Machine.Cdecl n.params (4 + 4 * n.pushes + 36) (c.code n))
    (h : c.code n (c.entered n m) = some x) :
    (exit (x.drop (UInt32.ofNat (4 * n.pushes)))).eax = x.eax ∧
      Restored m (exit (x.drop (UInt32.ofNat (4 * n.pushes)))) := by
  have hparams := params_le_pushes n
  have hpushes := pushes_le n
  have hlen := length_flatMap_pushed n m
  have hsaved := hn.stacked (passed_stacked n m) (by omega) (by rw [hlen, length_saved])
    (by rw [hlen, length_saved]; omega) h
  rw [hlen] at hsaved
  refine exit_restored hsaved ?_
  have hesp := (hn _ _ h).esp
  have hpassed := passed_esp n m
  show x.esp + UInt32.ofNat (4 * n.pushes) + 36 = m.esp
  rw [hesp, entered, Machine.pushl, Machine.push_esp, length_le32, ← hpassed]
  show (passed n m).esp - 4 + 4 + _ + _ = _
  grind

/-- On a number from 1 to 10 the handler calls the code of that number with EBX, ECX and EDX as its parameters, and on
any other it returns -1. Where the call comes back, the registers and the stack at the `iret` are those at INT 0x80. -/
theorem syscallHandler_spec (c : Syscalls) (hc : ∀ n, Machine.Cdecl n.params (4 + 4 * n.pushes + 36) (c.code n))
    (m : Machine) :
    (¬ (1 ≤ m.eax ∧ m.eax ≤ 10) → ∃ m', c.syscallHandler m = some m' ∧ m'.eax = 0xFFFFFFFF ∧ Restored m m') ∧
      (1 ≤ m.eax ∧ m.eax ≤ 10 → ∃ n : Sysno, m.eax = n.number ∧
        (c.entered n m).Stacked (le32 (c.ret n) ++ (n.args m).flatMap le32) ∧
        (c.code n (c.entered n m) = none → c.syscallHandler m = none) ∧
        ∀ x, c.code n (c.entered n m) = some x →
          ∃ m', c.syscallHandler m = some m' ∧ m'.eax = x.eax ∧ Restored m m') := by
  refine ⟨fun h => ⟨_, syscallHandler_invalid h, invalidSysno_restored m⟩, fun h => ?_⟩
  obtain ⟨n, hn⟩ := Sysno.exists_number h
  obtain ⟨rest, hrest⟩ := n.pushed_eq m
  have hcode := syscallHandler_number (c := c) hn
  refine ⟨n, hn, ?_, fun hnone => by rw [hcode, hnone]; rfl, fun x hx => ?_⟩
  · have hstacked := c.entered_stacked n m
    rw [hrest, List.flatMap_append, List.append_assoc, ← List.append_assoc] at hstacked
    exact hstacked.top
  · rw [hx] at hcode
    exact ⟨_, hcode, exit_returned (hc n) hx⟩

/-- System calls that return a value at once. -/
def returning (v : UInt32) : Syscalls where
  code _ m := some { m.drop 4 with eax := v }
  ret _ := 0x401000

theorem returning_cdecl (v : UInt32) (args depth : Nat) (n : Sysno) :
    Machine.Cdecl args depth ((returning v).code n) := by
  intro m m' h
  obtain rfl := Option.some.inj h
  exact ⟨rfl, rfl, rfl, rfl, rfl, fun _ _ _ => rfl⟩

/-- A `read` of `0x8000` bytes to address 16 that returns 7. -/
theorem syscallHandler_spec_read :
    let m : Machine := ⟨3, 0, 16, 0x8000, 5, 6, 7, 0x7FFFEC, 0x2B, 0x2B, 0, 0, false, fun _ => 0⟩
    ∃ m', (returning 7).syscallHandler m = some m' ∧ m'.eax = 7 ∧ Restored m m' := by
  intro m
  obtain ⟨n, -, -, -, hback⟩ := (syscallHandler_spec (returning 7) (fun n => returning_cdecl 7 _ _ n) m).2 (by decide)
  exact hback _ rfl

end Syscalls

end Os391
