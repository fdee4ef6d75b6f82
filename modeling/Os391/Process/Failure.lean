/-
What a failed command leaves behind. `execute` takes its table entry, clears a restart flag and parses the command
into `pcblock` before `loader` looks at the file, and takes none of it back; with the entry point that reads as the
error value the program is loaded as well. A failure changes nothing exactly when all of it was as it is left.
-/
import Os391.Base.Run
import Os391.Process.Command

namespace Os391

open Bytes Machine

/-! ## Words that are too long -/

/-- Characters stored in a block, but for those that go past it. -/
def storeWithin (ws : List WordStore) (p : Pcb) : Pcb := ws.foldl (fun p w => (p.storeByte w.offset w.byte).getD p) p

theorem storeWithin_eq : ∀ {ws : List WordStore} {p q : Pcb}, storeAll ws p = some q → storeWithin ws p = q
  | [], _, _, h => Option.some.inj h
  | w :: ws, p, q, h => by
    rw [storeAll, List.foldlM_cons] at h
    obtain ⟨p', hp, hws⟩ := Option.bind_eq_some_iff.1 h
    rw [storeWithin, List.foldl_cons, hp]
    exact storeWithin_eq hws

/-- The words of any command as the block then holds them. -/
def wordsWithin (command : CString) : Pcb :=
  { storeWithin (commandStores command) .zero with
    dataArgSize := UInt8.ofNat ((commandStores command).countP (·.field = .argName)) }

theorem wordsWithin_eq {command : CString} {q : Pcb} (h : words command = some q) : wordsWithin command = q := by
  unfold words at h
  rw [parseCmd_stores] at h
  obtain ⟨p, hp, rfl⟩ := Option.map_eq_some_iff.1 h
  unfold wordsWithin
  rw [storeWithin_eq (show storeAll (commandStores command) .zero = some p from hp)]

namespace Kernel

variable {img : Image}

/-- `execute` of any command, up to what the characters stored past the block do to whatever lies there. -/
def executeWithin (img : Image) (command : Option CString) (r : Regs) (s : Kernel) : Option (Outcome × Kernel) :=
  match command with
  | none => execute img none r s
  | some cmd =>
    match s.claimed cmd with
    | none => execute img (some cmd) r s
    | some n =>
      let l := loader img (wordsWithin cmd).cmdView (claim cmd r n (wordsWithin cmd) s)
      some (if l.1 = 0xFFFFFFFF then (.ret (-1), l.2) else enterProgram n s.curPid l.1 l.2)

/-- `parse_cmd` stores nothing past the block: it is not called, or there is room for both words. -/
def StaysWithin (s : Kernel) (command : Option CString) : Prop :=
  ∀ cmd, command = some cmd → ∀ n, s.claimed cmd = some n → (words cmd).isSome

/-- Where nothing is stored past the block this is `execute`. -/
theorem executeWithin_eq {command : Option CString} {r : Regs} {s : Kernel} (h : s.StaysWithin command) :
    executeWithin img command r s = execute img command r s := by
  rcases command with _ | cmd
  · rfl
  unfold executeWithin
  simp only
  rcases hn : s.claimed cmd with _ | n
  · rfl
  · obtain ⟨q, hq⟩ := Option.isSome_iff_exists.1 (h cmd rfl n hn)
    rw [execute_claimed hn, hq, wordsWithin_eq hq]
    rfl

/-- A call that comes back has stored nothing past it. -/
theorem staysWithin_of_execute {command : Option CString} {r : Regs} {s : Kernel} {x : Outcome × Kernel}
    (h : execute img command r s = some x) : s.StaysWithin command := by
  rintro cmd rfl n hn
  rw [execute_claimed hn] at h
  obtain ⟨q, hq, -⟩ := Option.map_eq_some_iff.1 h
  rw [hq]
  rfl

/-! ## One failure -/

/-- The process table, the count, CR3 and the flags, and in `pcblock` all but the saved registers. -/
structure Unchanged (s s' : Kernel) : Prop where
  tasks : s'.tasks = s.tasks
  pc : s'.pc = s.pc
  cr3 : s'.cr3 = s.cr3
  rst1 : s'.term1Rst = s.term1Rst
  rst2 : s'.term2Rst = s.term2Rst
  rst3 : s'.term3Rst = s.term3Rst
  press2 : s'.term2Press = s.term2Press
  press3 : s'.term3Press = s.term3Press
  files : s'.pcblock.fileStruct = s.pcblock.fileStruct
  dentries : s'.pcblock.dentry = s.pcblock.dentry
  words : s.pcblock.withWords s'.pcblock = s.pcblock

theorem Unchanged.refl (s : Kernel) : Unchanged s s := ⟨rfl, rfl, rfl, rfl, rfl, rfl, rfl, rfl, rfl, rfl, rfl⟩

theorem withWords_eq_iff {p q : Pcb} :
    p.withWords q = p ↔ q.cmdName = p.cmdName ∧ q.argName = p.argName ∧ q.dataArgSize = p.dataArgSize := by
  constructor
  · intro h
    have h1 : (p.withWords q).cmdName = p.cmdName := by rw [h]
    have h2 : (p.withWords q).argName = p.argName := by rw [h]
    have h3 : (p.withWords q).dataArgSize = p.dataArgSize := by rw [h]
    exact ⟨h1, h2, h3⟩
  · rintro ⟨h1, h2, h3⟩
    unfold Pcb.withWords
    rw [h1, h2, h3]

theorem Unchanged.trans {s s' s'' : Kernel} (h : Unchanged s s') (h' : Unchanged s' s'') : Unchanged s s'' := by
  obtain ⟨a1, a2, a3⟩ := withWords_eq_iff.1 h.words
  obtain ⟨b1, b2, b3⟩ := withWords_eq_iff.1 h'.words
  exact ⟨h'.tasks.trans h.tasks, h'.pc.trans h.pc, h'.cr3.trans h.cr3, h'.rst1.trans h.rst1, h'.rst2.trans h.rst2,
    h'.rst3.trans h.rst3, h'.press2.trans h.press2, h'.press3.trans h.press3, h'.files.trans h.files,
    h'.dentries.trans h.dentries, withWords_eq_iff.2 ⟨b1.trans a1, b2.trans a2, b3.trans a3⟩⟩

/-- Whether an `execute` clears a restart flag that is set. -/
def spendsFlag (command : CString) (s : Kernel) : Bool :=
  s.term1Rst && s.spends command 1 || s.term2Rst && s.spends command 2 || s.term3Rst && s.spends command 3

/-- What a failure finds as it leaves it: the words of the command have room and are those `pcblock` holds, the entry
claimed already holds the caller's pid, and no restart flag is cleared. -/
structure AsFound (s : Kernel) (command : CString) (n : Pid) : Prop where
  fits : (words command).isSome
  task : s.tasks n = s.curPid
  flags : s.spendsFlag command = false
  words : s.pcblock.withWords (wordsWithin command) = s.pcblock

/-- What a load finds as it leaves it: the entry is one that is not counted and belongs to the process that runs, and
the descriptor used last is at the position that the read of the file stores. -/
structure LoadAsFound (img : Image) (s : Kernel) (n : Pid) (inode : UInt32) : Prop where
  pid : n = 2 ∨ n = 3
  dir : taskDir n s.cr3 = s.cr3
  fpos : ∀ v, img.loadPosition inode = some v → (s.pcblock.fileStruct s.fdVal).fpos = v

/-- Whatever makes a command fail finds everything as it leaves it. With no entry to claim nothing is touched. Where
the file is refused, the words, the entry and the flags are; where it is loaded and bytes 24 to 27 of what is staged
read as the error value, what is loaded is as well. -/
def LeavesAsFound (img : Image) (s : Kernel) : Option CString → Prop
  | none => True
  | some command => ∀ n, s.claimed command = some n →
    (img.executable (wordsWithin command).cmdView = none → s.AsFound command n) ∧
    ∀ inode, img.executable (wordsWithin command).cmdView = some inode →
      word ((staged img inode s.mem).view newLoad) 24 = 0xFFFFFFFF → s.AsFound command n ∧ s.LoadAsFound img n inode

theorem unchanged_unclaimed {command : CString} {s : Kernel} {con : Console} {dev : Devices}
    (h : s.claimed command = none) :
    Unchanged s { choosePid command s with con := con, dev := dev } := by
  have hf : s.forced command = none := by
    unfold claimed at h
    rcases hf : s.forced command with _ | n
    · rfl
    · rw [hf] at h; cases h
  have hs : ∀ n, s.spends command n = false := by
    intro n
    simp [spends, hf]
  rw [choosePid_eq]
  simp only [hs, Bool.not_false, Bool.and_true]
  exact ⟨rfl, rfl, rfl, rfl, rfl, rfl, rfl, rfl, rfl, rfl, rfl⟩

theorem unchanged_claim_iff {command : CString} {r : Regs} {n : Pid} {q : Pcb} {d : Dentry} {s : Kernel} :
    Unchanged s { claim command r n q s with dentry1 := d } ↔
      s.tasks n = s.curPid ∧ s.spendsFlag command = false ∧ s.pcblock.withWords q = s.pcblock := by
  have hflag : ∀ a b : Bool, (a && !b) = a ↔ (a && b) = false := by decide
  have hspend : s.spendsFlag command = false ↔ (s.term1Rst && s.spends command 1) = false ∧
      (s.term2Rst && s.spends command 2) = false ∧ (s.term3Rst && s.spends command 3) = false := by
    simp only [spendsFlag, Bool.or_eq_false_iff, and_assoc]
  rw [hspend]
  constructor
  · intro h
    refine ⟨?_, ⟨(hflag _ _).1 h.rst1, (hflag _ _).1 h.rst2, (hflag _ _).1 h.rst3⟩, h.words⟩
    have ht : Function.update s.tasks n s.curPid = s.tasks := h.tasks
    rw [← ht, Function.update_self]
  · rintro ⟨ht, ⟨h1, h2, h3⟩, hw⟩
    have hupd : Function.update s.tasks n s.curPid = s.tasks := by rw [← ht, Function.update_eq_self]
    exact ⟨hupd, rfl, rfl, (hflag _ _).2 h1, (hflag _ _).2 h2, (hflag _ _).2 h3, rfl, rfl, rfl, rfl, hw⟩

theorem setFile_fpos_iff {p : Pcb} {d : Fin 8} {v : UInt32} :
    (p.setFile d fun f => { f with fpos := v }).fileStruct = p.fileStruct ↔ (p.fileStruct d).fpos = v := by
  constructor
  · intro h
    have hd : Function.update p.fileStruct d _ d = p.fileStruct d := congrFun h d
    rw [Function.update_self] at hd
    rw [← hd]
  · rintro rfl
    exact Function.update_eq_self d p.fileStruct

/-- The same when the program has been loaded. -/
theorem unchanged_loaded_iff {command : CString} {r : Regs} {n : Pid} {q : Pcb} {inode : UInt32} {d : Dentry}
    {s : Kernel} (hn : n ≠ 0) :
    Unchanged s (loaded img inode n d (img.loadPosition inode) (claim command r n q s)) ↔
      (s.tasks n = s.curPid ∧ s.spendsFlag command = false ∧ s.pcblock.withWords q = s.pcblock) ∧
        s.LoadAsFound img n inode := by
  have hcount : (if n = 1 ∨ n = 4 ∨ n = 5 ∨ n = 6 then s.pc + 1 else s.pc) = s.pc ↔ n = 2 ∨ n = 3 := by
    have hpc : s.pc + 1 ≠ s.pc := by simp
    have hall : ∀ m : Pid, m ≠ 0 → ((m = 1 ∨ m = 4 ∨ m = 5 ∨ m = 6) ↔ ¬ (m = 2 ∨ m = 3)) := by decide
    by_cases h : n = 2 ∨ n = 3
    · rw [if_neg fun hc => (hall n hn).1 hc h]
      exact iff_of_true rfl h
    · rw [if_pos ((hall n hn).2 h)]
      exact iff_of_false hpc h
  have hblock : ∀ fpos, ((claim command r n q s).storeFpos fpos).pcblock.fileStruct = s.pcblock.fileStruct ↔
      ∀ v, fpos = some v → (s.pcblock.fileStruct s.fdVal).fpos = v := by
    rintro (_ | v)
    · exact iff_of_true rfl (by simp)
    · exact setFile_fpos_iff.trans ⟨fun h w hw => Option.some.inj hw ▸ h, fun h => h v rfl⟩
  have hwords : ∀ fpos, s.pcblock.withWords ((claim command r n q s).storeFpos fpos).pcblock =
      s.pcblock.withWords (claim command r n q s).pcblock := by
    rintro (_ | v) <;> rfl
  have hdentry : ∀ fpos, ((claim command r n q s).storeFpos fpos).pcblock.dentry = s.pcblock.dentry := by
    rintro (_ | v) <;> rfl
  rw [← unchanged_claim_iff (r := r) (d := d)]
  constructor
  · intro h
    exact ⟨⟨h.tasks, rfl, rfl, h.rst1, h.rst2, h.rst3, rfl, rfl, rfl, rfl, (hwords _).symm.trans h.words⟩,
      hcount.1 h.pc, h.cr3, (hblock _).1 h.files⟩
  · rintro ⟨h, hpid, hdir, hfpos⟩
    exact ⟨h.tasks, hcount.2 hpid, hdir, h.rst1, h.rst2, h.rst3, rfl, rfl, (hblock _).2 hfpos, hdentry _,
      (hwords _).trans h.words⟩

/-- An `execute` that returns `-1` has stored nothing past the block, and nothing is changed. -/
def FailsClean (img : Image) (s : Kernel) : Op → Prop
  | .execute command r => ∀ s', executeWithin img command r s = some (.ret (-1), s') →
      s.StaysWithin command ∧ Unchanged s s'
  | _ => True

/-- A command that fails finds everything as it leaves it. -/
def FailsAsFound (img : Image) (s : Kernel) : Op → Prop
  | .execute command _ => s.LeavesAsFound img command
  | _ => True

theorem staysWithin_iff {command : CString} {s : Kernel} {n : Pid} (hn : s.claimed command = some n) :
    s.StaysWithin (some command) ↔ (words command).isSome := by
  constructor
  · intro h
    exact h command rfl n hn
  · rintro h cmd ⟨⟩ m -
    exact h

/-- A refused file, with an entry claimed. -/
theorem failsClean_refused {command : CString} {r : Regs} {s : Kernel} {n : Pid} (hn : s.claimed command = some n)
    (he : img.executable (wordsWithin command).cmdView = none) :
    FailsClean img s (.execute (some command) r) ↔ s.AsFound command n := by
  obtain ⟨d, hd⟩ := loader_refused (claim command r n (wordsWithin command) s) he
  have hex : executeWithin img (some command) r s =
      some (.ret (-1), { claim command r n (wordsWithin command) s with dentry1 := d }) := by
    unfold executeWithin
    simp only [hn, hd, if_true]
  simp only [FailsClean, hex, Option.some.injEq, Prod.mk.injEq, true_and, forall_eq']
  rw [staysWithin_iff hn, unchanged_claim_iff]
  exact ⟨fun h => ⟨h.1, h.2.1, h.2.2.1, h.2.2.2⟩, fun h => ⟨h.fits, h.task, h.flags, h.words⟩⟩

/-- A file that is loaded. -/
theorem failsClean_loaded {command : CString} {r : Regs} {s : Kernel} {n : Pid} {inode : UInt32}
    (hn : s.claimed command = some n) (he : img.executable (wordsWithin command).cmdView = some inode) :
    FailsClean img s (.execute (some command) r) ↔
      (word ((staged img inode s.mem).view newLoad) 24 = 0xFFFFFFFF →
        s.AsFound command n ∧ s.LoadAsFound img n inode) := by
  obtain ⟨d, hd⟩ := loader_loads_at (n := n) (claim command r n (wordsWithin command) s) he rfl
  have hmem : (claim command r n (wordsWithin command) s).mem = s.mem := rfl
  have hex : executeWithin img (some command) r s =
      some (if word ((staged img inode s.mem).view newLoad) 24 = 0xFFFFFFFF then
        (.ret (-1), loaded img inode n d (img.loadPosition inode) (claim command r n (wordsWithin command) s))
      else enterProgram n s.curPid (word ((staged img inode s.mem).view newLoad) 24)
        (loaded img inode n d (img.loadPosition inode) (claim command r n (wordsWithin command) s))) := by
    unfold executeWithin
    simp only [hn, hd, hmem]
  by_cases hword : word ((staged img inode s.mem).view newLoad) 24 = 0xFFFFFFFF
  · rw [if_pos hword] at hex
    simp only [FailsClean, hex, Option.some.injEq, Prod.mk.injEq, true_and, forall_eq', hword, true_imp_iff]
    rw [staysWithin_iff hn, unchanged_loaded_iff (claimed_ne_zero hn)]
    exact ⟨fun h => ⟨⟨h.1, h.2.1.1, h.2.1.2.1, h.2.1.2.2⟩, h.2.2⟩,
      fun h => ⟨h.1.fits, ⟨h.1.task, h.1.flags, h.1.words⟩, h.2⟩⟩
  · -- the program is entered
    rw [if_neg hword] at hex
    refine iff_of_true (fun s' hs' => ?_) (fun h => absurd h hword)
    rw [hex] at hs'
    cases hs'

theorem failsClean_iff (img : Image) (s : Kernel) (op : Op) : FailsClean img s op ↔ FailsAsFound img s op := by
  cases op with
  | execute command r =>
    rcases command with _ | command
    · refine iff_of_true (fun s' h => ?_) trivial
      obtain ⟨-, rfl⟩ := Prod.mk.inj (Option.some.inj h)
      refine ⟨?_, .refl s⟩
      rintro cmd ⟨⟩
    · rcases hn : s.claimed command with _ | n
      · -- with no entry to claim only the message for a full table is printed
        refine iff_of_true (fun s' h => ?_) fun n h => by rw [hn] at h; cases h
        have hstays : s.StaysWithin (some command) := by
          rintro cmd ⟨⟩ m hm
          rw [hn] at hm
          cases hm
        rw [executeWithin_eq hstays] at h
        rcases execute_cases h with ⟨-, -, con, dev, rfl⟩ | ⟨n, -, hn', -⟩
        · exact ⟨hstays, unchanged_unclaimed hn⟩
        · rw [hn] at hn'
          cases hn'
      · simp only [FailsAsFound, LeavesAsFound, hn, Option.some.injEq, forall_eq']
        rcases he : img.executable (wordsWithin command).cmdView with _ | inode
        · rw [failsClean_refused hn he]
          simp
        · rw [failsClean_loaded hn he]
          simp
  | _ => exact Iff.rfl

/-! ## Runs -/

/-- How many programs can still be started. -/
def startable (s : Kernel) : Nat := (Finset.univ.filter fun n : Pid => n ≠ 0 ∧ s.tasks n = 0).card

/-- An operation that is an `execute` which returns `-1`. -/
def Fails (img : Image) (s : Kernel) : Op → Prop
  | .execute command r => ∃ s', executeWithin img command r s = some (.ret (-1), s')
  | _ => False

theorem step_fails {s : Kernel} {op : Op} {x : Outcome × Kernel} (hf : Fails img s op)
    (hq : FailsAsFound img s op) (h : step img s op = some x) : Unchanged s x.2 := by
  cases op with
  | execute command r =>
    obtain ⟨s', hs'⟩ := hf
    have hsame : executeWithin img command r s = some x := (executeWithin_eq (staysWithin_of_execute h)).trans h
    rw [hsame] at hs'
    obtain rfl := Option.some.inj hs'
    exact ((failsClean_iff img s (.execute command r)).2 hq _ hsame).2
  | _ => exact hf.elim

/-- In every run, the commands that fail change nothing exactly when each finds everything as it leaves it; and then a
run of failing commands, of any length, leaves as many programs startable. -/
theorem failures_run (img : Image) (s : Kernel) (ops : List Op) :
    (Along (step img) (FailsClean img) s ops ↔ Along (step img) (FailsAsFound img) s ops) ∧
    (Along (step img) (fun s op => Fails img s op ∧ FailsAsFound img s op) s ops →
      ∀ s', run (step img) s ops = some s' → Unchanged s s' ∧ startable s' = startable s) := by
  constructor
  · exact along_iff (I := fun _ => True) (fun s op _ => failsClean_iff img s op) (fun _ _ _ _ _ _ => trivial) trivial
  · intro ha s' hr
    have hu : Unchanged s s' := run_inv (I := Unchanged s)
      (fun _ _ _ hs hp h => hs.trans (step_fails hp.1 hp.2 h)) (.refl s) ha hr
    refine ⟨hu, ?_⟩
    unfold startable
    rw [hu.tasks]

/-! ## The failing run -/

/-- A command that names no file. -/
def typo : CString := ⟨ascii ['s', 'h', 'e', 'k', 'l'], by decide⟩

/-- The first shell runs a command that does not exist: `-1` is returned, and entry 4 stays taken. -/
theorem refused_command_keeps_entry :
    execute .sample (some shell) ⟨0, 0⟩ boot = some (.enter 0, firstShell) ∧
    Fails .sample firstShell (.execute (some typo) ⟨0, 0⟩) ∧ startable firstShell = 5 ∧
    ((step .sample firstShell (.execute (some typo) ⟨0, 0⟩)).map fun x => (x.1, x.2.tasks 4, startable x.2)) =
      some (.ret (-1), 1, 4) ∧ ¬ FailsClean .sample firstShell (.execute (some typo) ⟨0, 0⟩) := by
  have hstep : ((step .sample firstShell (.execute (some typo) ⟨0, 0⟩)).map
      fun x => (x.1, x.2.tasks 4, startable x.2)) = some (.ret (-1), 1, 4) := by decide +kernel
  have hfree : firstShell.tasks 4 = 0 := by decide +kernel
  obtain ⟨⟨o, s'⟩, hs, ho⟩ := Option.map_eq_some_iff.1 hstep
  simp only [Prod.mk.injEq] at ho
  obtain ⟨rfl, htask, -⟩ := ho
  have hex : execute .sample (some typo) ⟨0, 0⟩ firstShell = some (.ret (-1), s') := hs
  have hwithin : executeWithin .sample (some typo) ⟨0, 0⟩ firstShell = some (.ret (-1), s') :=
    (executeWithin_eq (staysWithin_of_execute hex)).trans hex
  refine ⟨execute_firstShell, ⟨s', hwithin⟩, by decide +kernel, hstep, fun hf => ?_⟩
  rw [(hf s' hwithin).2.tasks, hfree] at htask
  exact absurd htask (by decide)

end Kernel

end Os391
