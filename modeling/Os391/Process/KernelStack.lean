/-
The kernel stack of the next trap. `execute`, `halt` and `terminal_switch` set CR3 and `tss.esp0` apart from each
other; after each of them the two belong to one process, unless a program was loaded whose entry point reads as
the error value of `loader`.
-/
import Os391.Process.Tree

namespace Os391

open Bytes Machine

namespace Kernel

variable {img : Image} {s s' : Kernel}

/-- CR3 is the page directory of one of the six processes, and `tss.esp0` the kernel stack of that one. -/
def OwnStack (s : Kernel) : Prop := 1 ≤ s.findPid ∧ s.findPid ≤ 6 ∧ s.esp0 = stackTop s.findPid

/-- That is so whenever control returns to user mode: before and after a call or keystroke. -/
def StackKept (img : Image) (s : Kernel) (op : Op) : Prop :=
  OwnStack s ∧ ∀ y, step img s op = some y → OwnStack y.2

/-- A program that an operation loads has an entry point other than -1, or takes its caller's own entry. -/
def EntersLoaded (img : Image) (s : Kernel) (op : Op) : Prop :=
  ∀ command r s0, s.call op = some (command, r, s0) → ∀ n, s0.loadsAt img command = some n →
    s0.entryPoint img command ≠ some 0xFFFFFFFF ∨ s0.cr3 = dirOf n

instance (img : Image) (s : Kernel) (op : Op) : Decidable (EntersLoaded img s op) :=
  match h : s.call op with
  | none => isTrue fun command r s0 hc => by rw [h] at hc; cases hc
  | some (command, r, s0) =>
    decidable_of_iff (∀ n, s0.loadsAt img command = some n →
        s0.entryPoint img command ≠ some 0xFFFFFFFF ∨ s0.cr3 = dirOf n)
      ⟨fun hn _ _ _ hc => by rw [h] at hc; cases hc; exact hn, fun hn => hn command r s0 h⟩

theorem ownStack_dirOf {n : Pid} (hn : n ≠ 0) (hcr3 : s.cr3 = dirOf n) : OwnStack s ↔ s.esp0 = stackTop n.val := by
  have h1 : 1 ≤ n.val := Nat.one_le_iff_ne_zero.2 fun hz => hn (Fin.ext hz)
  have h6 := n.isLt
  unfold OwnStack
  rw [findPid_dirOf hcr3]
  constructor
  · rintro ⟨-, -, h⟩
    exact h
  · intro h
    exact ⟨by omega, by omega, h⟩

/-- `execute` is called with CR3 and `tss.esp0` as they are when the operation starts. -/
theorem call_registers {op : Op} {command : CString} {r : Regs} {s0 : Kernel} (hc : s.call op = some (command, r, s0)) :
    s0.cr3 = s.cr3 ∧ s0.esp0 = s.esp0 := by
  rcases call_cases hc with ⟨rfl, rfl⟩ | ⟨status, n, rfl, -, -, rfl, rfl⟩ | ⟨k, t, rfl, -, -, rfl, rfl⟩
  · exact ⟨rfl, rfl⟩
  · exact ⟨rfl, rfl⟩
  · exact ⟨by rw [activate_cr3, leftFor_cr3], by rw [activate_esp0, leftFor_esp0]⟩

/-- A load keeps the two together exactly when the program is entered, or takes its caller's own entry. -/
theorem load_ownStack_iff {command : CString} {r : Regs} {o : Outcome} {n : Pid} (h : OwnStack s)
    (hp : ∃ p, p ≠ 0 ∧ s.cr3 = dirOf p) (hl : s.loadsAt img command = some n)
    (hs : execute img (some command) r s = some (o, s')) :
    OwnStack s' ↔ s.entryPoint img command ≠ some 0xFFFFFFFF ∨ s.cr3 = dirOf n := by
  obtain ⟨hn0, hcr3, -, -, -, hesp0⟩ := execute_loads hl hs
  obtain ⟨p, hp0, hp⟩ := hp
  have htop : s.esp0 = stackTop p.val := (ownStack_dirOf hp0 hp).1 h
  rw [ownStack_dirOf hn0 hcr3, hesp0]
  by_cases he : s.entryPoint img command = some 0xFFFFFFFF
  · rw [if_pos he, htop, hp]
    constructor
    · intro heq
      refine Or.inr (congrArg dirOf (Fin.ext ?_))
      exact_mod_cast stackTop_inj heq
    · rintro (hne | heq)
      · exact absurd he hne
      · rw [dirOf_inj heq]
  · rw [if_neg he]
    exact ⟨fun _ => Or.inl he, fun _ => rfl⟩

/-- An operation that calls no `execute`. -/
theorem noCall_ownStack {op : Op} {o : Outcome} {notes : Notes} (h : OwnStack s)
    (htree : Tree (fun m : Pid => 3 < m.val) s notes) (hop : op.isFile = false) (hc : s.call op = none)
    (hs : step img s op = some (o, s')) : OwnStack s' := by
  rcases step_noCall hc hs with hf | rfl | ⟨t, -, rfl⟩ | ⟨con, textBuf, counter, entered, dev, rfl⟩ |
    ⟨k, r, t, rfl, ht, hst, rfl⟩ | ⟨status, r, n, rfl, hn, h3, rfl⟩
  · rw [hop] at hf
    cases hf
  · exact h
  · exact h
  · exact h
  · obtain ⟨p, hp0, hp⟩ := htree.shown t hst
    have hterm := leftFor_terminals (t := t) r (switchTo_ne ht)
    have hfront : (s.terminals t).cr3.pid = some p := by
      unfold front at hp
      rwa [if_neg (Ne.symm (switchTo_ne ht)), hst, if_pos rfl] at hp
    have hcr3 : (enterTerminal t (leftFor t r s)).cr3 = dirOf p := by
      rw [← pid_eq_some hfront, ← hterm]
      simp only [enterTerminal, loadScreen]
    rw [ownStack_dirOf hp0 hcr3]
    have hpid : getPidFromCr3 ((leftFor t r s).terminals t).cr3 = p.val := by
      rw [hterm]
      unfold getPidFromCr3
      rw [hfront]
    rw [← hpid]
    simp only [enterTerminal, loadScreen]
  · obtain ⟨g, k, -, hk, -⟩ := htree.pop hn h3 fun _ h => h
    obtain ⟨v, hv⟩ := haltProgram_eq n s
    have hslot : (s.slots (s.tasks n)).cr3 = dirOf k := by
      rw [hk.task]
      exact hk.saved
    have hcr3 : (haltProgram n s).cr3 = dirOf k := by
      rw [hv]
      exact hslot
    rw [ownStack_dirOf hk.ne_zero hcr3, hv]
    show stackTop (getPidFromCr3 (s.slots (s.tasks n)).cr3) = _
    rw [hslot]
    unfold getPidFromCr3
    rw [dirOf_pid]

theorem stackKept_iff {op : Op} {notes : Notes} (h : OwnStack s) (htree : Tree (fun m : Pid => 3 < m.val) s notes)
    (hop : op.isFile = false) : StackKept img s op ↔ EntersLoaded img s op := by
  have hrun : ∃ p, p ≠ 0 ∧ s.cr3 = dirOf p := by
    obtain ⟨p, hp0, -, hp⟩ := htree.running
    exact ⟨p, hp0, hp⟩
  rcases hc : s.call op with _ | ⟨command, r, s0⟩
  · constructor
    · intro _ command r s0 hc'
      rw [hc] at hc'
      cases hc'
    · intro _
      refine ⟨h, ?_⟩
      rintro ⟨o, s'⟩ hs
      exact noCall_ownStack h htree hop hc hs
  obtain ⟨hcr3, hesp0⟩ := call_registers hc
  have h0 : OwnStack s0 := by
    unfold OwnStack findPid
    rw [hcr3, hesp0]
    exact h
  rw [← hcr3] at hrun
  constructor
  · rintro ⟨-, hkept⟩ command' r' s0' hc' n hl
    rw [hc] at hc'
    cases hc'
    -- an `execute` that loads comes to an end
    obtain ⟨⟨o', s'⟩, he⟩ : ∃ e, execute img (some command) r s0 = some e := by
      obtain ⟨inode, hp, -⟩ := Option.bind_eq_some_iff.1 hl
      obtain ⟨q, hq, -⟩ := Option.bind_eq_some_iff.1 hp
      rw [execute_claimed (loadsAt_claimed hl), hq]
      exact ⟨_, rfl⟩
    obtain ⟨o, hs⟩ := call_step hc he
    exact (load_ownStack_iff h0 hrun hl he).1 (hkept _ hs)
  · intro hq
    refine ⟨h, ?_⟩
    rintro ⟨o, s'⟩ hs
    obtain ⟨o', hex, -⟩ := step_call hc hs
    rcases hl : s0.loadsAt img command with _ | n
    · obtain ⟨hcr3', hesp0', -⟩ := execute_fails hl hex
      unfold OwnStack findPid
      rw [hcr3', hesp0']
      exact h0
    · exact (load_ownStack_iff h0 hrun hl hex).2 (hq _ _ _ hc n hl)

/-- In every run of `execute`, `halt` and keystrokes from the first shell on, CR3 and `tss.esp0` belong to one of
the six processes after every step exactly when every program loaded on the way has an entry point other than -1
or takes its caller's own entry. -/
theorem own_stack_run (img : Image) (r : Regs) (eip : UInt32) (s : Kernel)
    (hboot : execute img (some shell) r boot = some (.enter eip, s)) (ops : List Op)
    (hops : ∀ op ∈ ops, op.isFile = false) :
    Along (step img) (StackKept img) s ops ↔ Along (step img) (EntersLoaded img) s ops := by
  obtain ⟨hb, htree⟩ := boot_tree (E := fun m : Pid => 3 < m.val) hboot
  have hstart : OwnStack s := by
    obtain ⟨n, q, inode, d, fpos, hn, -, -, rfl⟩ := execute_entered hboot
    have hn0 := claimed_ne_zero hn
    exact (ownStack_dirOf hn0 (taskDir_of_ne hn0 _)).2 rfl
  refine along_iff_under (I := fun s => OwnStack s ∧ ∃ notes, Tree (fun m : Pid => 3 < m.val) s notes) ?_ ?_
    ⟨hstart, _, htree⟩ (along_of_mem (R := fun op => op.isFile = false) s hops)
  · rintro s op ⟨h, notes, htree⟩ hop
    exact stackKept_iff h htree hop
  · rintro s op ⟨o, s'⟩ ⟨h, notes, htree⟩ hop hq hs
    refine ⟨((stackKept_iff h htree hop).2 hq).2 _ hs, note img s notes op, ?_⟩
    refine step_tree hb (fun _ h => h) htree ?_ ?_ hs
    · intro hf
      rw [hop] at hf
      cases hf
    · intro command r s0 _ n hl h3
      exact claimed_free (loadsAt_claimed hl) h3

/-- `fish` is run and ends, with a visit to terminal 2 in between. -/
def fishAndSwitch : List Op :=
  [.execute (some fish) ⟨1, 2⟩, .key 0xF6 ⟨3, 4⟩, .halt 0 ⟨5, 6⟩, .key 0xF5 ⟨7, 8⟩, .halt 0 ⟨9, 10⟩]

theorem own_stack_run_fish :
    Along (step .sample) (EntersLoaded .sample) firstShell fishAndSwitch ∧
      Along (step .sample) (StackKept .sample) firstShell fishAndSwitch := by
  have hq : Along (step .sample) (EntersLoaded .sample) firstShell fishAndSwitch := by decide +kernel
  exact ⟨hq, (own_stack_run .sample ⟨0, 0⟩ 0 firstShell execute_firstShell fishAndSwitch (by decide)).2 hq⟩

/-- The name `bad`. -/
def bad : CString := ⟨ascii ['b', 'a', 'd'], by decide⟩

/-- An image with two programs of 28 bytes: `shell`, and `bad` with the entry point -1. -/
def badEntry : Image := .ofPieces [
  (0, [2, 0, 0, 0, 3]),
  (64, ascii ['s', 'h', 'e', 'l', 'l']), (96, [2, 0, 0, 0, 0]),
  (128, ascii ['b', 'a', 'd']), (160, [2, 0, 0, 0, 1]),
  (4096, [28, 0, 0, 0, 0]), (8192, [28, 0, 0, 0, 1]),
  (16384, [0x7f, 0x45, 0x4c, 0x46]),
  (20480, [0x7f, 0x45, 0x4c, 0x46]), (20504, [0xFF, 0xFF, 0xFF, 0xFF])]

/-- `execute` of `bad` returns -1 to the shell with the page directory of pid 4 loaded and the kernel stack of
pid 1 in place. -/
theorem bad_entry_splits_stack :
    ∃ s s', execute badEntry (some shell) ⟨0, 0⟩ boot = some (.enter 0, s) ∧
      step badEntry s (.execute (some bad) ⟨1, 2⟩) = some (.ret (-1), s') ∧ s'.findPid = 4 ∧ s'.esp0 = stackTop 1 ∧
      ¬ StackKept badEntry s (.execute (some bad) ⟨1, 2⟩) := by
  let s := ((execute badEntry (some shell) ⟨0, 0⟩ boot).getD (.handled, boot)).2
  have hstep : (step badEntry s (.execute (some bad) ⟨1, 2⟩)).map (fun y => (y.1, y.2.findPid, y.2.esp0)) =
      some (.ret (-1), 4, stackTop 1) := by decide +kernel
  obtain ⟨⟨o, s'⟩, hs, ho⟩ := Option.map_eq_some_iff.1 hstep
  obtain ⟨rfl, hrest⟩ := Prod.mk.inj ho
  obtain ⟨hpid, hesp0⟩ := Prod.mk.inj hrest
  refine ⟨s, s', eq_some_of_fst _ (by decide +kernel), hs, hpid, hesp0, ?_⟩
  rintro ⟨-, hkept⟩
  obtain ⟨-, -, htop⟩ := hkept _ hs
  have hne : stackTop 1 = stackTop 4 := by
    have h4 : s'.findPid = 4 := hpid
    have h1 : s'.esp0 = stackTop 1 := hesp0
    rw [← h1, htop, h4]
  exact absurd (stackTop_inj hne) (by decide)

end Kernel

end Os391
