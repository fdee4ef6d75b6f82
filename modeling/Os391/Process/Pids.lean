/-
Which entry a new program gets. The scan of `execute` finds a free one, but the restart flags, the
press flags and a count of zero override it: the new program gets a free entry exactly when the
entry they force is free.
-/
import Os391.Base.Run
import Os391.Terminal.Spec

namespace Os391

open Bytes Machine

namespace Kernel

variable {img : Image}

/-! ## Page directories and stacks -/

/-- The page directory of a pid. -/
def dirOf (n : Pid) : PageDir := taskDir n .pageDirectory

theorem taskDir_of_ne {n : Pid} (hn : n ≠ 0) (c : PageDir) : taskDir n c = dirOf n := by
  fin_cases n <;> first | exact absurd rfl hn | rfl

theorem dirOf_pid (n : Pid) : (dirOf n).pid = some n := by
  fin_cases n <;> rfl

theorem dirOf_inj {n m : Pid} (h : dirOf n = dirOf m) : n = m := by
  have h1 := dirOf_pid n
  rw [h, dirOf_pid m] at h1
  cases h1
  rfl

theorem stackTop_inj {n m : Int} (h : stackTop n = stackTop m) : n = m := by
  unfold stackTop at h
  omega

/-! ## One start -/

/-- A start leaves a process its page directory, its program page, its kernel stack and, unless it is
the caller, its PCB copy. -/
structure Spares (s s' : Kernel) (m : Pid) : Prop where
  directory : s'.cr3 ≠ dirOf m
  page : s'.user (dirOf m) = s.user (dirOf m)
  stack : s'.esp0 ≠ stackTop m.val
  copy : (m.val : Int) ≠ s.curPid → s'.slots m.val = s.slots m.val

/-- A start takes an entry of 1 to 6 that was free, and spares every live process. -/
def FreshStart (s s' : Kernel) : Prop :=
  ∃ n : Pid, s'.newPid = some n ∧ n ≠ 0 ∧ s.tasks n = 0 ∧ ∀ m, m ≠ 0 → s.tasks m ≠ 0 → Spares s s' m

/-- A start under entry `n` touches no other process. -/
theorem start_spares {command : CString} {r : Regs} {s : Kernel} {n m : Pid} {q : Pcb} {inode eip : UInt32} {d : Dentry}
    {fpos : Option UInt32} (hn : n ≠ 0) (hm : m ≠ n) :
    Spares s (enterProgram n s.curPid eip (loaded img inode n d fpos (claim command r n q s))).2 m := by
  have hdir : dirOf m ≠ dirOf n := fun h => hm (dirOf_inj h)
  have hval : (m.val : Int) ≠ n.val := fun h => hm (Fin.ext (by exact_mod_cast h))
  have htask := taskDir_of_ne hn s.cr3
  refine ⟨?_, ?_, ?_, ?_⟩
  · show taskDir n s.cr3 ≠ dirOf m
    rw [htask]
    exact fun h => hdir h.symm
  · show Function.update s.user (taskDir n s.cr3) _ (dirOf m) = s.user (dirOf m)
    rw [htask]
    exact Function.update_of_ne hdir _ _
  · show stackTop n.val ≠ stackTop m.val
    exact fun h => hval (stackTop_inj h).symm
  · intro hc
    show Function.update (claim command r n q s).slots (n.val : Int) _ m.val = s.slots m.val
    rw [Function.update_of_ne hval]
    unfold claim
    simp only
    split
    · exact Function.update_of_ne hc _ _
    · rfl

theorem freshStart_iff {command : CString} {r : Regs} {s s' : Kernel} {eip : UInt32}
    (h : execute img (some command) r s = some (.enter eip, s')) :
    FreshStart s s' ↔ ∀ n, s.forced command = some n → s.tasks n = 0 := by
  obtain ⟨n, q, inode, d, fpos, hc, -, -, rfl⟩ := execute_entered h
  have hn := claimed_ne_zero hc
  constructor
  · rintro ⟨k, hk, -, hfree, -⟩ m hm
    -- the forced entry is the one claimed
    have hkn : k = n := by
      have : some n = some k := hk
      cases this; rfl
    unfold claimed at hc
    rw [hm] at hc
    cases hc
    rw [← hkn]
    exact hfree
  · intro hf
    have hfree : s.tasks n = 0 := by
      unfold claimed at hc
      rcases hm : s.forced command with _ | m <;> rw [hm] at hc
      · exact (findTask_free hc).2
      · cases hc; exact hf n hm
    refine ⟨n, rfl, hn, hfree, fun m _ hlive => start_spares hn ?_⟩
    rintro rfl
    exact hlive hfree

/-! ## Runs -/

/-- A program that an operation starts, as a command or as a terminal's shell, starts fresh. -/
def StartsFresh (img : Image) (s : Kernel) (op : Op) : Prop :=
  ∀ command r s0 eip s', s.call op = some (command, r, s0) → step img s op = some (.enter eip, s') → FreshStart s0 s'

/-- A program that an operation starts is forced on no entry that is taken. -/
def ForcesFree (img : Image) (s : Kernel) (op : Op) : Prop :=
  ∀ command r s0 eip s', s.call op = some (command, r, s0) → step img s op = some (.enter eip, s') →
    ∀ n, s0.forced command = some n → s0.tasks n = 0

theorem startsFresh_iff (img : Image) (s : Kernel) (op : Op) : StartsFresh img s op ↔ ForcesFree img s op := by
  unfold StartsFresh ForcesFree
  refine forall₃_congr fun command r s0 => forall₂_congr fun eip s' => forall₂_congr fun hc h => ?_
  obtain ⟨o', he, ho⟩ := step_call hc h
  rw [ho eip rfl] at he
  exact freshStart_iff he

/-- In every run from boot on, every program starts under a free entry exactly when no start is forced
on a taken one. -/
theorem starts_fresh_run (img : Image) (r : Regs) (ops : List Op) :
    Along (step img) (StartsFresh img) boot (.execute (some shell) r :: ops) ↔
      Along (step img) (ForcesFree img) boot (.execute (some shell) r :: ops) :=
  along_iff (I := fun _ => True) (fun s op _ => startsFresh_iff img s op) (fun _ _ _ _ _ _ => trivial) trivial

/-! ## The failing run -/

/-- The first shell exits, and the shell started in its place runs `shell`. -/
def exitThenShell : List Op := [.execute (some shell) ⟨0, 0⟩, .halt 0 ⟨0, 0⟩]

/-- The restart flag of terminal 1 is still set then, so the new shell gets entry 1, under which its
caller runs. -/
theorem restart_takes_live_pid :
    ∃ s, run (step .sample) boot exitThenShell = some s ∧ s.findPid = 1 ∧ s.tasks 1 ≠ 0 ∧
      (∃ eip s', step .sample s (.execute (some shell) ⟨0, 0⟩) = some (.enter eip, s') ∧ s'.newPid = some 1) ∧
      ¬ StartsFresh .sample s (.execute (some shell) ⟨0, 0⟩) := by
  have hstep : ((step .sample ((run (step .sample) boot exitThenShell).getD boot) (.execute (some shell) ⟨0, 0⟩)).map
      fun x => (x.1, x.2.newPid)) = some (.enter 0, some 1) := by decide +kernel
  have hlive : ((run (step .sample) boot exitThenShell).getD boot).tasks 1 ≠ 0 := by decide +kernel
  obtain ⟨⟨o, s'⟩, hs, ho⟩ := Option.map_eq_some_iff.1 hstep
  obtain ⟨rfl, hpid⟩ := Prod.mk.inj ho
  refine ⟨_, run_getD (by decide +kernel), by decide +kernel, hlive, ⟨0, s', hs, hpid⟩, fun hf => ?_⟩
  obtain ⟨n, hn, -, hfree, -⟩ := hf _ _ _ _ _ rfl hs
  have h1 : some n = some 1 := hn.symm.trans hpid
  cases h1
  exact hlive hfree

end Kernel

end Os391
