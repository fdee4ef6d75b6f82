/-
Who waits for whom. Each terminal has one process in front, and a process with pid 4, 5 or 6 returns to the one
that executed it, through the PCB copy of that one. As long as no program is loaded under a pid that is taken,
and none is so long that it is staged over them, these copies are left alone until they are needed.
-/
import Os391.Base.Callers
import Os391.Process.Count
import Os391.Process.Staging

namespace Os391

open Bytes Machine Callers

namespace Kernel

variable {img : Image}

/-! ## Loads -/

/-- The file a command loads. -/
def program (img : Image) (command : CString) : Option UInt32 := (words command).bind fun q => img.executable q.cmdView

/-- The entry under which an `execute` loads a program, if it loads one. -/
def loadsAt (img : Image) (command : CString) (s : Kernel) : Option Pid :=
  (program img command).bind fun _ => s.claimed command

/-- The entry point `loader` reads: bytes 24 to 27 of what it has staged. -/
def entryPoint (img : Image) (command : CString) (s : Kernel) : Option UInt32 :=
  (program img command).map fun inode => word ((staged img inode s.mem).view newLoad) 24

/-- The block `execute` saves for its caller. -/
def callerBlock (r : Regs) (s : Kernel) : Pcb := { s.pcblock with cr3 := s.cr3, esp := r.esp, ebp := r.ebp }

theorem claim_slots_cases (command : CString) (r : Regs) (n : Pid) (q : Pcb) (s : Kernel) (i : Int) :
    (claim command r n q s).slots i = s.slots i ∨
      (i = s.curPid ∧ (claim command r n q s).slots i = callerBlock r s) := by
  by_cases hn : n = 1
  · subst hn
    exact Or.inl rfl
  rw [claim_slots hn]
  by_cases hi : i = s.curPid
  · subst hi
    exact Or.inr ⟨rfl, Function.update_self _ _ _⟩
  · exact Or.inl (Function.update_of_ne hi _ _)

/-- An `execute` that loads nothing: at most an entry is taken and the caller's block saved. -/
theorem execute_fails {command : CString} {r : Regs} {s s' : Kernel} {o : Outcome} (hl : s.loadsAt img command = none)
    (h : execute img (some command) r s = some (o, s')) :
    s'.cr3 = s.cr3 ∧ s'.esp0 = s.esp0 ∧ (∀ m, s.claimed command ≠ some m → s'.tasks m = s.tasks m) ∧
      (∀ m, s.tasks m ≠ 0 → s'.tasks m ≠ 0) ∧
      ∀ i, s'.slots i = s.slots i ∨ (i = s.curPid ∧ s'.slots i = callerBlock r s) := by
  rcases execute_cases h with ⟨-, -, con, dev, rfl⟩ |
      ⟨n, q, hn, hq, ⟨-, -, d, rfl⟩ | ⟨inode, d, fpos, he, -⟩⟩
  · rw [choosePid_eq]
    exact ⟨rfl, rfl, fun _ _ => rfl, fun _ hm => hm, fun _ => Or.inl rfl⟩
  · refine ⟨rfl, rfl, ?_, ?_, claim_slots_cases command r n q s⟩
    · intro m hm
      exact Function.update_of_ne (fun hmn => hm (by rw [hmn]; exact hn)) _ _
    · intro m hm
      show Function.update s.tasks n s.curPid m ≠ 0
      by_cases hmn : m = n
      · rw [hmn, Function.update_self]
        exact curPid_ne_zero s
      · rwa [Function.update_of_ne hmn]
  · unfold loadsAt program at hl
    rw [hq, Option.bind_some, he, Option.bind_some, hn] at hl
    cases hl

/-- An `execute` that loads a program. Whether it is entered, too, is a matter of its entry point. -/
theorem execute_loads {command : CString} {r : Regs} {s s' : Kernel} {o : Outcome} {n : Pid}
    (hl : s.loadsAt img command = some n) (h : execute img (some command) r s = some (o, s')) :
    n ≠ 0 ∧ s'.cr3 = dirOf n ∧ s'.tasks = Function.update s.tasks n s.curPid ∧
      (∀ i, s'.slots i = s.slots i ∨ (i = s.curPid ∧ s'.slots i = callerBlock r s) ∨
        (i = n.val ∧ (s'.slots i).cr3 = dirOf n)) ∧
      (n ≠ 1 → s.curPid ≠ n.val → s'.slots s.curPid = callerBlock r s) ∧
      s'.esp0 = if s.entryPoint img command = some 0xFFFFFFFF then s.esp0 else stackTop n.val := by
  obtain ⟨inode, hp, hn⟩ := Option.bind_eq_some_iff.1 hl
  obtain ⟨q, hq, he⟩ := Option.bind_eq_some_iff.1 hp
  have hn0 := claimed_ne_zero hn
  rw [execute_claimed hn, hq] at h
  obtain ⟨d, fpos, hd⟩ := loader_loads (n := n) (claim command r n q s) he rfl
  have hentry : s.entryPoint img command = some (word ((staged img inode s.mem).view newLoad) 24) := by
    unfold entryPoint
    rw [hp]
    rfl
  have hclaim : ∀ i, n ≠ 1 → i = s.curPid → (claim command r n q s).slots i = callerBlock r s := by
    rintro i hn1 rfl
    rw [claim_slots hn1]
    exact Function.update_self _ _ _
  have hmem : (claim command r n q s).mem = s.mem := rfl
  simp only [Option.map_some, hd, hmem] at h
  rw [hentry]
  refine ⟨hn0, ?_⟩
  split at h
  · rename_i hword
    cases h
    refine ⟨taskDir_of_ne hn0 _, rfl, ?_, fun hn1 _ => hclaim _ hn1 rfl, ?_⟩
    · intro i
      rcases claim_slots_cases command r n q s i with hi | hi
      · exact Or.inl hi
      · exact Or.inr (Or.inl hi)
    · rw [if_pos (congrArg some hword)]
      rfl
  · rename_i hword
    cases h
    refine ⟨taskDir_of_ne hn0 _, rfl, ?_, ?_, ?_⟩
    · intro i
      by_cases hi : i = n.val
      · refine Or.inr (Or.inr ⟨hi, ?_⟩)
        subst hi
        show (Function.update (claim command r n q s).slots (n.val : Int) _ (n.val : Int)).cr3 = _
        rw [Function.update_self]
        exact taskDir_of_ne hn0 _
      · have hslot : ∀ p : Pcb, Function.update (claim command r n q s).slots (n.val : Int) p i =
            (claim command r n q s).slots i := fun p => Function.update_of_ne hi _ _
        rcases claim_slots_cases command r n q s i with hi' | ⟨hc, hi'⟩
        · exact Or.inl ((hslot _).trans hi')
        · exact Or.inr (Or.inl ⟨hc, (hslot _).trans hi'⟩)
    · intro hn1 hne
      exact (Function.update_of_ne hne _ _).trans (hclaim _ hn1 rfl)
    · rw [if_neg (fun hw => hword (Option.some.inj hw))]

/-! ## Processes in front and waiting -/

theorem pid_eq_some {d : PageDir} {m : Pid} (h : d.pid = some m) : d = dirOf m := by
  cases d <;> cases h <;> rfl

/-- The process in front of a terminal. -/
def front (s : Kernel) (u : TermNum) : Option Pid :=
  if u = s.curTerminal then s.cr3.pid else if s.started u then (s.terminals u).cr3.pid else none

/-- What an `execute` stores for its caller: CR3 and the stack registers. -/
structure Stored where
  cr3 : PageDir
  regs : Regs

/-- For each process that returns, what the `execute` that loaded it stored for its caller. -/
abbrev Notes := Pid → Option Stored

/-- The pid of a noted caller. -/
def callerOf (notes : Notes) (c : Pid) : Option Pid := (notes c).bind fun g => g.cr3.pid

/-- An operation notes what is stored when it loads a program that will return, and drops the note of a
program that returns. -/
def note (img : Image) (s : Kernel) (notes : Notes) (op : Op) : Notes :=
  match s.call op with
  | some (command, r, s0) =>
    match s0.loadsAt img command with
    | some n => if 3 < n.val then Function.update notes n (some ⟨s0.cr3, r⟩) else notes
    | none => notes
  | none =>
    match op, s.cr3.pid with
    | .halt .., some n => Function.update notes n none
    | _, _ => notes

/-- The PCB copy of the caller `k` of `c` holds what is noted. Its registers only matter for a pid that never
stands for two processes. -/
structure Link (E : Pid → Prop) (s : Kernel) (c : Pid) (g : Stored) (k : Pid) : Prop where
  ne_zero : k ≠ 0
  cr3 : g.cr3 = dirOf k
  task : s.tasks c = k.val
  saved : (s.slots k.val).cr3 = dirOf k
  regs : E k → (s.slots k.val).esp = g.regs.esp ∧ (s.slots k.val).ebp = g.regs.ebp

/-- The processes in front and those that wait, with the table entries and PCB copies they need. -/
structure Tree (E : Pid → Prop) (s : Kernel) (notes : Notes) : Prop where
  owned : Owned (fun m : Pid => m.val ≤ 3) E s.front (callerOf notes) fun m => s.tasks m ≠ 0
  displayed : s.started s.curTerminal = true
  shown : ∀ u, s.started u = true → ∃ p, p ≠ 0 ∧ s.front u = some p
  link : ∀ c g, notes c = some g → ∃ k, Link E s c g k

variable {E : Pid → Prop} {s s' : Kernel} {notes : Notes}

theorem Link.caller {c k : Pid} {g : Stored} (h : Link E s c g k) (hg : notes c = some g) : callerOf notes c = some k := by
  unfold callerOf
  rw [hg, Option.bind_some, h.cr3, dirOf_pid]

/-- A link stays when the entry does, and the copy does or keeps its CR3 for a pid with two processes. -/
theorem Link.keep {c k : Pid} {g : Stored} (h : Link E s c g k) (ht : s'.tasks c = s.tasks c)
    (hs : s'.slots k.val = s.slots k.val ∨ (¬ E k ∧ (s'.slots k.val).cr3 = dirOf k)) : Link E s' c g k := by
  refine ⟨h.ne_zero, h.cr3, ht.trans h.task, ?_, ?_⟩
  · rcases hs with hs | ⟨-, hs⟩
    · rw [hs]
      exact h.saved
    · exact hs
  · intro hE
    rcases hs with hs | ⟨hn, -⟩
    · rw [hs]
      exact h.regs hE
    · exact absurd hE hn

theorem front_cur (s : Kernel) : s.front s.curTerminal = s.cr3.pid := if_pos rfl

/-- The running process. -/
theorem Tree.running (h : Tree E s notes) : ∃ p, p ≠ 0 ∧ s.front s.curTerminal = some p ∧ s.cr3 = dirOf p := by
  obtain ⟨p, hp, hf⟩ := h.shown _ h.displayed
  refine ⟨p, hp, hf, pid_eq_some ?_⟩
  rw [← front_cur]
  exact hf

theorem front_congr (hcr3 : s'.cr3 = s.cr3) (hcur : s'.curTerminal = s.curTerminal)
    (hst : ∀ u, s'.started u = s.started u) (hterm : s'.terminals = s.terminals) : s'.front = s.front := by
  funext u
  unfold front
  rw [hcr3, hcur, hst, hterm]

/-- A step that leaves the processes in front, and takes no number from any. -/
theorem Tree.frame (h : Tree E s notes) (hfront : s'.front = s.front) (hst : ∀ u, s'.started u = s.started u)
    (hcur : s'.started s'.curTerminal = true) (htaken : ∀ m, s.tasks m ≠ 0 → s'.tasks m ≠ 0)
    (htask : ∀ c k, callerOf notes c = some k → s'.tasks c = s.tasks c)
    (hslots : ∀ c k, callerOf notes c = some k →
      s'.slots k.val = s.slots k.val ∨ (¬ E k ∧ (s'.slots k.val).cr3 = dirOf k)) :
    Tree E s' notes := by
  constructor
  · rw [hfront]
    exact h.owned.mono htaken
  · exact hcur
  · intro u hu
    rw [hst] at hu
    rw [hfront]
    exact h.shown u hu
  · intro c g hg
    obtain ⟨k, hk⟩ := h.link c g hg
    exact ⟨k, hk.keep (htask c k (hk.caller hg)) (hslots c k (hk.caller hg))⟩

/-- A terminal's shell put in front of a terminal. -/
theorem Tree.plant {n p : Pid} {u : TermNum} (h : Tree E s notes) (hp : s.front s.curTerminal = some p) (hn : n ≠ 0)
    (h3 : n.val ≤ 3) (hfront : s'.front = Function.update s.front u (some n)) (hcur : s'.curTerminal = u)
    (hst : ∀ v, v ≠ u → s'.started v = s.started v) (hu : s'.started u = true)
    (hfree : E n → s.tasks n = 0 ∨ s.front u = some n)
    (htaken : ∀ m, s.tasks m ≠ 0 → s'.tasks m ≠ 0 ∨ (s.front u = some m ∧ m.val ≤ 3)) (hnew : s'.tasks n ≠ 0)
    (htask : ∀ c : Pid, 3 < c.val → s'.tasks c = s.tasks c)
    (hslots : ∀ k : Pid, s'.slots k.val = s.slots k.val ∨ ((k = p ∨ k = n) ∧ (s'.slots k.val).cr3 = dirOf k)) :
    Tree E s' notes := by
  have hfree' : E n → ¬ s.tasks n ≠ 0 ∨ s.front u = some n := fun hE => (hfree hE).imp_left not_not.2
  constructor
  · rw [hfront]
    exact h.owned.plant h3 hfree' htaken hnew
  · rw [hcur]
    exact hu
  · intro v hv
    by_cases huv : v = u
    · rw [hfront, huv, Function.update_self]
      exact ⟨n, hn, rfl⟩
    · rw [hfront, Function.update_of_ne huv]
      rw [hst v huv] at hv
      exact h.shown v hv
  · intro c g hg
    obtain ⟨k, hk⟩ := h.link c g hg
    have hc := hk.caller hg
    refine ⟨k, hk.keep (htask c (not_le.1 (h.owned.notRoot hc))) ?_⟩
    rcases hslots k with hs | ⟨hkpn, hs⟩
    · exact Or.inl hs
    · refine Or.inr ⟨?_, hs⟩
      intro hE
      rcases hkpn with rfl | rfl
      · exact h.owned.idle hc hE hp
      · rcases hfree' hE with hf | hf
        · exact hf (h.owned.waiting hc hE)
        · exact h.owned.idle hc hE hf

theorem callerOf_update {n p : Pid} (g : Stored) (hg : g.cr3 = dirOf p) :
    callerOf (Function.update notes n (some g)) = Function.update (callerOf notes) n (some p) := by
  funext c
  unfold callerOf
  by_cases hc : c = n
  · rw [hc, Function.update_self, Function.update_self, Option.bind_some, hg, dirOf_pid]
  · rw [Function.update_of_ne hc, Function.update_of_ne hc]

theorem callerOf_drop {n : Pid} : callerOf (Function.update notes n none) = Function.update (callerOf notes) n none := by
  funext c
  unfold callerOf
  by_cases hc : c = n
  · rw [hc, Function.update_self, Function.update_self]
    rfl
  · rw [Function.update_of_ne hc, Function.update_of_ne hc]

/-- The running process loads a program that returns to it. -/
theorem Tree.push {n p : Pid} {r : Regs} (h : Tree E s notes) (hp : s.front s.curTerminal = some p) (hp0 : p ≠ 0)
    (hcr3 : s.cr3 = dirOf p) (h3 : 3 < n.val) (hfree : s.tasks n = 0)
    (hfront : s'.front = Function.update s.front s.curTerminal (some n)) (hcur : s'.curTerminal = s.curTerminal)
    (hst : ∀ v, s'.started v = s.started v) (htask : s'.tasks = Function.update s.tasks n p.val)
    (hslots : ∀ k : Pid, s'.slots k.val = s.slots k.val ∨ ((k = p ∨ k = n) ∧ (s'.slots k.val).cr3 = dirOf k))
    (hsaved : p ≠ n → s'.slots p.val = callerBlock r s) (hE : ∀ m : Pid, 3 < m.val → E m) :
    Tree E s' (Function.update notes n (some ⟨s.cr3, r⟩)) := by
  have hpval : (p.val : Int) ≠ 0 := by
    intro hz
    exact hp0 (by exact_mod_cast hz)
  have hnew : s'.tasks n ≠ 0 := by
    rw [htask, Function.update_self]
    exact hpval
  have hkeep : ∀ m, s.tasks m ≠ 0 → s'.tasks m ≠ 0 := by
    intro m hm
    by_cases hmn : m = n
    · rw [hmn]
      exact hnew
    · rwa [htask, Function.update_of_ne hmn]
  -- a process under a pid of its own is not the free one
  have hpn : p ≠ n := by
    rintro rfl
    exact h.owned.alive hp (hE p h3) hfree
  constructor
  · rw [hfront, callerOf_update ⟨s.cr3, r⟩ hcr3]
    exact h.owned.push hp (not_le.2 h3) (not_not.2 hfree) hkeep hnew
  · rw [hcur, hst]
    exact h.displayed
  · intro v hv
    by_cases hv' : v = s.curTerminal
    · rw [hfront, hv', Function.update_self]
      refine ⟨n, ?_, rfl⟩
      rintro rfl
      exact absurd h3 (by decide)
    · rw [hfront, Function.update_of_ne hv']
      rw [hst] at hv
      exact h.shown v hv
  · intro c g hg
    by_cases hc : c = n
    · subst hc
      rw [Function.update_self] at hg
      cases hg
      refine ⟨p, hp0, hcr3, ?_, ?_, ?_⟩
      · rw [htask, Function.update_self]
      · rw [hsaved hpn]
        exact hcr3
      · intro _
        rw [hsaved hpn]
        exact ⟨rfl, rfl⟩
    · rw [Function.update_of_ne hc] at hg
      obtain ⟨k, hk⟩ := h.link c g hg
      have hck := hk.caller hg
      refine ⟨k, hk.keep (by rw [htask, Function.update_of_ne hc]) ?_⟩
      rcases hslots k with hs | ⟨hkpn, hs⟩
      · exact Or.inl hs
      · refine Or.inr ⟨?_, hs⟩
        intro hEk
        rcases hkpn with rfl | rfl
        · exact h.owned.idle hck hEk hp
        · exact h.owned.waiting hck hEk hfree

/-- The running process ends, and its caller is in front again with what is noted. -/
theorem Tree.pop {n : Pid} (h : Tree E s notes) (hn : s.cr3.pid = some n) (h3 : 3 < n.val)
    (hE : ∀ m : Pid, 3 < m.val → E m) :
    ∃ g k, notes n = some g ∧ Link E s n g k ∧ Tree E (haltProgram n s) (Function.update notes n none) := by
  have hfront : s.front s.curTerminal = some n := by rw [front_cur, hn]
  have hknown := h.owned.known hfront (not_le.2 h3)
  obtain ⟨g, hg⟩ : ∃ g, notes n = some g := by
    rcases hg : notes n with _ | g
    · unfold callerOf at hknown
      rw [hg] at hknown
      exact absurd rfl hknown
    · exact ⟨g, rfl⟩
  obtain ⟨k, hk⟩ := h.link n g hg
  have hc := hk.caller hg
  obtain ⟨v, hv⟩ := haltProgram_eq n s
  have hcr3 : (haltProgram n s).cr3 = dirOf k := by
    rw [hv]
    show (s.slots (s.tasks n)).cr3 = _
    rw [hk.task, hk.saved]
  obtain ⟨hslots, hterm, hcur, hf2, hf3, -⟩ := haltProgram_frame n s
  have hst := started_congr hf2 hf3
  have hfront' : (haltProgram n s).front = Function.update s.front s.curTerminal (some k) := by
    funext u
    unfold front
    by_cases hu : u = s.curTerminal
    · rw [hu, Function.update_self, hcur, if_pos rfl, hcr3, dirOf_pid]
    · rw [Function.update_of_ne hu, hcur, if_neg hu, if_neg hu, hst, hterm]
  have htask : (haltProgram n s).tasks = Function.update s.tasks n 0 := by rw [hv]
  refine ⟨g, k, hg, hk, ?_⟩
  constructor
  · rw [hfront', callerOf_drop]
    refine h.owned.pop (fun m hm => hE m (not_le.1 hm)) hfront hc ?_
    intro m hm hmt
    rwa [htask, Function.update_of_ne hm]
  · rw [hcur, hst]
    exact h.displayed
  · intro u hu
    by_cases hu' : u = s.curTerminal
    · rw [hfront', hu', Function.update_self]
      exact ⟨k, hk.ne_zero, rfl⟩
    · rw [hfront', Function.update_of_ne hu']
      rw [hst] at hu
      exact h.shown u hu
  · intro c g' hg'
    by_cases hcn : c = n
    · rw [hcn, Function.update_self] at hg'
      cases hg'
    · rw [Function.update_of_ne hcn] at hg'
      obtain ⟨k', hk'⟩ := h.link c g' hg'
      exact ⟨k', hk'.keep (by rw [htask, Function.update_of_ne hcn]) (Or.inl (by rw [hslots]))⟩

/-! ## Steps -/

/-- What an `execute` that loads does to the PCB copies, for the caller with pid `p`. -/
theorem loads_slots {command : CString} {r : Regs} {o : Outcome} {n p : Pid} (hl : s.loadsAt img command = some n)
    (h : execute img (some command) r s = some (o, s')) (hp0 : p ≠ 0) (hp : s.cr3 = dirOf p) :
    (∀ k : Pid, s'.slots k.val = s.slots k.val ∨ ((k = p ∨ k = n) ∧ (s'.slots k.val).cr3 = dirOf k)) ∧
      (n ≠ 1 → p ≠ n → s'.slots p.val = callerBlock r s) := by
  obtain ⟨-, -, -, hslots, hsaved, -⟩ := execute_loads hl h
  have hc := curPid_dirOf hp hp0
  constructor
  · intro k
    rcases hslots k.val with hs | ⟨hk, hs⟩ | ⟨hk, hs⟩
    · exact Or.inl hs
    · have hkp : k = p := by
        rw [hc] at hk
        exact Fin.ext (by exact_mod_cast hk)
      refine Or.inr ⟨Or.inl hkp, ?_⟩
      rw [hs, hkp]
      exact hp
    · have hkn : k = n := Fin.ext (by exact_mod_cast hk)
      refine Or.inr ⟨Or.inr hkn, ?_⟩
      rw [hs, hkn]
  · intro hn1 hpn
    have hne : s.curPid ≠ n.val := by
      rw [hc]
      intro heq
      exact hpn (Fin.ext (by exact_mod_cast heq))
    rw [← hc]
    exact hsaved hn1 hne

theorem loadsAt_claimed {command : CString} {n : Pid} (h : s.loadsAt img command = some n) : s.claimed command = some n := by
  obtain ⟨-, -, hn⟩ := Option.bind_eq_some_iff.1 h
  exact hn

/-- An entry other than those of the terminals' shells is only claimed when it is free. -/
theorem claimed_free {command : CString} {n : Pid} (h : s.claimed command = some n) (h3 : 3 < n.val) : s.tasks n = 0 := by
  unfold claimed at h
  rcases hf : s.forced command with _ | m <;> rw [hf] at h
  · exact (findTask_free h).2
  · cases h
    exact absurd (forced_le hf) (not_le.2 h3)

/-- The process in front after a load. -/
theorem loads_front {n : Pid} {u : TermNum} (hcr3 : s'.cr3 = dirOf n) (hcur : s'.curTerminal = u)
    (hother : ∀ v, v ≠ u → (if s'.started v then (s'.terminals v).cr3.pid else none) = s.front v) :
    s'.front = Function.update s.front u (some n) := by
  funext v
  unfold front
  rw [hcur]
  by_cases hv : v = u
  · rw [hv, if_pos rfl, Function.update_self, hcr3, dirOf_pid]
  · rw [if_neg hv, Function.update_of_ne hv]
    exact hother v hv

/-- A program executes another one. -/
theorem execute_tree {command : CString} {r : Regs} {o : Outcome} (h : Tree E s notes)
    (hE : ∀ m : Pid, 3 < m.val → E m) (hfree : ∀ n ∈ s.loadsAt img command, E n → s.tasks n = 0)
    (hs : execute img (some command) r s = some (o, s')) : Tree E s' (note img s notes (.execute (some command) r)) := by
  obtain ⟨p, hp0, hfront, hp⟩ := h.running
  obtain ⟨⟨hterm, hcur, hf2, hf3, -⟩, -⟩ := execute_frame hs
  have hst := started_congr hf2 hf3
  rcases hl : s.loadsAt img command with _ | n
  · have hnote : note img s notes (.execute (some command) r) = notes := by simp only [note, call, hl]
    rw [hnote]
    obtain ⟨hcr3, -, htask, htaken, hslots⟩ := execute_fails hl hs
    refine h.frame (front_congr hcr3 hcur hst hterm) hst (by rw [hcur, hst]; exact h.displayed) htaken ?_ ?_
    · intro c k hc
      apply htask
      intro hclaim
      exact h.owned.child hc (claimed_free hclaim (not_le.1 (h.owned.notRoot hc)))
    · intro c k hc
      rcases hslots k.val with hk | ⟨hk, hb⟩
      · exact Or.inl hk
      · have hkp : k = p := by
          rw [curPid_dirOf hp hp0] at hk
          exact Fin.ext (by exact_mod_cast hk)
        subst hkp
        refine Or.inr ⟨fun hEk => h.owned.idle hc hEk hfront, ?_⟩
        rw [hb]
        exact hp
  · obtain ⟨hn0, hcr3, htask, -⟩ := execute_loads hl hs
    obtain ⟨hslots, hsaved⟩ := loads_slots hl hs hp0 hp
    rw [curPid_dirOf hp hp0] at htask
    have hnew : s'.front = Function.update s.front s.curTerminal (some n) := by
      refine loads_front hcr3 hcur ?_
      intro v hv
      unfold front
      rw [if_neg hv, hst, hterm]
    by_cases h3 : 3 < n.val
    · have hnote : note img s notes (.execute (some command) r) = Function.update notes n (some ⟨s.cr3, r⟩) := by
        simp only [note, call, hl, if_pos h3]
      rw [hnote]
      refine h.push hfront hp0 hp h3 (claimed_free (loadsAt_claimed hl) h3) hnew hcur hst htask hslots (hsaved ?_) hE
      rintro rfl
      exact absurd h3 (by decide)
    · have hnote : note img s notes (.execute (some command) r) = notes := by simp only [note, call, hl, if_neg h3]
      rw [hnote]
      have hpval : (p.val : Int) ≠ 0 := by
        intro hz
        exact hp0 (by exact_mod_cast hz)
      refine h.plant hfront hn0 (not_lt.1 h3) hnew hcur (fun v _ => hst v) (by rw [hst]; exact h.displayed)
        (fun hEn => Or.inl (hfree n hl hEn)) ?_ ?_ ?_ hslots
      · intro m hm
        rw [htask]
        by_cases hmn : m = n
        · rw [hmn, Function.update_self]
          exact Or.inl hpval
        · rw [Function.update_of_ne hmn]
          exact Or.inl hm
      · rw [htask, Function.update_self]
        exact hpval
      · intro c hc
        rw [htask, Function.update_of_ne]
        rintro rfl
        exact h3 hc

/-- A shell is loaded where an entry is forced on it, from an image that can boot. -/
theorem loadsAt_shell (hb : Bootable img) (hf : s.forced shell ≠ none) :
    ∃ n : Pid, s.loadsAt img shell = some n ∧ n.val ≤ 3 := by
  obtain ⟨q, inode, hq, he⟩ := hb
  obtain ⟨n, hn⟩ := Option.ne_none_iff_exists'.1 hf
  refine ⟨n, ?_, forced_le hn⟩
  unfold loadsAt program
  rw [hq, Option.bind_some, he, Option.bind_some, claimed_of_forced hf, hn]

/-- The shell of a terminal ends and is started again. -/
theorem restart_tree {r : Regs} {o : Outcome} {m n : Pid} (h : Tree E s notes) (hm : s.cr3.pid = some m)
    (hm3 : m.val ≤ 3) (hl : (restartShell m s).loadsAt img shell = some n) (hn3 : n.val ≤ 3)
    (hfree : E n → (restartShell m s).tasks n = 0)
    (hs : execute img (some shell) r (restartShell m s) = some (o, s')) : Tree E s' notes := by
  obtain ⟨p, hp0, hfront, hp⟩ := h.running
  have hpm : m = p := by
    rw [front_cur, hm] at hfront
    exact Option.some.inj hfront
  subst hpm
  have hp' : (restartShell m s).cr3 = dirOf m := hp
  obtain ⟨⟨hterm, hcur, hf2, hf3, -⟩, -⟩ := execute_frame hs
  have hst : ∀ v, s'.started v = s.started v := fun v => (started_congr hf2 hf3 v).trans (started_congr rfl rfl v)
  obtain ⟨hn0, hcr3, htask, -⟩ := execute_loads hl hs
  obtain ⟨hslots, -⟩ := loads_slots hl hs hp0 hp'
  have htask' : s'.tasks = Function.update (Function.update s.tasks m 0) n (restartShell m s).curPid := htask
  have hpval := curPid_ne_zero (restartShell m s)
  have hnew : s'.front = Function.update s.front s.curTerminal (some n) := by
    refine loads_front hcr3 hcur ?_
    intro v hv
    unfold front
    rw [if_neg hv, hst, hterm]
    rfl
  refine h.plant hfront hn0 hn3 hnew hcur (fun v _ => hst v) (by rw [hst]; exact h.displayed) ?_ ?_ ?_ ?_ hslots
  · intro hEn
    have hz : Function.update s.tasks m 0 n = 0 := hfree hEn
    by_cases hnm : n = m
    · rw [hnm]
      exact Or.inr hfront
    · rw [Function.update_of_ne hnm] at hz
      exact Or.inl hz
  · intro k hk
    rw [htask']
    by_cases hkn : k = n
    · rw [hkn, Function.update_self]
      exact Or.inl hpval
    · rw [Function.update_of_ne hkn]
      by_cases hkm : k = m
      · rw [hkm]
        exact Or.inr ⟨hfront, hm3⟩
      · rw [Function.update_of_ne hkm]
        exact Or.inl hk
  · rw [htask', Function.update_self]
    exact hpval
  · intro c hc
    rw [htask', Function.update_of_ne, Function.update_of_ne]
    · rintro rfl
      exact absurd hm3 (not_le.2 hc)
    · rintro rfl
      exact absurd hn3 (not_le.2 hc)

/-- The first switch to a terminal starts its shell. -/
theorem first_tree {r : Regs} {o : Outcome} {t : TermNum} {n : Pid} (h : Tree E s notes)
    (hl : (activate t (leftFor t r s)).loadsAt img shell = some n) (hn3 : n.val ≤ 3)
    (hfree : E n → s.tasks n = 0)
    (hs : execute img (some shell) r (activate t (leftFor t r s)) = some (o, s')) : Tree E s' notes := by
  obtain ⟨p, hp0, hfront, hp⟩ := h.running
  have hp' : (activate t (leftFor t r s)).cr3 = dirOf p := by rw [activate_cr3, leftFor_cr3, hp]
  obtain ⟨⟨hterm, hcur, hf2, hf3, -⟩, -⟩ := execute_frame hs
  have hst' := started_congr hf2 hf3
  obtain ⟨hn0, hcr3, htask, -⟩ := execute_loads hl hs
  obtain ⟨hslots, -⟩ := loads_slots hl hs hp0 hp'
  have htask' : s'.tasks = Function.update s.tasks n (activate t (leftFor t r s)).curPid := by
    rw [htask, activate_tasks, leftFor_tasks]
  have hpval := curPid_ne_zero (activate t (leftFor t r s))
  have hcur' : s'.curTerminal = t := by rw [hcur, activate_curTerminal, leftFor_curTerminal]
  have hothers : ∀ v, v ≠ t → s'.started v = s.started v := by
    intro v hv
    rw [hst', started_activate_ne hv, started_leftFor]
  have hnew : s'.front = Function.update s.front t (some n) := by
    refine loads_front hcr3 hcur' ?_
    intro v hv
    rw [hothers v hv, hterm, activate_terminals]
    unfold front
    by_cases hvc : v = s.curTerminal
    · rw [if_pos hvc, hvc, h.displayed, if_pos rfl]
      show (Function.update s.terminals s.curTerminal _ s.curTerminal).cr3.pid = _
      rw [Function.update_self]
      rfl
    · rw [if_neg hvc, leftFor_terminals r (Ne.symm hvc)]
  have hslots' : ∀ k : Pid, s'.slots k.val = s.slots k.val ∨ ((k = p ∨ k = n) ∧ (s'.slots k.val).cr3 = dirOf k) := by
    intro k
    have hk := hslots k
    rwa [activate_slots, leftFor_slots] at hk
  refine h.plant hfront hn0 hn3 hnew hcur' hothers ?_ (fun hEn => Or.inl (hfree hEn)) ?_ ?_ ?_ hslots'
  · rw [hst', started_activate_self]
  · intro m hm
    rw [htask']
    by_cases hmn : m = n
    · rw [hmn, Function.update_self]
      exact Or.inl hpval
    · rw [Function.update_of_ne hmn]
      exact Or.inl hm
  · rw [htask', Function.update_self]
    exact hpval
  · intro c hc
    rw [htask', Function.update_of_ne]
    rintro rfl
    exact absurd hn3 (not_le.2 hc)

/-- A switch to a started terminal changes nothing: the process in front of each terminal stays the same. -/
theorem switch_front {t : TermNum} (r : Regs) (h : Tree E s notes) (hc : s.curTerminal ≠ t) (hst : s.started t = true) :
    (enterTerminal t (leftFor t r s)).front = s.front := by
  have hcr3 : (enterTerminal t (leftFor t r s)).cr3 = (s.terminals t).cr3 := by
    rw [← leftFor_terminals (t := t) r hc]
    simp only [enterTerminal, loadScreen]
  funext u
  unfold front
  rw [enterTerminal_curTerminal, leftFor_curTerminal, started_enterTerminal, started_leftFor, enterTerminal_terminals]
  by_cases hut : u = t
  · rw [if_pos hut, hut, if_neg (Ne.symm hc), hst, if_pos rfl, hcr3]
  rw [if_neg hut]
  by_cases huc : u = s.curTerminal
  · rw [if_pos huc, huc, h.displayed, if_pos rfl]
    show (Function.update s.terminals s.curTerminal _ s.curTerminal).cr3.pid = _
    rw [Function.update_self]
    rfl
  · rw [if_neg huc, leftFor_terminals r (Ne.symm huc)]

theorem note_noCall {op : Op} (hc : s.call op = none) (hop : ∀ status r, op ≠ .halt status r) :
    note img s notes op = notes := by
  unfold note
  rw [hc]
  cases op with
  | halt status r => exact absurd rfl (hop status r)
  | _ => rfl

/-- The entries under which an operation loads a program are free, as far as `E` goes. -/
def LoadsFree (img : Image) (E : Pid → Prop) (s : Kernel) (op : Op) : Prop :=
  ∀ command r s0, s.call op = some (command, r, s0) → ∀ n, s0.loadsAt img command = some n → E n → s0.tasks n = 0

instance (img : Image) (E : Pid → Prop) [DecidablePred E] (s : Kernel) (op : Op) : Decidable (LoadsFree img E s op) :=
  match h : s.call op with
  | none => isTrue fun command r s0 hc => by rw [h] at hc; cases hc
  | some (command, r, s0) =>
    decidable_of_iff (∀ n, s0.loadsAt img command = some n → E n → s0.tasks n = 0)
      ⟨fun hn _ _ _ hc => by rw [h] at hc; cases hc; exact hn, fun hn => hn command r s0 h⟩

/-- Any call or keystroke. File calls save `pcblock` to the running process's copy, so no pid may stand for two. -/
theorem step_tree {op : Op} {o : Outcome} (hb : Bootable img) (hE : ∀ m : Pid, 3 < m.val → E m) (h : Tree E s notes)
    (hfile : op.isFile = true → ∀ m, E m) (hfree : LoadsFree img E s op) (hs : step img s op = some (o, s')) :
    Tree E s' (note img s notes op) := by
  obtain ⟨p, hp0, hfront, hp⟩ := h.running
  rcases hcall : s.call op with _ | ⟨command, r, s0⟩
  · -- a step that changes none of it
    have hsame : s'.front = s.front → (∀ u, s'.started u = s.started u) → s'.started s'.curTerminal = true →
        s'.tasks = s.tasks → s'.slots = s.slots → Tree E s' notes := by
      intro hf hst hcur htask hslots
      exact h.frame hf hst hcur (by rw [htask]; exact fun _ hm => hm) (fun _ _ _ => by rw [htask])
        (fun _ _ _ => Or.inl (by rw [hslots]))
    by_cases hop : ∃ status r, op = .halt status r
    · obtain ⟨status, r, rfl⟩ := hop
      obtain ⟨n, hn, h3, rfl⟩ := halt_noCall hcall hs
      obtain ⟨g, k, hg, hk, htree⟩ := h.pop hn h3 hE
      have hnote : note img s notes (.halt status r) = Function.update notes n none := by
        simp only [note, hcall, hn]
      rw [hnote]
      exact htree
    rw [note_noCall hcall fun status r heq => hop ⟨status, r, heq⟩]
    rcases step_noCall hcall hs with hf | rfl | ⟨t, -, rfl⟩ | ⟨con, textBuf, counter, entered, dev, rfl⟩ |
      ⟨k, r, t, rfl, ht, hst, rfl⟩ | ⟨status, r, n, heq, -⟩
    · obtain ⟨q, fdIndex, fdVal, fdRtc, slots, con, dev, user, entered, rfl, hslots⟩ := fileCall_eq hf hs
      refine h.frame (front_congr rfl rfl (started_congr rfl rfl) rfl) (started_congr rfl rfl) h.displayed
        (fun _ hm => hm) (fun _ _ _ => rfl) ?_
      intro c k hc
      refine Or.inl (hslots k.val ?_)
      rw [findPid_dirOf hp]
      intro hkp
      have hkp' : k = p := Fin.ext (by exact_mod_cast hkp)
      subst hkp'
      exact h.owned.idle hc (hfile hf k) hfront
    · exact h
    · exact hsame (front_congr rfl rfl (started_congr rfl rfl) rfl) (started_congr rfl rfl) h.displayed rfl rfl
    · exact hsame (front_congr rfl rfl (started_congr rfl rfl) rfl) (started_congr rfl rfl) h.displayed rfl rfl
    · refine hsame (switch_front r h (switchTo_ne ht) hst) ?_ ?_ ?_ ?_
      · intro u
        rw [started_enterTerminal, started_leftFor]
      · rw [started_enterTerminal, started_leftFor, enterTerminal_curTerminal, leftFor_curTerminal]
        exact hst
      · simp only [enterTerminal, loadScreen, leftFor, leaveTerminal, saveScreen, pressed]
      · rw [enterTerminal_slots, leftFor_slots]
    · exact absurd ⟨status, r, heq⟩ hop
  · obtain ⟨o', hex, -⟩ := step_call hcall hs
    rcases call_cases hcall with ⟨rfl, rfl⟩ | ⟨status, n, rfl, hn, h3, rfl, rfl⟩ | ⟨k, t, rfl, ht, hst, rfl, rfl⟩
    · exact execute_tree h hE (fun n hn hEn => hfree _ _ _ hcall n hn hEn) hex
    · have hnp : n = p := by
        rw [front_cur, hn] at hfront
        exact Option.some.inj hfront
      obtain ⟨m, hl, hm3⟩ := loadsAt_shell hb (forced_restart (s := s) (hnp ▸ hp0) h3)
      have hnote : note img s notes (.halt status r) = notes := by
        simp only [note, hcall, hl, if_neg (not_lt.2 hm3)]
      rw [hnote]
      exact restart_tree h hn h3 hl hm3 (hfree _ _ _ hcall m hl) hex
    · obtain ⟨m, hl, hm3⟩ := loadsAt_shell hb (forced_first r hst)
      have hnote : note img s notes (.key k r) = notes := by
        simp only [note, hcall, hl, if_neg (not_lt.2 hm3)]
      rw [hnote]
      exact first_tree h hl hm3 (hfree _ _ _ hcall m hl) hex

/-! ## Runs -/

/-- The first shell is in front of terminal 1, and nobody waits. -/
theorem boot_tree {r : Regs} {eip : UInt32} (hboot : execute img (some shell) r boot = some (.enter eip, s)) :
    Bootable img ∧ Tree E s fun _ => none := by
  obtain ⟨n, q, inode, d, fpos, hn, hq, he, -⟩ := execute_entered hboot
  have h1 : boot.claimed shell = some 1 := by decide
  have hl : boot.loadsAt img shell = some 1 := by
    unfold loadsAt program
    rw [hq, Option.bind_some, he, Option.bind_some, h1]
  obtain ⟨-, hcr3, htask, -⟩ := execute_loads hl hboot
  obtain ⟨⟨hterm, hcur, hf2, hf3, -⟩, -⟩ := execute_frame hboot
  have hst := started_congr hf2 hf3
  have hboot' : ∀ v : TermNum, v ≠ .t1 → boot.started v = false := by
    rintro (_ | _ | _) hv
    · exact absurd rfl hv
    · rfl
    · rfl
  have hfront : s.front = Function.update (fun _ => none) .t1 (some 1) := by
    funext v
    unfold front
    rw [show s.curTerminal = .t1 from hcur]
    by_cases hv : v = .t1
    · rw [if_pos hv, hv, Function.update_self, hcr3, dirOf_pid]
    · rw [if_neg hv, Function.update_of_ne hv, hst, hboot' v hv]
      rfl
  refine ⟨⟨q, inode, hq, he⟩, ?_⟩
  constructor
  · rw [hfront]
    have hempty : Owned (fun m : Pid => m.val ≤ 3) E (fun _ : TermNum => none) (fun _ => none)
        fun m => boot.tasks m ≠ 0 := Owned.empty
    refine hempty.plant (by decide) (fun _ => Or.inl (by decide)) ?_ ?_
    · intro m hm
      refine Or.inl ?_
      rw [htask]
      by_cases hm1 : m = 1
      · rw [hm1, Function.update_self]
        exact curPid_ne_zero boot
      · rwa [Function.update_of_ne hm1]
    · rw [htask, Function.update_self]
      exact curPid_ne_zero boot
  · rw [show s.curTerminal = .t1 from hcur]
    rfl
  · intro u hu
    by_cases hv : u = .t1
    · rw [hfront, hv, Function.update_self]
      exact ⟨1, by decide, rfl⟩
    · rw [hst, hboot' u hv] at hu
      cases hu
  · intro c g hg
    cases hg

/-- A program that an operation loads ends below the PCB copies when it is staged. -/
def LoadsShort (img : Image) (s : Kernel) (op : Op) : Prop :=
  ∀ x ∈ s.call op, ∀ inode ∈ program img x.1, x.2.2.loadsAt img x.1 ≠ none → (img.dataLength inode).toNat ≤ stagingRoom

instance (img : Image) (s : Kernel) (op : Op) : Decidable (LoadsShort img s op) :=
  -- the inode is looked up, not tried out
  have : ∀ x : CString × Regs × Kernel, Decidable (∀ inode ∈ program img x.1, x.2.2.loadsAt img x.1 ≠ none →
      (img.dataLength inode).toNat ≤ stagingRoom) := fun _ => Option.decidableForallMem _
  inferInstanceAs (Decidable (∀ x ∈ s.call op, ∀ inode ∈ program img x.1, x.2.2.loadsAt img x.1 ≠ none →
    (img.dataLength inode).toNat ≤ stagingRoom))

/-- One call or keystroke, with a longer program staged as well. It goes over the copies and then over the kernel stacks;
`spill` is what comes of that, and may be anything. -/
def stagedStep (img : Image) (spill : Kernel → Op → Option (Outcome × Kernel)) (s : Kernel) (op : Op) :
    Option (Outcome × Kernel) :=
  if LoadsShort img s op then step img s op else spill s op

/-- The kernel with its notes. -/
def notedStep (img : Image) (spill : Kernel → Op → Option (Outcome × Kernel)) : Kernel × Notes → Op →
    Option (Outcome × Kernel × Notes) :=
  noting (stagedStep img spill) (note img)

/-- The PCB copy of a process's caller holds what is noted. -/
def HoldsNote (s : Kernel) (c : Pid) (g : Stored) : Prop :=
  (s.slots (s.tasks c)).cr3 = g.cr3 ∧ (⟨(s.slots (s.tasks c)).esp, (s.slots (s.tasks c)).ebp⟩ : Regs) = g.regs

/-- A process with pid 4, 5 or 6 that halts gets what the `execute` that loaded it stored for its caller, and
after the step the copies of all waiting callers still hold theirs. -/
structure ReturnsToCaller (img : Image) (spill : Kernel → Op → Option (Outcome × Kernel)) (x : Kernel × Notes) (op : Op) :
    Prop where
  halts : ∀ status r n, op = .halt status r → x.1.cr3.pid = some n → 3 < n.val →
    ∃ g s', x.2 n = some g ∧ stagedStep img spill x.1 op = some (.resume, s') ∧ s'.cr3 = g.cr3 ∧ s'.regs = g.regs
  keeps : ∀ y, notedStep img spill x op = some y → ∀ c g, y.2.2 c = some g → HoldsNote y.2.1 c g

theorem Link.holds {c k : Pid} {g : Stored} (h : Link (fun _ => True) s c g k) : HoldsNote s c g := by
  obtain ⟨hesp, hebp⟩ := h.regs trivial
  unfold HoldsNote
  rw [h.task, h.saved, hesp, hebp]
  exact ⟨h.cr3.symm, rfl⟩

theorem tree_returns {spill : Kernel → Op → Option (Outcome × Kernel)} {op : Op} (hb : Bootable img)
    (h : Tree (fun _ => True) s notes) (hfree : LoadsFree img (fun _ => True) s op) (hshort : LoadsShort img s op) :
    ReturnsToCaller img spill (s, notes) op := by
  constructor
  · rintro status r n rfl hn h3
    have hn' : s.cr3.pid = some n := hn
    obtain ⟨g, k, hg, hk, -⟩ := h.pop hn' h3 fun _ _ => trivial
    obtain ⟨v, hv⟩ := haltProgram_eq n s
    have hstep : stagedStep img spill s (.halt status r) = some (.resume, haltProgram n s) := by
      rw [stagedStep, if_pos hshort]
      simp only [step, halt, hn', if_neg (not_le.2 h3)]
    obtain ⟨hcr3, hregs⟩ := hk.holds
    refine ⟨g, haltProgram n s, hg, hstep, ?_, ?_⟩
    · rw [hv]
      exact hcr3
    · rw [hv]
      exact hregs
  · intro y hy c g hg
    obtain ⟨⟨o, s'⟩, hs, rfl⟩ := Option.map_eq_some_iff.1 hy
    have hs' : step img s op = some (o, s') := (if_pos hshort).symm.trans hs
    have htree := step_tree hb (fun _ _ => trivial) h (fun _ _ => trivial) hfree hs'
    obtain ⟨k, hk⟩ := htree.link c g hg
    exact hk.holds

/-- In every run from the first shell on that loads no program under a pid that is taken and none that is too long, every
process returns to its caller as the `execute` that loaded it left it, and no call overwrites the copy of a waiting
caller. -/
theorem returns_to_caller (img : Image) (spill : Kernel → Op → Option (Outcome × Kernel)) (r : Regs) (eip : UInt32)
    (s : Kernel) (hboot : stagedStep img spill boot (.execute (some shell) r) = some (.enter eip, s))
    (hshell : LoadsShort img boot (.execute (some shell) r)) (ops : List Op)
    (hops : Along (notedStep img spill) (fun x op => LoadsFree img (fun _ => True) x.1 op ∧ LoadsShort img x.1 op)
      (s, fun _ => none) ops) :
    Along (notedStep img spill) (ReturnsToCaller img spill) (s, fun _ => none) ops := by
  have hboot' : execute img (some shell) r boot = some (.enter eip, s) := (if_pos hshell).symm.trans hboot
  obtain ⟨hb, htree⟩ := boot_tree (E := fun _ => True) hboot'
  refine along_mono (I := fun x => Tree (fun _ => True) x.1 x.2) ?_ ?_ htree hops
  · intro x op h hq
    exact tree_returns hb h hq.1 hq.2
  · intro x op y h hq hy
    obtain ⟨⟨o, s'⟩, hs, rfl⟩ := Option.map_eq_some_iff.1 hy
    exact step_tree hb (fun _ _ => trivial) h (fun _ _ => trivial) hq.1 ((if_pos hq.2).symm.trans hs)

/-- The shell runs `fish`, which opens a file; in terminal 2 `fish` is run as well and ends; then the first one
ends. -/
def twoFish : List Op :=
  [.execute (some fish) ⟨1, 2⟩, .open (some fish), .key 0xF6 ⟨3, 4⟩, .execute (some fish) ⟨5, 6⟩, .halt 0 ⟨7, 8⟩,
    .key 0xF5 ⟨9, 10⟩, .halt 0 ⟨11, 12⟩]

theorem returns_to_caller_fish :
    Along (notedStep .sample fun _ _ => none)
        (fun x op => LoadsFree .sample (fun _ => True) x.1 op ∧ LoadsShort .sample x.1 op)
        (firstShell, fun _ => none) twoFish ∧
      Along (notedStep .sample fun _ _ => none) (ReturnsToCaller .sample fun _ _ => none)
        (firstShell, fun _ => none) twoFish := by
  have hshell : LoadsShort .sample boot (.execute (some shell) ⟨0, 0⟩) := by decide +kernel
  have hops : Along (notedStep .sample fun _ _ => none)
      (fun x op => LoadsFree .sample (fun _ => True) x.1 op ∧ LoadsShort .sample x.1 op)
      (firstShell, fun _ => none) twoFish := by decide +kernel
  exact ⟨hops, returns_to_caller .sample _ ⟨0, 0⟩ 0 firstShell ((if_pos hshell).trans execute_firstShell) hshell twoFish hops⟩

/-- The shell runs `fish`; in terminal 2 the shell exits twice; then terminal 1 is displayed again. -/
def exitTwice : List Op :=
  [.execute (some fish) ⟨1, 2⟩, .key 0xF6 ⟨3, 4⟩, .halt 0 ⟨5, 6⟩, .halt 0 ⟨7, 8⟩, .key 0xF5 ⟨9, 10⟩]

/-- The second exit finds a count of zero, so the new shell is loaded under pid 1 and overwrites the copy of the
shell that waits for `fish`: `fish` returns to a stack of terminal 2. -/
theorem return_overwritten :
    ∃ x s', run (notedStep .sample fun _ _ => none) (firstShell, fun _ => none) exitTwice = some x ∧
      x.1.cr3.pid = some 4 ∧ (x.2 4).map (fun g => (g.cr3, g.regs)) = some (.task1, ⟨1, 2⟩) ∧
      step .sample x.1 (.halt 0 ⟨11, 12⟩) = some (.resume, s') ∧ s'.regs = ⟨7, 8⟩ ∧
      ¬ ReturnsToCaller .sample (fun _ _ => none) x (.halt 0 ⟨11, 12⟩) := by
  let x := (run (notedStep .sample fun _ _ => none) (firstShell, fun _ => none) exitTwice).getD (firstShell, fun _ => none)
  have hpid : x.1.cr3.pid = some 4 := by decide +kernel
  have hnote : (x.2 4).map (fun g => (g.cr3, g.regs)) = some (.task1, ⟨1, 2⟩) := by decide +kernel
  have hshort : LoadsShort .sample x.1 (.halt 0 ⟨11, 12⟩) := by decide +kernel
  have hhalt : (step .sample x.1 (.halt 0 ⟨11, 12⟩)).map (fun y => (y.1, y.2.regs)) = some (.resume, ⟨7, 8⟩) := by
    decide +kernel
  obtain ⟨⟨o, s'⟩, hs, ho⟩ := Option.map_eq_some_iff.1 hhalt
  obtain ⟨rfl, hregs⟩ := Prod.mk.inj ho
  refine ⟨x, s', run_getD (by decide +kernel), hpid, hnote, hs, hregs, ?_⟩
  intro h
  obtain ⟨g, s1, hg, hs1, -, hr⟩ := h.halts _ _ 4 rfl hpid (by decide)
  rw [stagedStep, if_pos hshort, hs] at hs1
  cases hs1
  rw [hg] at hnote
  obtain ⟨-, hgr⟩ := Prod.mk.inj (Option.some.inj hnote)
  rw [hgr] at hr
  have hne : s'.regs = ⟨7, 8⟩ := hregs
  rw [hne] at hr
  exact absurd hr (by decide)

end Kernel

end Os391
