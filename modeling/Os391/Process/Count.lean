/-
The count of programs. `pc` agrees with the process table exactly as long as every `execute` counts
the entries it takes and no others: it must not take entry 2 or 3, which `loader` does not count, nor
a taken entry for a program that loads, nor a free one for a command that is refused. Until then the
processes form one stack in terminal 1, each waiting in `execute` for the one above it.
-/
import Os391.Process.Pids

namespace Os391

open Bytes Machine

namespace Kernel

variable {img : Image}

/-! ## Live entries -/

/-- How many of the entries 1 to 6 are not zero. -/
def liveIn (tasks : Pid → Int) : Nat := (Finset.univ.filter fun n : Pid => n ≠ 0 ∧ tasks n ≠ 0).card

/-- How many processes there are. -/
def live (s : Kernel) : Nat := liveIn s.tasks

theorem liveIn_le (tasks : Pid → Int) : liveIn tasks ≤ 6 := by
  have hsub : (Finset.univ.filter fun n : Pid => n ≠ 0 ∧ tasks n ≠ 0) ⊆ Finset.univ.erase 0 := by
    intro n hn
    simp only [Finset.mem_filter, Finset.mem_univ, true_and] at hn
    simpa using hn.1
  have hcard := Finset.card_le_card hsub
  simpa [liveIn] using hcard

theorem liveIn_take (tasks : Pid → Int) {n : Pid} {v : Int} (hn : n ≠ 0) (hv : v ≠ 0) :
    liveIn (Function.update tasks n v) = liveIn tasks + if tasks n = 0 then 1 else 0 := by
  unfold liveIn
  split
  · rename_i h0
    have hins : (Finset.univ.filter fun m : Pid => m ≠ 0 ∧ Function.update tasks n v m ≠ 0) =
        insert n (Finset.univ.filter fun m : Pid => m ≠ 0 ∧ tasks m ≠ 0) := by
      ext m
      by_cases hm : m = n
      · subst hm; simp [hn, hv]
      · simp [hm]
    rw [hins, Finset.card_insert_of_notMem (by simp [h0])]
  · rename_i h0
    rw [Nat.add_zero]
    congr 1
    ext m
    by_cases hm : m = n
    · subst hm; simp [hv, h0]
    · simp [Function.update_of_ne hm]

theorem liveIn_release {tasks : Pid → Int} {n : Pid} (hn : n ≠ 0) (h : tasks n ≠ 0) :
    liveIn (Function.update tasks n 0) + 1 = liveIn tasks := by
  have ht := liveIn_take (Function.update tasks n 0) hn h
  rw [Function.update_idem, Function.update_eq_self, Function.update_self, if_pos rfl] at ht
  exact ht.symm

theorem curPid_ne_zero (s : Kernel) : s.curPid ≠ 0 := by
  unfold curPid
  split <;> omega

theorem findPid_dirOf {s : Kernel} {m : Pid} (h : s.cr3 = dirOf m) : s.findPid = m.val := by
  unfold findPid getPidFromCr3
  rw [h, dirOf_pid]

theorem curPid_dirOf {s : Kernel} {m : Pid} (h : s.cr3 = dirOf m) (hm : m ≠ 0) : s.curPid = m.val := by
  unfold curPid
  rw [findPid_dirOf h, if_neg]
  intro h0
  exact hm (by exact_mod_cast h0)

/-! ## One execute -/

/-- An `execute` counts what it takes: the file loads and the entry is not 2 or 3, exactly if the
entry was free. -/
def CountsClaim (img : Image) (command : CString) (s : Kernel) : Prop :=
  ∀ n q, s.claimed command = some n → words command = some q →
    ((img.executable q.cmdView).isSome = true ∧ n ≠ 2 ∧ n ≠ 3 ↔ s.tasks n = 0)

theorem counted_iff : ∀ n : Pid, n ≠ 0 → ((n = 1 ∨ n = 4 ∨ n = 5 ∨ n = 6) ↔ n ≠ 2 ∧ n ≠ 3) := by
  decide

/-- With the count right before, it is right after exactly when the `execute` counts what it takes. -/
theorem execute_count_iff {command : CString} {r : Regs} {s s' : Kernel} {o : Outcome}
    (h : execute img (some command) r s = some (o, s')) (hl : s.live = s.pc.toNat) :
    s'.live = s'.pc.toNat ↔ CountsClaim img command s := by
  have h6 : s.pc.toNat ≤ 6 := by
    rw [← hl]
    exact liveIn_le s.tasks
  have hclaim : ∀ n q, s.claimed command = some n → words command = some q →
      (CountsClaim img command s ↔
        ((img.executable q.cmdView).isSome = true ∧ n ≠ 2 ∧ n ≠ 3 ↔ s.tasks n = 0)) := by
    intro n q hn hq
    constructor
    · intro hc; exact hc n q hn hq
    · intro hc n' q' hn' hq'
      rw [hn] at hn'; cases hn'
      rw [hq] at hq'; cases hq'
      exact hc
  -- a load counts the entry, if it is not 2 or 3
  have hload : ∀ n q inode, s.claimed command = some n → words command = some q →
      img.executable q.cmdView = some inode → s'.tasks = Function.update s.tasks n s.curPid →
      s'.pc = (if n = 1 ∨ n = 4 ∨ n = 5 ∨ n = 6 then s.pc + 1 else s.pc) →
      (s'.live = s'.pc.toNat ↔ CountsClaim img command s) := by
    intro n q inode hn hq he ht hpc
    have hn0 := claimed_ne_zero hn
    rw [hclaim n q hn hq, he, hpc, ← counted_iff n hn0]
    unfold live at hl ⊢
    rw [ht, liveIn_take s.tasks hn0 (curPid_ne_zero s), hl]
    simp only [Option.isSome_some, true_and]
    split <;> split <;> rename_i h1 h2
    · rw [toNat_succ (by omega)]; simp [h1, h2]
    · simp [h1, h2]
    · rw [toNat_succ (by omega)]; simp [h1, h2]
    · simp [h1, h2]
  rcases execute_cases h with ⟨hnone, -, con, dev, rfl⟩ |
      ⟨n, q, hn, hq, ⟨he, -, d, rfl⟩ | ⟨inode, d, fpos, he, ⟨-, rfl⟩ | ⟨eip, -, rfl⟩⟩⟩
  · refine ⟨fun _ n q hn _ => ?_, fun _ => ?_⟩
    · rw [hnone] at hn; cases hn
    · rw [choosePid_eq]; exact hl
  · have hn0 := claimed_ne_zero hn
    rw [hclaim n q hn hq, he]
    show liveIn (Function.update s.tasks n s.curPid) = s.pc.toNat ↔ _
    rw [liveIn_take s.tasks hn0 (curPid_ne_zero s), ← hl]
    unfold live
    by_cases h0 : s.tasks n = 0 <;> simp [h0]
  · exact hload n q inode hn hq he rfl rfl
  · exact hload n q inode hn hq he rfl rfl

/-! ## The stack of processes -/

/-- Each process above the shell holds its caller's pid in the table, and the caller's PCB copy holds
the caller's page directory. -/
def Linked (s : Kernel) : List Pid → Prop
  | [] => False
  | [n] => n = 1
  | c :: p :: l => c ≠ 1 ∧ s.tasks c = p.val ∧ (s.slots p.val).cr3 = dirOf p ∧ Linked s (p :: l)

theorem Linked.frame {s s' : Kernel} : ∀ {l : List Pid}, Linked s l →
    (∀ c ∈ l, c ≠ 1 → s'.tasks c = s.tasks c) →
    (∀ p ∈ l.tail, (s'.slots p.val).cr3 = (s.slots p.val).cr3) → Linked s' l
  | [], h, _, _ => h
  | [_], h, _, _ => h
  | c :: p :: l, ⟨hc, ht, hs, hl⟩, htasks, hslots => by
    refine ⟨hc, ?_, ?_, ?_⟩
    · rw [htasks c (by simp) hc]; exact ht
    · rw [hslots p (by simp)]; exact hs
    · exact hl.frame (fun x hx => htasks x (List.mem_cons_of_mem _ hx))
        fun x hx => hslots x (List.mem_cons_of_mem _ hx)

theorem Linked.mem_one {s : Kernel} : ∀ {l : List Pid}, Linked s l → (1 : Pid) ∈ l
  | [], h => h.elim
  | [n], h => by rw [show n = 1 from h]; simp
  | _ :: _ :: _, ⟨_, _, _, hl⟩ => List.mem_cons_of_mem _ hl.mem_one

/-- The processes from the running one down to the shell of terminal 1. -/
structure Stack (s : Kernel) (l : List Pid) : Prop where
  nodup : l.Nodup
  linked : Linked s l
  pids : ∀ n ∈ l, n = 1 ∨ n = 4 ∨ n = 5 ∨ n = 6
  taken : ∀ n, n ≠ 0 → (s.tasks n ≠ 0 ↔ n ∈ l)
  count : s.pc.toNat = l.length
  top : ∃ m rest, l = m :: rest ∧ s.cr3 = dirOf m

/-- Terminals 2 and 3 have not been touched. -/
structure OnlyFirst (s : Kernel) : Prop where
  cur : s.curTerminal = .t1
  rst2 : s.term2Rst = false
  rst3 : s.term3Rst = false
  press2 : s.term2Press = false
  press3 : s.term3Press = false
  flag2 : s.term2Flag = false
  flag3 : s.term3Flag = false

theorem Stack.ne_zero {s : Kernel} {l : List Pid} (h : Stack s l) {n : Pid} (hn : n ∈ l) : n ≠ 0 := by
  rintro rfl
  rcases h.pids 0 hn with h | h | h | h <;> cases h

theorem Stack.live_eq {s : Kernel} {l : List Pid} (h : Stack s l) : s.live = s.pc.toNat := by
  have hset : (Finset.univ.filter fun n : Pid => n ≠ 0 ∧ s.tasks n ≠ 0) = l.toFinset := by
    ext n
    simp only [Finset.mem_filter, Finset.mem_univ, true_and, List.mem_toFinset]
    constructor
    · rintro ⟨h0, ht⟩; exact (h.taken n h0).1 ht
    · intro hn
      have h0 := h.ne_zero hn
      exact ⟨h0, (h.taken n h0).2 hn⟩
  unfold live liveIn
  rw [hset, List.toFinset_card_of_nodup h.nodup, h.count]

theorem Stack.pc_ne_zero {s : Kernel} {l : List Pid} (h : Stack s l) : s.pc ≠ 0 := by
  obtain ⟨m, rest, rfl, -⟩ := h.top
  intro h0
  have hc := h.count
  rw [h0] at hc
  cases hc

theorem Stack.taken_one {s : Kernel} {l : List Pid} (h : Stack s l) : s.tasks 1 ≠ 0 :=
  (h.taken 1 (by decide)).2 h.linked.mem_one

theorem Stack.tasks_two {s : Kernel} {l : List Pid} (h : Stack s l) {n : Pid} (hn : n = 2 ∨ n = 3) : s.tasks n = 0 := by
  by_contra ht
  have h0 : n ≠ 0 := by rcases hn with rfl | rfl <;> decide
  have hp := h.pids n ((h.taken n h0).1 ht)
  rcases hn with rfl | rfl <;> rcases hp with h | h | h | h <;> cases h

/-- A stack is carried to a state with the same table, count and directory, and the same copies of
the processes that wait. -/
theorem Stack.frame {s s' : Kernel} {l : List Pid} (h : Stack s l) (ht : s'.tasks = s.tasks) (hp : s'.pc = s.pc)
    (hc : s'.cr3 = s.cr3) (hs : ∀ i, i ≠ s.findPid → s'.slots i = s.slots i) : Stack s' l := by
  refine ⟨h.nodup, ?_, h.pids, by rw [ht]; exact h.taken, by rw [hp]; exact h.count, by rw [hc]; exact h.top⟩
  apply h.linked.frame (fun c _ _ => by rw [ht])
  -- the running process is on top, so it is no one's caller
  obtain ⟨m, rest, rfl, hm⟩ := h.top
  intro p hp
  have hne : (p.val : Int) ≠ s.findPid := by
    rw [findPid_dirOf hm]
    have hpm : p ≠ m := by
      rintro rfl
      exact (List.nodup_cons.1 h.nodup).1 hp
    exact fun h => hpm (Fin.ext (by exact_mod_cast h))
  rw [hs _ hne]

/-! ## What keeps the stack -/

/-- A program is loaded on top of the stack. -/
theorem Stack.push {s s' : Kernel} {l : List Pid} {n : Pid} {cr3 : PageDir} (h : Stack s l)
    (hn : n = 4 ∨ n = 5 ∨ n = 6) (hfree : s.tasks n = 0) (ht : s'.tasks = Function.update s.tasks n s.curPid)
    (hp : s'.pc = s.pc + 1) (hc : s'.cr3 = taskDir n cr3)
    (hcaller : (s'.slots s.curPid).cr3 = s.cr3)
    (hs : ∀ i, i ≠ s.curPid → i ≠ n.val → s'.slots i = s.slots i) : Stack s' (n :: l) := by
  have hn0 : n ≠ 0 := by rcases hn with rfl | rfl | rfl <;> decide
  have hn1 : n ≠ 1 := by rcases hn with rfl | rfl | rfl <;> decide
  have hnl : n ∉ l := fun hm => (h.taken n hn0).2 hm hfree
  have hcount := h.count
  obtain ⟨m, rest, rfl, hm⟩ := h.top
  have hm0 : m ≠ 0 := h.ne_zero (by simp)
  have hcur := curPid_dirOf hm hm0
  have hle : s.pc.toNat ≤ 6 := by rw [← h.live_eq]; exact liveIn_le s.tasks
  refine ⟨List.nodup_cons.2 ⟨hnl, h.nodup⟩, ⟨hn1, ?_, ?_, ?_⟩, ?_, ?_, ?_, n, m :: rest, rfl, ?_⟩
  · rw [ht, Function.update_self, hcur]
  · rw [← hcur, hcaller, hm]
  · -- the waiting processes are below the caller
    apply h.linked.frame
    · intro c hc' _
      rw [ht, Function.update_of_ne]
      rintro rfl
      exact hnl hc'
    · intro p hp'
      have hpm : p ≠ m := by
        rintro rfl
        exact (List.nodup_cons.1 h.nodup).1 hp'
      have hpn : p ≠ n := by
        rintro rfl
        exact hnl (List.mem_cons_of_mem _ hp')
      rw [hs p.val]
      · rw [hcur]
        exact fun h => hpm (Fin.ext (by exact_mod_cast h))
      · exact fun h => hpn (Fin.ext (by exact_mod_cast h))
  · intro k hk
    rcases List.mem_cons.1 hk with rfl | hk
    · exact Or.inr hn
    · exact h.pids k hk
  · intro k hk0
    by_cases hk : k = n
    · subst hk
      rw [ht, Function.update_self]
      exact ⟨fun _ => List.mem_cons_self .., fun _ => curPid_ne_zero s⟩
    · rw [ht, Function.update_of_ne hk, h.taken k hk0]
      simp [hk]
  · rw [hp, toNat_succ (by omega), hcount]
    rfl
  · rw [hc, taskDir_of_ne hn0]

/-- The program that runs is on top. -/
theorem Stack.top_pid {s : Kernel} {l : List Pid} {n : Pid} (h : Stack s l) (hn : s.cr3.pid = some n) :
    ∃ rest, l = n :: rest := by
  obtain ⟨m, rest, rfl, hm⟩ := h.top
  rw [hm, dirOf_pid] at hn
  exact ⟨rest, by rw [Option.some.inj hn]⟩

/-- The program on top goes back to its caller. -/
theorem Stack.pop {s : Kernel} {l : List Pid} {n : Pid} (h : Stack s l) (hn : s.cr3.pid = some n) (h3 : 3 < n.val) :
    ∃ l', Stack (haltProgram n s) l' := by
  obtain ⟨rest, rfl⟩ := h.top_pid hn
  have hn0 : n ≠ 0 := by rintro rfl; simp at h3
  obtain ⟨v, hv⟩ := haltProgram_eq n s
  have hcount := h.count
  rw [hv]
  cases rest with
  | nil =>
    have h1 : n = 1 := h.linked
    subst h1
    simp at h3
  | cons p l =>
    obtain ⟨-, htask, hslot, hl⟩ := h.linked
    have hnotin : n ∉ p :: l := (List.nodup_cons.1 h.nodup).1
    refine ⟨p :: l, (List.nodup_cons.1 h.nodup).2, ?_, fun k hk => h.pids k (List.mem_cons_of_mem _ hk), ?_, ?_,
      p, l, rfl, ?_⟩
    · apply hl.frame
      · intro c hc _
        show Function.update s.tasks n 0 c = s.tasks c
        rw [Function.update_of_ne]
        rintro rfl
        exact hnotin hc
      · intro k _; rfl
    · intro k hk0
      show Function.update s.tasks n 0 k ≠ 0 ↔ _
      by_cases hk : k = n
      · subst hk
        rw [Function.update_self]
        exact ⟨fun h => absurd rfl h, fun h => absurd h hnotin⟩
      · rw [Function.update_of_ne hk, h.taken k hk0]
        simp [hk]
    · show (s.pc - 1).toNat = _
      have h1 : (1 : UInt32) ≤ s.pc := by
        rw [UInt32.le_iff_toNat_le, hcount]
        simp
      rw [UInt32.toNat_sub_of_le _ _ h1, hcount]
      rfl
    · show (s.slots (s.tasks n)).cr3 = dirOf p
      rw [htask, hslot]

/-- With only terminal 1 in use and a program running, nothing but the restart flag of terminal 1
forces an entry, and that is entry 1. -/
theorem forced_onlyFirst {command : CString} {s : Kernel} {n : Pid} (h : OnlyFirst s) (hp : s.pc ≠ 0)
    (hf : s.forced command = some n) : n = 1 := by
  unfold forced at hf
  rw [if_neg hp, h.rst2, h.rst3, h.press2, h.press3] at hf
  split at hf
  · cases hf; rfl
  · simp at hf

/-- The image has a program `shell`. -/
def Bootable (img : Image) : Prop := ∃ q inode, words shell = some q ∧ img.executable q.cmdView = some inode

/-- What holds as long as everything is counted. -/
structure Counting (img : Image) (s : Kernel) : Prop where
  boots : Bootable img
  only : OnlyFirst s
  stack : ∃ l, Stack s l

theorem Counting.live_eq {s : Kernel} (h : Counting img s) : s.live = s.pc.toNat := by
  obtain ⟨l, hl⟩ := h.stack
  exact hl.live_eq

/-! ## Commands -/

/-- The claim of an `execute` that counts: the file is refused, and entry 1 was forced, or it is loaded
under a free entry of 4 to 6. -/
theorem claim_cases {command : CString} {s : Kernel} {n : Pid} {q : Pcb} (h : Counting img s)
    (hc : CountsClaim img command s) (hn : s.claimed command = some n) (hq : words command = some q) :
    (img.executable q.cmdView = none ∧ n = 1) ∨
    ((img.executable q.cmdView).isSome = true ∧ (n = 4 ∨ n = 5 ∨ n = 6) ∧ s.tasks n = 0) := by
  obtain ⟨l, hl⟩ := h.stack
  have hcond := hc n q hn hq
  have h1 := hl.taken_one
  unfold claimed at hn
  rcases hf : s.forced command with _ | m <;> rw [hf] at hn
  · obtain ⟨hn0, hfree⟩ := findTask_free hn
    obtain ⟨hex, h2, h3⟩ := hcond.2 hfree
    have hn1 : n ≠ 1 := by rintro rfl; exact h1 hfree
    refine Or.inr ⟨hex, ?_, hfree⟩
    rcases (counted_iff n hn0).2 ⟨h2, h3⟩ with h | h | h | h
    · exact absurd h hn1
    · exact Or.inl h
    · exact Or.inr (Or.inl h)
    · exact Or.inr (Or.inr h)
  · cases hn
    have hn1 := forced_onlyFirst h.only hl.pc_ne_zero hf
    subst hn1
    refine Or.inl ⟨?_, rfl⟩
    rcases he : img.executable q.cmdView with _ | inode
    · rfl
    · rw [he] at hcond
      exact absurd (hcond.1 ⟨rfl, by decide, by decide⟩) h1

/-- A refused command that was forced on entry 1 leaves the stack. -/
theorem Stack.overwrite_one {s s' : Kernel} {l : List Pid} (h : Stack s l)
    (ht : s'.tasks = Function.update s.tasks 1 s.curPid) (hp : s'.pc = s.pc) (hc : s'.cr3 = s.cr3)
    (hs : s'.slots = s.slots) : Stack s' l := by
  refine ⟨h.nodup, ?_, h.pids, ?_, by rw [hp]; exact h.count, by rw [hc]; exact h.top⟩
  · apply h.linked.frame
    · intro c _ hc1; rw [ht, Function.update_of_ne hc1]
    · intro p _; rw [hs]
  · intro k hk0
    by_cases hk : k = 1
    · subst hk
      rw [ht, Function.update_self]
      exact ⟨fun _ => h.linked.mem_one, fun _ => curPid_ne_zero s⟩
    · rw [ht, Function.update_of_ne hk]
      exact h.taken k hk0

theorem onlyFirst_claim (command : CString) (r : Regs) (n : Pid) (q : Pcb) {s : Kernel} (h : OnlyFirst s) :
    OnlyFirst (claim command r n q s) := by
  refine ⟨h.cur, ?_, ?_, h.press2, h.press3, h.flag2, h.flag3⟩
  · show (s.term2Rst && _) = false
    rw [h.rst2]; rfl
  · show (s.term3Rst && _) = false
    rw [h.rst3]; rfl

theorem execute_counting {command : CString} {r : Regs} {s s' : Kernel} {o : Outcome} (h : Counting img s)
    (hc : CountsClaim img command s) (he : execute img (some command) r s = some (o, s')) : Counting img s' := by
  obtain ⟨l, hl⟩ := h.stack
  obtain ⟨m, rest, hlm, hm⟩ := hl.top
  have hm0 : m ≠ 0 := hl.ne_zero (by rw [hlm]; simp)
  rcases execute_cases he with ⟨-, -, con, dev, rfl⟩ |
      ⟨n, q, hn, hq, ⟨hex, -, d, rfl⟩ | ⟨inode, d, fpos, hex, hend⟩⟩
  · refine ⟨h.boots, ?_, l, ?_⟩ <;> rw [choosePid_eq]
    · have hr2 := h.only.rst2
      have hr3 := h.only.rst3
      exact ⟨h.only.cur, by rw [hr2]; rfl, by rw [hr3]; rfl, h.only.press2, h.only.press3, h.only.flag2, h.only.flag3⟩
    · exact hl.frame rfl rfl rfl fun _ _ => rfl
  · rcases claim_cases h hc hn hq with ⟨-, rfl⟩ | ⟨hsome, -, -⟩
    · have ho := onlyFirst_claim command r 1 q h.only
      exact ⟨h.boots, ⟨ho.cur, ho.rst2, ho.rst3, ho.press2, ho.press3, ho.flag2, ho.flag3⟩, l,
        hl.overwrite_one rfl rfl rfl rfl⟩
    · rw [hex] at hsome; cases hsome
  · rcases claim_cases h hc hn hq with ⟨hnone, -⟩ | ⟨-, hn4, hfree⟩
    · rw [hex] at hnone; cases hnone
    have hn1 : n ≠ 1 := by rcases hn4 with rfl | rfl | rfl <;> decide
    have hcur : s.curPid ≠ n.val := by
      rw [curPid_dirOf hm hm0]
      intro hmn
      have : m = n := Fin.ext (by exact_mod_cast hmn)
      subst this
      exact (hl.taken m hm0).2 (by rw [hlm]; simp) hfree
    have hpc : (if n = 1 ∨ n = 4 ∨ n = 5 ∨ n = 6 then s.pc + 1 else s.pc) = s.pc + 1 := if_pos (Or.inr hn4)
    have ho := onlyFirst_claim command r n q h.only
    rcases hend with ⟨-, rfl⟩ | ⟨eip, -, rfl⟩
    · refine ⟨h.boots, ⟨ho.cur, ho.rst2, ho.rst3, ho.press2, ho.press3, ho.flag2, ho.flag3⟩, n :: l,
        hl.push hn4 hfree rfl hpc rfl ?_ ?_⟩
      · show ((claim command r n q s).slots s.curPid).cr3 = s.cr3
        rw [claim_slots hn1, Function.update_self]
      · intro i hi _
        show (claim command r n q s).slots i = s.slots i
        rw [claim_slots hn1, Function.update_of_ne hi]
    · refine ⟨h.boots, ⟨ho.cur, ho.rst2, ho.rst3, rfl, rfl, ho.flag2, ho.flag3⟩, n :: l,
        hl.push hn4 hfree rfl hpc rfl ?_ ?_⟩
      · show (Function.update (claim command r n q s).slots (n.val : Int) _ s.curPid).cr3 = s.cr3
        rw [Function.update_of_ne hcur, claim_slots hn1, Function.update_self]
      · intro i hi hin
        show Function.update (claim command r n q s).slots (n.val : Int) _ i = s.slots i
        rw [Function.update_of_ne hin, claim_slots hn1, Function.update_of_ne hi]

/-! ## Exits and switches -/

/-- A stack with the shell of terminal 1 on top is that shell alone. -/
theorem Stack.eq_one {s : Kernel} {l : List Pid} {n : Pid} (h : Stack s l) (hn : s.cr3.pid = some n) (h3 : n.val ≤ 3) :
    n = 1 ∧ l = [1] := by
  obtain ⟨rest, rfl⟩ := h.top_pid hn
  have h1 : n = 1 := by
    rcases h.pids n (by simp) with h | h | h | h
    · exact h
    · subst h; simp at h3
    · subst h; simp at h3
    · subst h; simp at h3
  subst h1
  cases rest with
  | nil => exact ⟨rfl, rfl⟩
  | cons p l =>
    obtain ⟨hne, -⟩ := h.linked
    exact absurd rfl hne

/-- The shell of terminal 1 exits from the bottom of the stack: no program is left, nor counted. -/
theorem restartShell_empty {s : Kernel} (h : Stack s [1]) : (restartShell 1 s).pc = 0 ∧ (restartShell 1 s).live = 0 := by
  constructor
  · have hc := h.count
    show s.pc - 1 = 0
    have h1 : s.pc = 1 := UInt32.toNat_inj.1 hc
    rw [h1]; rfl
  · have hr := liveIn_release (n := 1) (by decide) h.taken_one
    have hl := h.live_eq
    rw [h.count] at hl
    unfold live at hl ⊢
    rw [hl] at hr
    exact Nat.succ.inj hr

/-- A program loaded under entry 1 with no other left is a stack of its own. -/
theorem Stack.single {s s' : Kernel} (hempty : ∀ n, n ≠ 0 → s.tasks n = 0) (hpc : s.pc = 0)
    (ht : s'.tasks = Function.update s.tasks 1 s.curPid) (hp : s'.pc = s.pc + 1) (hc : s'.cr3 = dirOf 1) :
    Stack s' [1] := by
  refine ⟨by simp, rfl, by simp, ?_, ?_, 1, [], rfl, hc⟩
  · intro k hk0
    by_cases hk : k = 1
    · subst hk
      rw [ht, Function.update_self]
      simp [curPid_ne_zero s]
    · rw [ht, Function.update_of_ne hk, hempty k hk0]
      simp [hk]
  · rw [hp, hpc]; rfl

theorem liveIn_zero {tasks : Pid → Int} (h : liveIn tasks = 0) (n : Pid) (hn : n ≠ 0) : tasks n = 0 := by
  unfold liveIn at h
  rw [Finset.card_eq_zero, Finset.filter_eq_empty_iff] at h
  by_contra ht
  exact h (Finset.mem_univ n) ⟨hn, ht⟩

/-- A shell started when nothing runs and nothing is counted. -/
theorem execute_first {r : Regs} {s s' : Kernel} {o : Outcome} (hb : Bootable img) (ho : OnlyFirst s) (hpc : s.pc = 0)
    (hl : s.live = 0) (he : execute img (some shell) r s = some (o, s')) : Counting img s' := by
  obtain ⟨q, inode, hq, hex⟩ := hb
  have hn : s.claimed shell = some 1 := by
    unfold claimed forced
    rw [if_pos hpc]; rfl
  have hof := onlyFirst_claim shell r 1 q ho
  rcases execute_cases he with ⟨hnone, -⟩ | ⟨n, q', hn', hq', ⟨hex', -⟩ | ⟨inode', d, fpos, hex', hend⟩⟩
  · rw [hn] at hnone; cases hnone
  · rw [hq] at hq'; cases hq'
    rw [hex] at hex'; cases hex'
  · rw [hq] at hq'; cases hq'
    rw [hn] at hn'; cases hn'
    rcases hend with ⟨-, rfl⟩ | ⟨eip, -, rfl⟩
    · exact ⟨⟨q, inode, hq, hex⟩, ⟨hof.cur, hof.rst2, hof.rst3, hof.press2, hof.press3, hof.flag2, hof.flag3⟩, [1],
        Stack.single (liveIn_zero hl) hpc rfl rfl rfl⟩
    · exact ⟨⟨q, inode, hq, hex⟩, ⟨hof.cur, hof.rst2, hof.rst3, rfl, rfl, hof.flag2, hof.flag3⟩, [1],
        Stack.single (liveIn_zero hl) hpc rfl rfl rfl⟩

/-- A shell forced by a press flag is not counted, or takes the place of the shell of terminal 1. -/
theorem pressed_not_counted {s : Kernel} (hb : Bootable img) (hpc : s.pc ≠ 0) (h1 : s.tasks 1 ≠ 0)
    (h23 : ∀ n : Pid, n = 2 ∨ n = 3 → s.tasks n = 0) (hpress : s.term2Press = true ∨ s.term3Press = true) :
    ¬ CountsClaim img shell s := by
  intro hc
  obtain ⟨q, inode, hq, hex⟩ := hb
  have hshell : isShell shell = true := by decide
  have hforced : s.forced shell = some 1 ∨ ∃ n : Pid, (n = 2 ∨ n = 3) ∧ s.forced shell = some n := by
    unfold forced
    rw [if_neg hpc, hshell]
    simp only [Bool.true_and]
    split
    · exact Or.inl rfl
    split
    · exact Or.inr ⟨2, Or.inl rfl, rfl⟩
    rename_i h2
    have h3 : s.term3Press = true := by
      rcases hpress with h | h
      · rw [h] at h2; simp at h2
      · exact h
    rw [h3]
    exact Or.inr ⟨3, Or.inr rfl, rfl⟩
  rcases hforced with hf | ⟨n, hn, hf⟩
  · have hcl : s.claimed shell = some 1 := by unfold claimed; rw [hf]; rfl
    exact h1 ((hc 1 q hcl hq).1 ⟨by rw [hex]; rfl, by decide, by decide⟩)
  · have hcl : s.claimed shell = some n := by unfold claimed; rw [hf]; rfl
    obtain ⟨-, hn2, hn3⟩ := (hc n q hcl hq).2 (h23 n hn)
    rcases hn with rfl | rfl
    · exact hn2 rfl
    · exact hn3 rfl

theorem switch_not_counted {s : Kernel} {k : UInt8} {r : Regs} {t : TermNum} (h : Counting img s)
    (ht : s.switchTo k = some t) : ¬ CountsClaim img shell (activate t (leftFor t r s)) := by
  obtain ⟨l, hl⟩ := h.stack
  apply pressed_not_counted h.boots
  · rw [activate_pc, leftFor_pc]
    exact hl.pc_ne_zero
  · rw [activate_tasks, leftFor_tasks]
    exact hl.taken_one
  · rw [activate_tasks, leftFor_tasks]
    exact fun n hn => hl.tasks_two hn
  · cases t with
    | t1 => exact absurd h.only.cur (switchTo_ne ht)
    | t2 => exact Or.inl (Bool.or_true s.term2Press)
    | t3 => exact Or.inr (Bool.or_true s.term3Press)

/-! ## Runs -/

/-- After the step the count is right. -/
def CountRight (img : Image) (s : Kernel) (op : Op) : Prop :=
  ∀ o s', step img s op = some (o, s') → s'.live = s'.pc.toNat

/-- Every `execute` the step makes counts what it takes. -/
def CountsCalls (img : Image) (s : Kernel) (op : Op) : Prop :=
  ∀ command r s0, s.call op = some (command, r, s0) → CountsClaim img command s0

/-- When `execute` is called the count is right, also after a shell's exit has lowered it. -/
theorem call_live {s s0 : Kernel} {op : Op} {command : CString} {r : Regs} (h : Counting img s)
    (hc : s.call op = some (command, r, s0)) : s0.live = s0.pc.toNat := by
  obtain ⟨l, hl⟩ := h.stack
  rcases call_cases hc with ⟨rfl, rfl⟩ | ⟨status, n, rfl, hp, h3, rfl, rfl⟩ | ⟨k, t, rfl, ht, hst, rfl, rfl⟩
  · exact hl.live_eq
  · obtain ⟨rfl, rfl⟩ := hl.eq_one hp h3
    obtain ⟨h0, h1⟩ := restartShell_empty hl
    rw [h0, h1]; rfl
  · rw [live, activate_tasks, leftFor_tasks, activate_pc, leftFor_pc]
    exact hl.live_eq

theorem call_counting {s s0 s' : Kernel} {op : Op} {command : CString} {r : Regs} {o : Outcome} (h : Counting img s)
    (hcall : s.call op = some (command, r, s0)) (hc : CountsClaim img command s0)
    (he : execute img (some command) r s0 = some (o, s')) : Counting img s' := by
  rcases call_cases hcall with ⟨rfl, rfl⟩ | ⟨status, n, rfl, hp, h3, rfl, rfl⟩ | ⟨k, t, rfl, ht, hst, rfl, rfl⟩
  · exact execute_counting h hc he
  · obtain ⟨l, hl⟩ := h.stack
    obtain ⟨rfl, rfl⟩ := hl.eq_one hp h3
    obtain ⟨h0, h1⟩ := restartShell_empty hl
    have ho : OnlyFirst (restartShell 1 s) :=
      ⟨h.only.cur, by show (s.term2Rst || _) = false; rw [h.only.rst2]; rfl,
        by show (s.term3Rst || _) = false; rw [h.only.rst3]; rfl, h.only.press2, h.only.press3, h.only.flag2,
        h.only.flag3⟩
    exact execute_first h.boots ho h0 h1 he
  · exact absurd hc (switch_not_counted h ht)

theorem step_counting {s : Kernel} {op : Op} {x : Outcome × Kernel} (h : Counting img s) (hc : CountsCalls img s op)
    (hs : step img s op = some x) : Counting img x.2 := by
  obtain ⟨o, s'⟩ := x
  rcases hcall : s.call op with _ | ⟨command, r, s0⟩
  · obtain ⟨l, hl⟩ := h.stack
    have ho := h.only
    rcases step_noCall hcall hs with hop | rfl | ⟨t, ht, rfl⟩ | ⟨con, textBuf, counter, entered, dev, rfl⟩ |
      ⟨k, r, t, -, ht, hst, rfl⟩ | ⟨status, r, n, -, hp, h3, rfl⟩
    · obtain ⟨p, fdIndex, fdVal, fdRtc, slots, con, dev, user, entered, rfl, hsl⟩ := fileCall_eq hop hs
      exact ⟨h.boots, ⟨ho.cur, ho.rst2, ho.rst3, ho.press2, ho.press3, ho.flag2, ho.flag3⟩, l,
        hl.frame rfl rfl rfl hsl⟩
    · exact h
    · rw [ho.cur] at ht
      subst ht
      exact ⟨h.boots, ⟨ho.cur, ho.rst2, ho.rst3, by show (s.term2Press || false) = false; rw [ho.press2]; rfl,
        by show (s.term3Press || false) = false; rw [ho.press3]; rfl, ho.flag2, ho.flag3⟩, l,
        hl.frame rfl rfl rfl fun _ _ => rfl⟩
    · exact ⟨h.boots, ⟨ho.cur, ho.rst2, ho.rst3, ho.press2, ho.press3, ho.flag2, ho.flag3⟩, l,
        hl.frame rfl rfl rfl fun _ _ => rfl⟩
    · -- no other terminal is started
      cases t with
      | t1 => exact absurd ho.cur (switchTo_ne ht)
      | t2 => exact absurd (hst.symm.trans ho.flag2) (by decide)
      | t3 => exact absurd (hst.symm.trans ho.flag3) (by decide)
    · obtain ⟨l', hl'⟩ := hl.pop hp h3
      obtain ⟨v, hv⟩ := haltProgram_eq n s
      refine ⟨h.boots, ?_, l', hl'⟩
      show OnlyFirst (haltProgram n s)
      rw [hv]
      exact ⟨ho.cur, ho.rst2, ho.rst3, ho.press2, ho.press3, ho.flag2, ho.flag3⟩
  · obtain ⟨o', he, -⟩ := step_call hcall hs
    exact call_counting h hcall (hc _ _ _ hcall) he

theorem countRight_iff {s : Kernel} (op : Op) (h : Counting img s) : CountRight img s op ↔ CountsCalls img s op := by
  constructor
  · intro hr command r s0 hcall n q hn hq
    -- the call returns, so the count after it can be read
    have hex : ∃ o s', execute img (some command) r s0 = some (o, s') := by
      rw [execute_claimed hn, hq]
      exact ⟨_, _, rfl⟩
    obtain ⟨o', s', he⟩ := hex
    obtain ⟨o, hs⟩ := call_step hcall he
    exact (execute_count_iff he (call_live h hcall)).1 (hr o s' hs) n q hn hq
  · intro hc o s' hs
    exact (step_counting h hc hs).live_eq

/-- The first shell: the count is right after it exactly when the image has a shell. -/
theorem boot_counting {r : Regs} {s' : Kernel} {o : Outcome} (hc : CountsCalls img boot (.execute (some shell) r))
    (h : execute img (some shell) r boot = some (o, s')) : Counting img s' := by
  have hn : boot.claimed shell = some 1 := by decide
  have hb : Bootable img := by
    rcases execute_cases h with ⟨hnone, -⟩ | ⟨n, q, hn', hq, -⟩
    · rw [hn] at hnone; cases hnone
    · obtain ⟨hex, -⟩ := (hc shell r boot rfl 1 q hn hq).2 (by decide)
      obtain ⟨inode, hi⟩ := Option.isSome_iff_exists.1 hex
      exact ⟨q, inode, hq, hi⟩
  exact execute_first hb ⟨rfl, rfl, rfl, rfl, rfl, rfl, rfl⟩ rfl (by decide) h

theorem boot_countRight_iff (img : Image) (r : Regs) :
    CountRight img boot (.execute (some shell) r) ↔ CountsCalls img boot (.execute (some shell) r) := by
  constructor
  · intro hr command r' s0 hcall n q hn hq
    cases hcall
    have hex : ∃ o s', execute img (some shell) r boot = some (o, s') := by
      rw [execute_claimed hn, hq]
      exact ⟨_, _, rfl⟩
    obtain ⟨o, s', he⟩ := hex
    exact (execute_count_iff he (by decide)).1 (hr o s' he) n q hn hq
  · intro hc o s' hs
    exact (boot_counting hc hs).live_eq

/-- In every run from boot on, `pc` is the number of live processes after every step exactly when
every `execute` on the way counts what it takes. -/
theorem count_run (img : Image) (r : Regs) (ops : List Op) :
    Along (step img) (CountRight img) boot (.execute (some shell) r :: ops) ↔
      Along (step img) (CountsCalls img) boot (.execute (some shell) r :: ops) := by
  have hiff : ∀ x, step img boot (.execute (some shell) r) = some x → CountsCalls img boot (.execute (some shell) r) →
      (Along (step img) (CountRight img) x.2 ops ↔ Along (step img) (CountsCalls img) x.2 ops) := by
    intro x hx hc
    exact along_iff (I := Counting img) (fun s op h => countRight_iff op h) (fun s op y h hq hy => step_counting h hq hy)
      (boot_counting hc hx)
  constructor
  · rintro ⟨hp, hr⟩
    have hc := (boot_countRight_iff img r).1 hp
    exact ⟨hc, fun x hx => (hiff x hx hc).1 (hr x hx)⟩
  · rintro ⟨hc, hr⟩
    exact ⟨(boot_countRight_iff img r).2 hc, fun x hx => (hiff x hx hc).2 (hr x hx)⟩

/-! ## The failing run -/

/-- Alt+F2 after boot starts a second shell: two processes are live, and one is counted. -/
theorem second_shell_not_counted :
    ∃ s s', execute .sample (some shell) ⟨0, 0⟩ boot = some (.enter 0, s) ∧
      step .sample s (.key 0xF6 ⟨0, 0⟩) = some (.enter 0, s') ∧ s'.live = 2 ∧ s'.pc = 1 ∧
      ¬ CountRight .sample s (.key 0xF6 ⟨0, 0⟩) := by
  have hstep : ((step .sample firstShell (.key 0xF6 ⟨0, 0⟩)).map fun x => (x.1, x.2.live, x.2.pc)) =
      some (.enter 0, 2, 1) := by decide +kernel
  obtain ⟨⟨o, s'⟩, hs, ho⟩ := Option.map_eq_some_iff.1 hstep
  simp only [Prod.mk.injEq] at ho
  obtain ⟨rfl, hl, hp⟩ := ho
  refine ⟨firstShell, s', execute_firstShell, hs, hl, hp, fun hr => ?_⟩
  have h := hr _ _ hs
  rw [hl, hp] at h
  cases h

end Kernel

end Os391
