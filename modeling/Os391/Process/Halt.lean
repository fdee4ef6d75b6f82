/-
What `halt` does for a program that is no terminal's shell: the close loop closes what is open among
the descriptors 2 to 7, and the registers of the caller come back from its PCB copy.
-/
import Os391.Process.Spec

namespace Os391

open Bytes

/-! ## The close loop -/

/-- The entry with the first four bytes of its name cleared. -/
def Dentry.clearHead (e : Dentry) : Dentry :=
  { e with fileName := fun j => if j.val < 4 then 0 else e.fileName j }

/-- A block with the descriptors of a set closed, when `open` looked last at entry `k`: the table
pointer of entry `k` is cleared if there are any. -/
def Pcb.closedOn (p : Pcb) (k : Nat) (S : Finset (Fin 8)) : Pcb :=
  { p with
    fileStruct := fun d =>
      { fopsPtr := if S.Nonempty ∧ d.val = k then none else (p.fileStruct d).fopsPtr
        fpos := if d ∈ S then 0 else (p.fileStruct d).fpos
        flags := if d ∈ S then 0 else (p.fileStruct d).flags }
    dentry := fun d =>
      if d ∈ S then .zero else if S.Nonempty ∧ 8 ≤ k ∧ d = 0 then (p.dentry d).clearHead else p.dentry d }

theorem Pcb.closedOn_empty (p : Pcb) (k : Nat) : p.closedOn k ∅ = p := by
  unfold Pcb.closedOn
  simp

theorem Pcb.closed_eq (p : Pcb) (k : Nat) (fd : Fin 8) (h2 : 2 ≤ fd.val) : p.closed fd k = p.closedOn k {fd} := by
  have h0 : (0 : Fin 8) ≠ fd := by rintro rfl; simp at h2
  unfold Pcb.closed Pcb.clearFops Pcb.closedOn Pcb.setDentry Pcb.setFile
  by_cases hk : k < 8
  · simp only [dif_pos hk]
    congr 1
    · funext d
      by_cases hd : d = fd
      · subst hd
        by_cases hdk : d.val = k
        · subst hdk; simp
        · have hne : d ≠ ⟨k, hk⟩ := fun h => hdk (by rw [h])
          simp [Function.update_of_ne hne, hdk]
      · by_cases hdk : d.val = k
        · subst hdk; simp [hd]
        · have hne : d ≠ ⟨k, hk⟩ := fun h => hdk (by rw [h])
          simp [Function.update_of_ne hne, hdk, hd]
    · funext d
      have hk8 : ¬ 8 ≤ k := by omega
      by_cases hd : d = fd
      · subst hd; simp
      · simp [hd, hk8]
  · simp only [dif_neg hk]
    have hk8 : 8 ≤ k := by omega
    congr 1
    · funext d
      have hdk : d.val ≠ k := by omega
      by_cases hd : d = fd
      · subst hd; simp [hdk]
      · simp [hd, hdk]
    · funext d
      by_cases hd : d = fd
      · subst hd; simp
      · by_cases hd0 : d = 0
        · subst hd0; simp [hd, hk8, Dentry.clearHead]
        · simp [hd, hd0]

theorem Dentry.clearHead_clearHead (e : Dentry) : e.clearHead.clearHead = e.clearHead := by
  unfold Dentry.clearHead
  congr 1
  funext j
  simp only
  split <;> rfl

/-- Closing one set after another. -/
theorem Pcb.closedOn_closedOn (p : Pcb) (k : Nat) (S T : Finset (Fin 8)) (h0 : (0 : Fin 8) ∉ S) :
    (p.closedOn k S).closedOn k T = p.closedOn k (S ∪ T) := by
  unfold Pcb.closedOn
  congr 1
  · funext d
    simp only [Finset.mem_union, Finset.union_nonempty]
    by_cases hS : d ∈ S <;> by_cases hT : d ∈ T <;> by_cases hk : d.val = k <;>
      by_cases hSn : S.Nonempty <;> by_cases hTn : T.Nonempty <;> simp [hS, hT, hk, hSn, hTn]
  · funext d
    simp only [Finset.mem_union, Finset.union_nonempty]
    by_cases hT : d ∈ T
    · simp [hT]
    by_cases hS : d ∈ S
    · have hd : d ≠ 0 := by rintro rfl; exact h0 hS
      simp [hT, hS, hd]
    · by_cases hk : 8 ≤ k ∧ d = 0
      · obtain ⟨hk8, rfl⟩ := hk
        by_cases hSn : S.Nonempty <;> by_cases hTn : T.Nonempty <;>
          simp [hS, hT, hk8, hSn, hTn, Dentry.clearHead_clearHead]
      · simp [hS, hT, hk]

/-- The open descriptors of a list. -/
def Pcb.openIn (p : Pcb) (ds : List (Fin 8)) : Finset (Fin 8) :=
  ds.toFinset.filter fun d => (p.fileStruct d).flags = 1

namespace Kernel

theorem openIn_closedOn (p : Pcb) (k : Nat) (d : Fin 8) (ds : List (Fin 8)) (h : (p.fileStruct d).flags = 1) :
    {d} ∪ (p.closedOn k {d}).openIn ds = p.openIn (d :: ds) := by
  ext e
  by_cases he : e = d
  · subst he; simp [Pcb.openIn, h]
  · simp [Pcb.openIn, Pcb.closedOn, he]

theorem openIn_of_closed (p : Pcb) (d : Fin 8) (ds : List (Fin 8)) (h : (p.fileStruct d).flags ≠ 1) :
    p.openIn ds = p.openIn (d :: ds) := by
  ext e
  by_cases he : e = d
  · subst he; simp [Pcb.openIn, h]
  · simp [Pcb.openIn, he]

/-- The close loop closes what is open. -/
theorem closeAt_foldl : ∀ (ds : List (Fin 8)) (s : Kernel), (∀ d ∈ ds, 2 ≤ d.val) →
    ∃ v, ds.foldl (fun s d => (closeAt d s).2) s =
      { s with pcblock := s.pcblock.closedOn s.fdIndex (s.pcblock.openIn ds), fdVal := v }
  | [], s, _ => by
    refine ⟨s.fdVal, ?_⟩
    show s = { s with pcblock := s.pcblock.closedOn s.fdIndex ∅ }
    rw [Pcb.closedOn_empty]
  | d :: ds, s, h => by
    have h2 : 2 ≤ d.val := h d (List.mem_cons_self ..)
    have hds : ∀ d ∈ ds, 2 ≤ d.val := fun d hd => h d (List.mem_cons_of_mem _ hd)
    have h0 : (0 : Fin 8) ∉ ({d} : Finset (Fin 8)) := by
      rw [Finset.mem_singleton]
      rintro rfl
      simp at h2
    simp only [List.foldl_cons]
    by_cases hf : (s.pcblock.fileStruct d).flags = 1
    · obtain ⟨v, hv⟩ := closeAt_open h2 hf
      obtain ⟨w, hw⟩ := closeAt_foldl ds { s with pcblock := s.pcblock.closed d s.fdIndex, fdVal := v } hds
      refine ⟨w, ?_⟩
      rw [hv, hw, ← openIn_closedOn _ s.fdIndex d ds hf, ← Pcb.closedOn_closedOn _ _ _ _ h0, ← Pcb.closed_eq _ _ _ h2]
    · rw [closeAt_closed hf, ← openIn_of_closed _ d ds hf]
      exact closeAt_foldl ds s hds

/-- The descriptors `halt` closes. -/
def haltFiles : List (Fin 8) := [2, 3, 4, 5, 6, 7]

theorem closeAll_eq (s : Kernel) :
    ∃ v, s.closeAll =
      { s with pcblock := s.pcblock.closedOn s.fdIndex (s.pcblock.openIn haltFiles), fdVal := v } :=
  closeAt_foldl haltFiles s (by decide)

/-- What `halt` does for a program that is no terminal's shell. The caller's block is not restored. -/
theorem haltProgram_eq (n : Pid) (s : Kernel) :
    ∃ v, haltProgram n s = { s with
      pc := s.pc - 1
      tasks := Function.update s.tasks n 0
      pcblock := s.pcblock.closedOn s.fdIndex (s.pcblock.openIn haltFiles)
      fdVal := v
      cr3 := (s.slots (s.tasks n)).cr3
      esp0 := stackTop (getPidFromCr3 (s.slots (s.tasks n)).cr3)
      regs := ⟨(s.slots (s.tasks n)).esp, (s.slots (s.tasks n)).ebp⟩ } := by
  obtain ⟨v, hv⟩ := closeAll_eq ({ s with pc := s.pc - 1, tasks := Function.update s.tasks n 0 } : Kernel)
  refine ⟨v, ?_⟩
  unfold haltProgram
  simp only [hv]
  rfl

theorem haltProgram_pcblock (n : Pid) (s : Kernel) :
    (haltProgram n s).pcblock = s.pcblock.closedOn s.fdIndex (s.pcblock.openIn haltFiles) := by
  obtain ⟨v, hv⟩ := haltProgram_eq n s
  rw [hv]

theorem haltProgram_frame (n : Pid) (s : Kernel) :
    (haltProgram n s).slots = s.slots ∧ (haltProgram n s).terminals = s.terminals ∧
      (haltProgram n s).curTerminal = s.curTerminal ∧ (haltProgram n s).term2Flag = s.term2Flag ∧
      (haltProgram n s).term3Flag = s.term3Flag ∧ (haltProgram n s).textBuf = s.textBuf ∧
      (haltProgram n s).counter = s.counter ∧ (haltProgram n s).fdIndex = s.fdIndex := by
  obtain ⟨v, hv⟩ := haltProgram_eq n s
  rw [hv]
  exact ⟨rfl, rfl, rfl, rfl, rfl, rfl, rfl, rfl⟩

end Kernel

end Os391
