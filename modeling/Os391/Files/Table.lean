/-
The descriptors of a process as a table of slots 2 to 7. From a program's start on, `open` and
`close` answer as the table does, as long as no `open` searches a full table past its end into a
name that does not read as zero there.
-/
import Os391.Base.Run
import Os391.Base.Slots
import Os391.Files.Frame
import Os391.Process.Spec

namespace Os391

open Bytes Machine Kernel

/-! ## The abstract table -/

/-- The slots a process can open. -/
def fileSlots : Finset (Fin 8) := Finset.univ.filter fun d => 2 ≤ d.val

/-- What is open: a directory entry for each occupied slot. -/
abbrev Descriptors := Slots.Table fileSlots Dentry

/-- The calls of the table. -/
inductive TableOp
  | open (filename : Option CString)
  | close (fd : Int)

/-- The system call. -/
def TableOp.toOp : TableOp → Op
  | .open filename => .open filename
  | .close fd => .close fd

namespace Descriptors

/-- `open`: the least free slot, when the name is there, found, and a slot is free. -/
def «open» (img : Image) (T : Descriptors) (filename : Option CString) : Int × Descriptors :=
  match filename.bind img.named with
  | none => (-1, T)
  | some e =>
    match T.take e with
    | none => (-1, T)
    | some (d, T') => (d.val, T')

theorem toNat_lt_eight {fd : Int} (h : 2 ≤ fd ∧ fd ≤ 7) : fd.toNat < 8 := by omega

/-- `close`: the slot freed, when it is one of the table and occupied. -/
def close (T : Descriptors) (fd : Int) : Int × Descriptors :=
  if h : 2 ≤ fd ∧ fd ≤ 7 then
    if T.entry ⟨fd.toNat, toNat_lt_eight h⟩ = none then (-1, T) else (0, T.drop ⟨fd.toNat, toNat_lt_eight h⟩)
  else (-1, T)

/-- One call. -/
def step (img : Image) (T : Descriptors) : TableOp → Int × Descriptors
  | .open filename => T.open img filename
  | .close fd => T.close fd

end Descriptors

/-! ## The simulation -/

/-- The flags say which slots are occupied. -/
def Shows (p : Pcb) (T : Descriptors) : Prop :=
  ∀ d : Fin 8, 2 ≤ d.val → (p.fileStruct d).flags = if T.entry d = none then 0 else 1

theorem Shows.free_iff {p : Pcb} {T : Descriptors} (h : Shows p T) {d : Fin 8} (hd : 2 ≤ d.val) :
    p.Free d ↔ T.entry d = none := by
  unfold Pcb.Free
  rw [h d hd]
  split <;> simp_all

theorem mem_fileSlots {d : Fin 8} : d ∈ fileSlots ↔ 2 ≤ d.val := by
  simp [fileSlots]

theorem Shows.isLeast {p : Pcb} {T : Descriptors} (h : Shows p T) {d : Fin 8} (hl : p.LeastFree d) :
    IsLeast {x | x ∈ fileSlots ∧ T.entry x = none} d := by
  refine ⟨⟨mem_fileSlots.2 hl.1, (h.free_iff hl.1).1 hl.2.1⟩, ?_⟩
  rintro x ⟨hx, he⟩
  have h2 := mem_fileSlots.1 hx
  by_contra hlt
  exact hl.2.2 x h2 (not_le.1 hlt) ((h.free_iff h2).2 he)

theorem Shows.full {p : Pcb} {T : Descriptors} (h : Shows p T) (hf : p.Full) :
    ∀ d ∈ fileSlots, T.entry d ≠ none := by
  intro d hd he
  have h2 := mem_fileSlots.1 hd
  exact hf d h2 ((h.free_iff h2).2 he)

/-- A descriptor's flags set or cleared, as its slot is filled or dropped. -/
theorem Shows.update {p p' : Pcb} {T T' : Descriptors} {k : Fin 8} (h : Shows p T)
    (hk : (p'.fileStruct k).flags = if T'.entry k = none then 0 else 1)
    (hp : ∀ d, d ≠ k → (p'.fileStruct d).flags = (p.fileStruct d).flags)
    (hT : ∀ d, d ≠ k → T'.entry d = T.entry d) : Shows p' T' := by
  intro d hd
  by_cases hdk : d = k
  · subst hdk; exact hk
  · rw [hp d hdk, hT d hdk]; exact h d hd

theorem opened_flags (p : Pcb) (fd v : Fin 8) (e : Dentry) :
    ((p.opened fd v e).fileStruct fd).flags = 1 ∧
    ∀ d, d ≠ fd → ((p.opened fd v e).fileStruct d).flags = (p.fileStruct d).flags := by
  unfold Pcb.opened Pcb.setFile Pcb.setDentry openedFile
  refine ⟨?_, fun d hd => ?_⟩
  · simp only [Function.update_self]; split <;> rfl
  · simp only [Function.update_of_ne hd]

/-- A call returns what the table returns, and when that is `-1` it leaves `pcblock` alone. -/
def Agrees (img : Image) (x : Kernel × Descriptors) (op : TableOp) : Prop :=
  ∃ s', step img x.1 op.toOp = some (.ret (x.2.step img op).1, s') ∧
    ((x.2.step img op).1 = -1 → s'.pcblock = x.1.pcblock)

/-- The search of an `open` stops: with the table full, the word it reads past the end is zero. -/
def SearchStops (x : Kernel × Descriptors) : TableOp → Prop
  | .open (some _) => x.1.pcblock.Full → x.1.pcblock.pastEnd = 0
  | _ => True

instance : ∀ x op, Decidable (SearchStops x op)
  | x, .open (some _) => inferInstanceAs (Decidable (x.1.pcblock.Full → x.1.pcblock.pastEnd = 0))
  | _, .open none => isTrue trivial
  | _, .close _ => isTrue trivial

/-- The kernel and the table side by side. -/
def tableStep (img : Image) (x : Kernel × Descriptors) (op : TableOp) : Option (Outcome × (Kernel × Descriptors)) :=
  (step img x.1 op.toOp).map fun r => (r.1, (r.2, (x.2.step img op).2))

/-- The state after a call that agrees shows the table after it. -/
def Simulates (img : Image) (x : Kernel × Descriptors) (op : TableOp) : Prop :=
  ∃ s', step img x.1 op.toOp = some (.ret (x.2.step img op).1, s') ∧
    ((x.2.step img op).1 = -1 → s'.pcblock = x.1.pcblock) ∧ Shows s'.pcblock (x.2.step img op).2

theorem open_simulates {img : Image} {s : Kernel} {T : Descriptors} (filename : Option CString)
    (h : Shows s.pcblock T) (hq : SearchStops (s, T) (.open filename)) : Simulates img (s, T) (.open filename) := by
  unfold Simulates
  simp only [TableOp.toOp, Descriptors.step, Descriptors.open, step]
  cases filename with
  | none => exact ⟨_, rfl, fun _ => rfl, h⟩
  | some name =>
    simp only [Option.bind_some]
    rcases sysOpen_cases img name s with ⟨fd, hl, ho⟩ | ⟨hf, -, ho⟩ | ⟨hf, h8, -⟩
    · rw [ho]
      rcases hn : img.named name with _ | e
      · rw [openAt_missing hn hl.2.1]
        exact ⟨_, rfl, fun _ => rfl, h⟩
      · obtain ⟨rtc, dev, hop⟩ := openAt_named fd s hn
        have ht := Slots.Table.take_of_isLeast e (h.isLeast hl)
        have hfl := opened_flags s.pcblock fd s.fdVal e
        rw [hop]
        simp only [ht]
        refine ⟨_, rfl, fun hv => by omega, ?_⟩
        apply h.update (k := fd)
        · rw [Slots.Table.put_entry e (mem_fileSlots.2 hl.1), Function.update_self]
          exact hfl.1
        · exact hfl.2
        · intro d hd
          rw [Slots.Table.put_entry e (mem_fileSlots.2 hl.1), Function.update_of_ne hd]
    · -- the table is full: the kernel says so before it looks at the name
      have ht : ∀ e, T.take e = none := fun e => Slots.Table.take_of_full e (h.full hf)
      rw [ho]
      rcases img.named name with _ | e
      · exact ⟨_, rfl, fun _ => rfl, h⟩
      · simp only [ht]
        exact ⟨_, rfl, fun _ => rfl, h⟩
    · exact absurd (hq hf) h8

theorem close_simulates {img : Image} {s : Kernel} {T : Descriptors} (fd : Int) (h : Shows s.pcblock T) :
    Simulates img (s, T) (.close fd) := by
  unfold Simulates
  simp only [TableOp.toOp, Descriptors.step, Descriptors.close, step]
  rcases sysClose_cases fd s with ⟨k, rfl, h2, hf, v, hcl⟩ | ⟨hcl', hcl⟩
  · have hr : (2 : Int) ≤ k.val ∧ (k.val : Int) ≤ 7 := ⟨by omega, by omega⟩
    have hT : T.entry k ≠ none := by
      intro he
      have := h k h2
      rw [if_pos he, hf] at this
      cases this
    rw [hcl, dif_pos hr]
    simp only [Int.toNat_natCast, Fin.eta, if_neg hT]
    refine ⟨_, rfl, fun hv => by omega, ?_⟩
    apply h.update (k := k)
    · rw [Pcb.closed_flags]; simp
    · intro d hd; rw [Pcb.closed_flags, if_neg hd]
    · intro d hd; simp [Function.update_of_ne hd]
  · rw [hcl]
    have hm : (if h : 2 ≤ fd ∧ fd ≤ 7 then
        if T.entry ⟨fd.toNat, by omega⟩ = none then ((-1 : Int), T) else (0, T.drop ⟨fd.toNat, by omega⟩)
        else (-1, T)) = (-1, T) := by
      split
      · rename_i hr
        have hne := hcl' ⟨fd.toNat, by omega⟩ (by simp; omega) (by simp; omega)
        rw [h _ (by simp; omega)] at hne
        split
        · rfl
        · rename_i he
          rw [if_neg he] at hne
          exact absurd rfl hne
      · rfl
    rw [hm]
    exact ⟨_, rfl, fun _ => rfl, h⟩

theorem step_simulates (img : Image) {x : Kernel × Descriptors} (op : TableOp) (h : Shows x.1.pcblock x.2)
    (hq : SearchStops x op) : Simulates img x op := by
  obtain ⟨s, T⟩ := x
  cases op with
  | «open» filename => exact open_simulates filename h hq
  | close fd => exact close_simulates fd h

theorem agrees_iff {img : Image} {x : Kernel × Descriptors} (op : TableOp) (h : Shows x.1.pcblock x.2) :
    Agrees img x op ↔ SearchStops x op := by
  constructor
  · rintro ⟨s', hs, -⟩
    cases op with
    | «open» filename =>
      cases filename with
      | none => trivial
      | some name =>
        intro hf
        rcases sysOpen_cases img name x.1 with ⟨fd, hl, -⟩ | ⟨-, h8, -⟩ | ⟨-, -, ho⟩
        · exact absurd hf hl.not_full
        · exact h8
        · simp only [TableOp.toOp, step, ho] at hs
          cases hs
    | close fd => trivial
  · intro hq
    obtain ⟨s', hs, hp, -⟩ := step_simulates img op h hq
    exact ⟨s', hs, hp⟩

theorem tableStep_shows {img : Image} (x : Kernel × Descriptors) (op : TableOp) (r : Outcome × (Kernel × Descriptors))
    (h : Shows x.1.pcblock x.2) (hq : SearchStops x op) (hr : tableStep img x op = some r) :
    Shows r.2.1.pcblock r.2.2 := by
  obtain ⟨s', hs, -, hsh⟩ := step_simulates img op h hq
  unfold tableStep at hr
  rw [hs] at hr
  cases hr
  exact hsh

/-- A new program starts with the empty table. -/
theorem execute_shows {img : Image} {command : CString} {r : Regs} {s s' : Kernel} {eip : UInt32}
    (h : execute img (some command) r s = some (.enter eip, s')) : Shows s'.pcblock .empty := by
  obtain ⟨n, q, inode, d, fpos, -, -, -, rfl⟩ := execute_entered h
  intro k hk
  have hk2 : ¬ k.val < 2 := by omega
  simp [enterProgram, freshFiles, Slots.Table.empty, hk2]

/-- Whatever ran before, from a program's start on its `open` and `close` calls agree with the table
exactly as long as every search of a full table finds a zero past its end. -/
theorem descriptors_agree (img : Image) (command : CString) (r : Regs) (s s' : Kernel) (eip : UInt32)
    (h : execute img (some command) r s = some (.enter eip, s')) (ops : List TableOp) :
    Along (tableStep img) (Agrees img) (s', .empty) ops ↔ Along (tableStep img) SearchStops (s', .empty) ops :=
  along_iff (I := fun x => Shows x.1.pcblock x.2) (fun _ op h => agrees_iff op h)
    (fun x op r h hq hr => tableStep_shows x op r h hq hr) (execute_shows h)

/-- The first shell opens a text, closes it and opens another one. -/
theorem descriptors_agree_firstShell :
    Along (tableStep .sample) (Agrees .sample) (firstShell, .empty)
      [.open (some frame0), .close 2, .open (some frame1), .close 7] :=
  (descriptors_agree .sample shell ⟨0, 0⟩ boot firstShell 0 execute_firstShell _).2 (by decide +kernel)

/-- The name `verylargetxtwithverylongname.tx`. -/
def longFile : CString := ⟨Image.longName, by decide⟩

/-- With a file of a long name open six times, the seventh `open` finds no end of the table: the name
stands in `dentry[0]`, which the first `open` filled too. The table answers `-1`. -/
theorem seventh_open_misses_the_end :
    ∃ x, execute .sample (some shell) ⟨0, 0⟩ boot = some (.enter 0, firstShell) ∧
      run (tableStep .sample) (firstShell, .empty) (List.replicate 6 (.open (some longFile))) = some x ∧
      (x.2.step .sample (.open (some longFile))).1 = -1 ∧
      (step .sample x.1 (.open (some longFile))).isSome = false ∧ ¬ Agrees .sample x (.open (some longFile)) := by
  have hnone : (step .sample ((run (tableStep .sample) (firstShell, .empty)
      (List.replicate 6 (.open (some longFile)))).getD (firstShell, .empty)).1 (.open (some longFile))).isSome = false := by
    decide +kernel
  refine ⟨_, execute_firstShell, run_getD (by decide +kernel), by decide +kernel, hnone, ?_⟩
  rintro ⟨s', hs, -⟩
  simp only [TableOp.toOp] at hs
  rw [hs] at hnone
  cases hnone

end Os391
