/-
The operation tables of open descriptors. `close` clears the table pointer of `fd_index`, `open`
stores its entry for `fd_val` too, and a switch pairs saved descriptors with whatever the PCB copy
holds; while none of these hits another open descriptor, every open descriptor has the table of its
kind.
-/
import Os391.Files.Frame
import Os391.Files.Table
import Os391.Terminal.Spec

namespace Os391

open Bytes Machine Kernel

/-! ## Kinds -/

/-- The table a descriptor should use: the terminal for 0 and 1, and by the type of its entry for the
others. -/
def kind (d : Fin 8) (e : Dentry) : Fops :=
  if d.val < 2 then .terminalFops else if e.fileType = 0 then .rtcFops else .filesystemFops

/-- Every open descriptor has the table of its kind. -/
def Pcb.KindOk (p : Pcb) : Prop :=
  ∀ d, (p.fileStruct d).flags = 1 → (p.fileStruct d).fopsPtr = some (kind d (p.dentry d))

/-- None of the descriptors 2 to 7 is open. -/
def NoFiles (f : Fin 8 → FileStruct) : Prop := ∀ d : Fin 8, 2 ≤ d.val → (f d).flags ≠ 1

/-- The same flags, table pointers and entries. -/
def SameKinds (p q : Pcb) : Prop :=
  ∀ d, (p.fileStruct d).flags = (q.fileStruct d).flags ∧ (p.fileStruct d).fopsPtr = (q.fileStruct d).fopsPtr ∧
    p.dentry d = q.dentry d

/-- The table of a program that has just started. -/
def Fresh (f : Fin 8 → FileStruct) : Prop :=
  ∀ d, if d.val < 2 then (f d).flags = 1 ∧ (f d).fopsPtr = some .terminalFops else (f d).flags = 0

theorem SameKinds.trans {p q q' : Pcb} (h : SameKinds p q) (h' : SameKinds q q') : SameKinds p q' := fun d =>
  ⟨(h d).1.trans (h' d).1, (h d).2.1.trans (h' d).2.1, (h d).2.2.trans (h' d).2.2⟩

/-- A position is no matter of kind. -/
theorem sameKinds_setFpos (p : Pcb) (d : Fin 8) (v : UInt32) :
    SameKinds (p.setFile d fun f => { f with fpos := v }) p := by
  intro k
  unfold Pcb.setFile
  by_cases hkd : k = d
  · subst hkd; simp
  · simp [Function.update_of_ne hkd]

theorem SameKinds.kindOk {p q : Pcb} (h : SameKinds p q) (hq : q.KindOk) : p.KindOk := by
  intro d hd
  obtain ⟨h1, h2, h3⟩ := h d
  rw [h1] at hd
  rw [h2, h3]
  exact hq d hd

theorem SameKinds.noFiles {p q : Pcb} (h : SameKinds p q) (hq : NoFiles q.fileStruct) : NoFiles p.fileStruct := by
  intro d hd
  rw [(h d).1]
  exact hq d hd

theorem Fresh.kindOk {p : Pcb} (h : Fresh p.fileStruct) : p.KindOk := by
  intro d hd
  have hf := h d
  unfold kind
  split at hf
  · rename_i h2
    rw [if_pos h2]
    exact hf.2
  · rw [hf] at hd; cases hd

theorem Fresh.noFiles {f : Fin 8 → FileStruct} (h : Fresh f) : NoFiles f := by
  intro d hd h1
  have hf := h d
  rw [if_neg (by omega), h1] at hf
  cases hf

theorem freshFiles_fresh (f : Fin 8 → FileStruct) : Fresh (freshFiles f) := by
  intro d
  unfold freshFiles
  by_cases h : d.val < 2 <;> simp [h]

/-! ## execute and halt -/

/-- What `execute` leaves: the caller's table, or a fresh one; and each PCB copy is the old one, or one
of these. -/
theorem execute_tables {img : Image} {command : CString} {r : Regs} {s s' : Kernel} {o : Outcome}
    (h : execute img (some command) r s = some (o, s')) :
    s'.fdIndex = s.fdIndex ∧ s'.terminals = s.terminals ∧
    (SameKinds s'.pcblock s.pcblock ∨ Fresh s'.pcblock.fileStruct) ∧
    ∀ i, s'.slots i = s.slots i ∨ SameKinds (s'.slots i) s.pcblock ∨ Fresh (s'.slots i).fileStruct := by
  have hclaim : ∀ n q, SameKinds (claim command r n q s).pcblock s.pcblock := fun n q d => ⟨rfl, rfl, rfl⟩
  have hslots : ∀ n q i, (claim command r n q s).slots i = s.slots i ∨
      SameKinds ((claim command r n q s).slots i) s.pcblock := by
    intro n q i
    by_cases hn : n = 1
    · left
      subst hn; rfl
    · rw [claim_slots hn]
      by_cases hi : i = s.curPid
      · right
        rw [hi, Function.update_self]
        exact fun d => ⟨rfl, rfl, rfl⟩
      · left
        rw [Function.update_of_ne hi]
  rcases execute_cases h with ⟨-, -, con, dev, rfl⟩ | ⟨n, q, -, -, ⟨-, -, d, rfl⟩ | ⟨inode, d, fpos, -, hend⟩⟩
  · rw [choosePid_eq]
    exact ⟨rfl, rfl, Or.inl (fun d => ⟨rfl, rfl, rfl⟩), fun i => Or.inl rfl⟩
  · refine ⟨rfl, rfl, Or.inl (hclaim n q), fun i => ?_⟩
    rcases hslots n q i with h | h
    · exact Or.inl h
    · exact Or.inr (Or.inl h)
  · rcases hend with ⟨-, rfl⟩ | ⟨eip, -, rfl⟩
    · refine ⟨rfl, rfl, Or.inl ?_, fun i => ?_⟩
      · rcases fpos with _ | v
        · exact hclaim n q
        · exact (sameKinds_setFpos _ _ v).trans (hclaim n q)
      · rcases hslots n q i with h | h
        · exact Or.inl h
        · exact Or.inr (Or.inl h)
    · refine ⟨rfl, rfl, Or.inr (freshFiles_fresh _), fun i => ?_⟩
      by_cases hi : i = n.val
      · right; right
        subst hi
        show Fresh (Function.update (claim command r n q s).slots (n.val : Int) _ (n.val : Int)).fileStruct
        rw [Function.update_self]
        exact freshFiles_fresh _
      · have hs : ∀ p, Function.update (claim command r n q s).slots (n.val : Int) p i =
            (claim command r n q s).slots i := fun p => Function.update_of_ne hi _ _
        rcases hslots n q i with h | h
        · exact Or.inl ((hs _).trans h)
        · right; left
          show SameKinds (Function.update (claim command r n q s).slots (n.val : Int) _ i) s.pcblock
          rw [hs]
          exact h

/-! ## The invariant -/

/-- Every open descriptor of `pcblock` and of every PCB copy has the table of its kind; and as long as
`open` has not set `fd_index`, no file is open anywhere. -/
structure Kinds (s : Kernel) : Prop where
  block : s.pcblock.KindOk
  copies : ∀ i, (s.slots i).KindOk
  index : 2 ≤ s.fdIndex ∨ (NoFiles s.pcblock.fileStruct ∧ (∀ i, NoFiles (s.slots i).fileStruct) ∧
    ∀ t, NoFiles (s.terminals t).fileStruct)

theorem boot_kinds : Kinds boot := by
  have hz : NoFiles Pcb.zero.fileStruct := by
    intro d _ h
    cases h
  have hk : Pcb.zero.KindOk := by
    intro d h
    cases h
  exact ⟨hk, fun _ => hk, Or.inr ⟨hz, fun _ => hz, fun _ => hz⟩⟩

/-- A call of `execute` keeps the invariant. -/
theorem execute_kinds {img : Image} {command : CString} {r : Regs} {s s' : Kernel} {o : Outcome} (hk : Kinds s)
    (h : execute img (some command) r s = some (o, s')) : Kinds s' := by
  obtain ⟨hi, ht, hb, hs⟩ := execute_tables h
  refine ⟨?_, fun i => ?_, ?_⟩
  · rcases hb with hb | hb
    · exact hb.kindOk hk.block
    · exact hb.kindOk
  · rcases hs i with h | h | h
    · rw [h]; exact hk.copies i
    · exact h.kindOk hk.block
    · exact h.kindOk
  · rw [hi, ht]
    rcases hk.index with h2 | ⟨h1, h2, h3⟩
    · exact Or.inl h2
    · refine Or.inr ⟨?_, fun i => ?_, h3⟩
      · rcases hb with hb | hb
        · exact hb.noFiles h1
        · exact hb.noFiles
      · rcases hs i with h | h | h
        · rw [h]; exact h2 i
        · exact h.noFiles h1
        · exact h.noFiles

/-- Back from a program, all files are closed. -/
theorem haltProgram_kinds {s : Kernel} (hk : Kinds s) (n : Pid) : Kinds (haltProgram n s) := by
  obtain ⟨hslots, hterm, -, -, -, -, -, hidx⟩ := haltProgram_frame n s
  have hp := haltProgram_pcblock n s
  have hdesc : ∀ d ∈ haltFiles.toFinset, 2 ≤ d.val := by decide
  have hrest : ∀ d : Fin 8, d ∉ haltFiles → d.val < 2 := by decide
  -- with no file open there is nothing to close
  have hnone : NoFiles s.pcblock.fileStruct → (haltProgram n s).pcblock = s.pcblock := by
    intro h
    have hempty : s.pcblock.openIn haltFiles = ∅ := Finset.filter_eq_empty_iff.2 fun d hd => h d (hdesc d hd)
    rw [hp, hempty, Pcb.closedOn_empty]
  refine ⟨?_, fun i => by rw [hslots]; exact hk.copies i, ?_⟩
  · rcases hk.index with h2 | ⟨h1, -, -⟩
    · rw [hp]
      intro d hd
      have hopen : d ∉ s.pcblock.openIn haltFiles := by
        intro h
        simp [Pcb.closedOn, h] at hd
      have hf : (s.pcblock.fileStruct d).flags = 1 := by simpa [Pcb.closedOn, hopen] using hd
      have hd2 : d.val < 2 := hrest d fun h => hopen (Finset.mem_filter.2 ⟨List.mem_toFinset.2 h, hf⟩)
      have hne : d.val ≠ s.fdIndex := by omega
      simp only [Pcb.closedOn, hne, and_false, if_false]
      rw [hk.block d hf]
      unfold kind
      rw [if_pos hd2, if_pos hd2]
    · rw [hnone h1]
      exact hk.block
  · rw [hslots, hterm, hidx]
    rcases hk.index with h2 | ⟨h1, h2, h3⟩
    · exact Or.inl h2
    · rw [hnone h1]
      exact Or.inr ⟨h1, h2, h3⟩

/-! ## The three conditions -/

/-- What a step must not do to the kinds. A `close` of an open descriptor has `fd_index` on it, past
the table, or on one that is not open; an `open` has `fd_val` on the descriptor handed out, on one
that is not an open file, or on one of the kind of the entry found; and a switch finds, for each
descriptor saved as open, the PCB copy open with the same table. -/
def SparesKinds (img : Image) (s : Kernel) : Op → Prop
  | .close fd => ∀ d : Fin 8, fd = d.val → 2 ≤ d.val → (s.pcblock.fileStruct d).flags = 1 →
      s.fdIndex = d.val ∨ 8 ≤ s.fdIndex ∨ ∀ k : Fin 8, k.val = s.fdIndex → (s.pcblock.fileStruct k).flags ≠ 1
  | .open (some name) => ∀ fd, s.pcblock.LeastFree fd → ∀ e ∈ img.named name,
      s.fdVal = fd ∨ s.fdVal.val < 2 ∨ (s.pcblock.fileStruct s.fdVal).flags ≠ 1 ∨
      (e.fileType = 0 ↔ (s.pcblock.dentry s.fdVal).fileType = 0)
  | .key k _ => ∀ t ∈ s.switchTo k, s.started t = true → ∀ d,
      ((s.terminals t).fileStruct d).flags = 1 →
      ((s.slots (getPidFromCr3 (s.terminals t).cr3)).fileStruct d).flags = 1 ∧
      ((s.slots (getPidFromCr3 (s.terminals t).cr3)).fileStruct d).fopsPtr = ((s.terminals t).fileStruct d).fopsPtr
  | _ => True

instance (img : Image) (s : Kernel) : ∀ op, Decidable (SparesKinds img s op)
  | .close fd => inferInstanceAs (Decidable (∀ d : Fin 8, fd = d.val → _ ≤ _ → _ = _ → _ ∨ _ ∨ ∀ _ : Fin 8, _ → _))
  | .open (some name) => inferInstanceAs (Decidable (∀ fd, s.pcblock.LeastFree fd → ∀ e ∈ img.named name, _ ∨ _ ∨ _ ∨ _))
  | .key k _ => inferInstanceAs (Decidable (∀ t ∈ s.switchTo k, s.started t = true → ∀ _, _ = _ → _ ∧ _))
  | .open none | .execute .. | .halt .. | .read .. | .write .. | .getargs .. | .vidmap .. | .setHandler
  | .sigreturn => isTrue trivial

theorem opened_kindOk {p : Pcb} {fd v : Fin 8} {e : Dentry} (hp : p.KindOk) (h2 : 2 ≤ fd.val)
    (hc : v = fd ∨ v.val < 2 ∨ (p.fileStruct v).flags ≠ 1 ∨ (e.fileType = 0 ↔ (p.dentry v).fileType = 0)) :
    (p.opened fd v e).KindOk := by
  intro d hd
  unfold Pcb.opened Pcb.setFile Pcb.setDentry at hd ⊢
  simp only at hd ⊢
  by_cases hdf : d = fd
  · -- the descriptor handed out
    subst hdf
    have hent : (Function.update (Function.update p.dentry d ((p.dentry d).withHead e)) v
        ((Function.update p.dentry d ((p.dentry d).withHead e) v).withHead e) d).fileType = e.fileType := by
      by_cases hv : d = v
      · subst hv; simp
      · rw [Function.update_of_ne hv]; simp
    have hd2 : ¬ d.val < 2 := by omega
    rw [Function.update_self]
    unfold kind openedFile
    rw [if_neg hd2, hent]
    split <;> rfl
  · rw [Function.update_of_ne hdf] at hd ⊢
    rw [hp d hd]
    by_cases hdv : d = v
    · -- the descriptor `fd_val` is on
      subst hdv
      rw [Function.update_self]
      unfold kind
      by_cases hd2 : d.val < 2
      · rw [if_pos hd2, if_pos hd2]
      · rw [if_neg hd2, if_neg hd2, Dentry.withHead_fileType]
        have hiff : e.fileType = 0 ↔ (p.dentry d).fileType = 0 := by
          rcases hc with h | h | h | h
          · exact absurd h hdf
          · exact absurd h hd2
          · exact absurd hd h
          · exact h
        by_cases he : e.fileType = 0
        · rw [if_pos he, if_pos (hiff.1 he)]
        · rw [if_neg he, if_neg fun h => he (hiff.2 h)]
    · rw [Function.update_of_ne hdv, Function.update_of_ne hdf]

theorem open_kinds {img : Image} {name : CString} {s s' : Kernel} {v : Int} (hk : Kinds s)
    (hc : SparesKinds img s (.open (some name))) (h : sysOpen img (some name) s = some (v, s')) : Kinds s' := by
  have hcopies : ∀ {p : Pcb}, p.KindOk → ∀ i, (Function.update s.slots s.findPid p i).KindOk := by
    intro p hp i
    by_cases hi : i = s.findPid
    · rw [hi, Function.update_self]; exact hp
    · rw [Function.update_of_ne hi]; exact hk.copies i
  rcases sysOpen_cases img name s with ⟨fd, hl, ho⟩ | ⟨-, -, ho⟩ | ⟨-, -, ho⟩ <;> rw [ho] at h
  · rcases hn : img.named name with _ | e
    · rw [openAt_missing hn hl.2.1] at h
      cases h
      exact ⟨hk.block, hcopies hk.block, Or.inl hl.1⟩
    · obtain ⟨rtc, dev, hop⟩ := openAt_named fd s hn
      rw [hop] at h
      cases h
      have hp := opened_kindOk hk.block hl.1 (hc fd hl e hn)
      exact ⟨hp, hcopies hp, Or.inl hl.1⟩
  · cases h
    exact ⟨hk.block, hk.copies, Or.inl (show 2 ≤ 8 by decide)⟩
  · cases h

theorem close_kinds {img : Image} {fd : Int} {s : Kernel} (hk : Kinds s) (hc : SparesKinds img s (.close fd)) :
    Kinds (sysClose fd s).2 := by
  rcases sysClose_cases fd s with ⟨k, rfl, h2, hf, v, hcl⟩ | ⟨-, hcl⟩ <;> rw [hcl]
  · have hfi : 2 ≤ s.fdIndex := by
      rcases hk.index with h | ⟨h, -, -⟩
      · exact h
      · exact absurd hf (h k h2)
    refine ⟨fun d hd => ?_, hk.copies, Or.inl hfi⟩
    have hflags : ((s.pcblock.closed k s.fdIndex).fileStruct d).flags = 1 := hd
    show ((s.pcblock.closed k s.fdIndex).fileStruct d).fopsPtr = some (kind d ((s.pcblock.closed k s.fdIndex).dentry d))
    rw [Pcb.closed_flags] at hflags
    have hdk : d ≠ k := by
      rintro rfl
      rw [if_pos rfl] at hflags
      cases hflags
    rw [if_neg hdk] at hflags
    have hne : d.val ≠ s.fdIndex := by
      intro hd
      rcases hc k rfl h2 hf with h | h | h
      · exact hdk (Fin.ext (hd.trans h))
      · omega
      · exact h d hd hflags
    rw [Pcb.closed_fopsPtr, if_neg hne, hk.block d hflags]
    congr 1
    unfold kind
    by_cases hd2 : d.val < 2
    · rw [if_pos hd2, if_pos hd2]
    · rw [if_neg hd2, if_neg hd2, Pcb.closed_dentry _ _ _ _ hdk (Or.inl (by rintro rfl; simp at hd2))]
  · exact hk

/-- A switch saves the descriptors of a PCB copy. -/
theorem leftFor_noFiles {s : Kernel} (t : TermNum) (r : Regs) (hs : ∀ i, NoFiles (s.slots i).fileStruct)
    (ht : ∀ u, NoFiles (s.terminals u).fileStruct) (u : TermNum) : NoFiles ((leftFor t r s).terminals u).fileStruct := by
  show NoFiles (Function.update s.terminals s.curTerminal _ u).fileStruct
  by_cases hu : u = s.curTerminal
  · rw [hu, Function.update_self]; exact hs _
  · rw [Function.update_of_ne hu]; exact ht u

theorem switch_kinds {img : Image} {s : Kernel} {k : UInt8} {r : Regs} {t : TermNum} (hk : Kinds s)
    (hc : SparesKinds img s (.key k r)) (ht : s.switchTo k = some t) (hst : s.started t = true) :
    Kinds (enterTerminal t (leftFor t r s)) := by
  have hne : t ≠ s.curTerminal := fun h => switchTo_ne ht h.symm
  have hterm : (leftFor t r s).terminals t = s.terminals t := Function.update_of_ne hne _ _
  have hp : (enterTerminal t (leftFor t r s)).pcblock =
      { s.slots (getPidFromCr3 (s.terminals t).cr3) with fileStruct := (s.terminals t).fileStruct } := by
    show ({ s.slots (getPidFromCr3 ((leftFor t r s).terminals t).cr3) with
      fileStruct := ((leftFor t r s).terminals t).fileStruct } : Pcb) = _
    rw [hterm]
  refine ⟨?_, ?_, ?_⟩
  · rw [hp]
    intro d hd
    obtain ⟨h1, h2⟩ := hc t ht hst d hd
    show ((s.terminals t).fileStruct d).fopsPtr = _
    rw [← h2]
    exact hk.copies _ d h1
  · rw [enterTerminal_slots, leftFor_slots]
    exact hk.copies
  · rw [enterTerminal_fdIndex, leftFor_fdIndex, enterTerminal_slots, leftFor_slots, enterTerminal_terminals, hp]
    rcases hk.index with h | ⟨h1, h2, h3⟩
    · exact Or.inl h
    · exact Or.inr ⟨h3 t, h2, leftFor_noFiles t r h2 h3⟩

/-! ## Runs -/

/-- After the step every open descriptor has the table of its kind, and a `close` has changed the table
of no other open descriptor. -/
def KindsKept (img : Image) (s : Kernel) (op : Op) : Prop :=
  ∀ o s', step img s op = some (o, s') → s'.pcblock.KindOk ∧
    ∀ fd, op = .close fd → ∀ d : Fin 8, fd ≠ d.val → (s.pcblock.fileStruct d).flags = 1 →
      (s'.pcblock.fileStruct d).fopsPtr = (s.pcblock.fileStruct d).fopsPtr

theorem call_kinds {s s0 : Kernel} {op : Op} {command : CString} {r : Regs} (hk : Kinds s)
    (hc : s.call op = some (command, r, s0)) : Kinds s0 := by
  rcases call_cases hc with ⟨rfl, rfl⟩ | ⟨status, n, rfl, -, -, rfl, rfl⟩ | ⟨k, t, rfl, -, -, rfl, rfl⟩
  · exact hk
  · exact ⟨hk.block, hk.copies, hk.index⟩
  · refine ⟨?_, ?_, ?_⟩
    · rw [activate_pcblock, leftFor_pcblock]
      exact hk.block
    · rw [activate_slots, leftFor_slots]
      exact hk.copies
    · rw [activate_fdIndex, leftFor_fdIndex, activate_pcblock, leftFor_pcblock, activate_slots, leftFor_slots,
        activate_terminals]
      exact hk.index.imp id fun ⟨h1, h2, h3⟩ => ⟨h1, h2, leftFor_noFiles t r h2 h3⟩

theorem fileCall_kinds {img : Image} {s s' : Kernel} {op : Op} {o : Outcome} (hk : Kinds s)
    (hc : SparesKinds img s op) (hop : op.isFile = true) (hs : step img s op = some (o, s')) : Kinds s' := by
  cases op with
  | execute | halt | key => cases hop
  | read fd buf nbytes =>
    obtain ⟨d, v, fdVal, user, entered, dev, rfl⟩ := sysRead_eq hs
    have hsame := sameKinds_setFpos s.pcblock d v
    refine ⟨hsame.kindOk hk.block, hk.copies, ?_⟩
    rcases hk.index with h | ⟨h1, h2, h3⟩
    · exact Or.inl h
    · exact Or.inr ⟨hsame.noFiles h1, h2, h3⟩
  | write fd buf nbytes =>
    obtain ⟨con, dev, rfl⟩ := sysWrite_eq hs
    exact ⟨hk.block, hk.copies, hk.index⟩
  | «open» filename =>
    obtain ⟨⟨v, s1⟩, h1, h2⟩ := Option.map_eq_some_iff.1 hs
    cases h2
    cases filename with
    | none => cases h1; exact ⟨hk.block, hk.copies, Or.inl (le_refl 2)⟩
    | some name => exact open_kinds hk hc h1
  | close fd => cases hs; exact close_kinds hk hc
  | getargs buf nbytes =>
    obtain ⟨⟨v, s1⟩, h1, h2⟩ := Option.map_eq_some_iff.1 hs
    cases h2
    obtain ⟨user, rfl⟩ := getargs_eq h1
    exact ⟨hk.block, hk.copies, hk.index⟩
  | vidmap screenStart =>
    cases hs
    obtain ⟨user, hv⟩ := vidmap_eq screenStart s
    rw [hv]
    exact ⟨hk.block, hk.copies, hk.index⟩
  | setHandler | sigreturn => cases hs; exact hk

theorem step_kinds {img : Image} {s : Kernel} {op : Op} {x : Outcome × Kernel} (hk : Kinds s)
    (hc : SparesKinds img s op) (hs : step img s op = some x) : Kinds x.2 := by
  obtain ⟨o, s'⟩ := x
  rcases hcall : s.call op with _ | ⟨command, r, s0⟩
  · rcases step_noCall hcall hs with hop | rfl | ⟨t, -, rfl⟩ | ⟨con, textBuf, counter, entered, dev, rfl⟩ |
      ⟨k, r, t, rfl, ht, hst, rfl⟩ | ⟨status, r, n, -, -, -, rfl⟩
    · exact fileCall_kinds hk hc hop hs
    · exact hk
    · exact ⟨hk.block, hk.copies, hk.index⟩
    · exact ⟨hk.block, hk.copies, hk.index⟩
    · exact switch_kinds hk hc ht hst
    · exact haltProgram_kinds hk n
  · obtain ⟨o', he, -⟩ := step_call hcall hs
    exact execute_kinds (call_kinds hk hcall) he

/-- A `close` that spares the kinds keeps the tables of the other open descriptors. -/
theorem close_keeps_tables {img : Image} {fd : Int} {s : Kernel} (hk : Kinds s) (hc : SparesKinds img s (.close fd))
    {d : Fin 8} (hd : fd ≠ d.val) (hf : (s.pcblock.fileStruct d).flags = 1) :
    ((sysClose fd s).2.pcblock.fileStruct d).fopsPtr = (s.pcblock.fileStruct d).fopsPtr := by
  rcases sysClose_cases fd s with ⟨k, rfl, -, -, v, hcl⟩ | ⟨-, hcl⟩
  · have hflags : ((sysClose (k.val : Int) s).2.pcblock.fileStruct d).flags = 1 := by
      rw [hcl]
      show ((s.pcblock.closed k s.fdIndex).fileStruct d).flags = 1
      rw [Pcb.closed_flags, if_neg (fun h => hd (by rw [h]))]
      exact hf
    have hne : d.val ≠ s.fdIndex := by
      intro h
      have hnone : ((sysClose (k.val : Int) s).2.pcblock.fileStruct d).fopsPtr = none := by
        rw [hcl]
        show ((s.pcblock.closed k s.fdIndex).fileStruct d).fopsPtr = none
        rw [Pcb.closed_fopsPtr, if_pos h]
      rw [(close_kinds hk hc).block d hflags] at hnone
      cases hnone
    rw [hcl]
    show ((s.pcblock.closed k s.fdIndex).fileStruct d).fopsPtr = _
    rw [Pcb.closed_fopsPtr, if_neg hne]
  · rw [hcl]

/-- From boot on, in every run whose steps all spare the kinds, every open descriptor has the table of
its kind after every step. -/
theorem kinds_run (img : Image) (ops : List Op) (h : Along (step img) (SparesKinds img) boot ops) :
    Along (step img) (KindsKept img) boot ops :=
  along_mono (I := Kinds)
    (fun s op hk hc o s' hs => ⟨(step_kinds hk hc hs).block, fun fd hop d hd hf => by
      subst hop
      cases hs
      exact close_keeps_tables hk hc hd hf⟩)
    (fun s op x hk hc hs => step_kinds hk hc hs) boot_kinds h

/-- The first shell opens a text, reads it, closes it and opens another one, and the user switches to a
second shell and back. -/
theorem kinds_run_switch :
    Along (step .sample) (KindsKept .sample) boot
      [.execute (some shell) ⟨0, 0⟩, .open (some frame0), .read 2 0x08050000 1, .close 2, .open (some frame1),
        .key 0xF6 ⟨0, 0⟩, .key 0xF5 ⟨0, 0⟩] :=
  kinds_run .sample _ (by decide +kernel)

/-! ## The failing run -/

/-- The first shell opens `frame0.txt` as 2 and `frame1.txt` as 3. -/
def openBoth : List Op := [.execute (some shell) ⟨0, 0⟩, .open (some frame0), .open (some frame1)]

/-- Closing 2 leaves 3 open with a `NULL` table. -/
theorem close_clears_other_table :
    ∃ s, run (step .sample) boot openBoth = some s ∧
      ((sysClose 2 s).2.pcblock.fileStruct 3).flags = 1 ∧ ((sysClose 2 s).2.pcblock.fileStruct 3).fopsPtr = none ∧
      ¬ KindsKept .sample s (.close 2) := by
  have hf : ((sysClose 2 ((run (step .sample) boot openBoth).getD boot)).2.pcblock.fileStruct 3).flags = 1 := by
    decide +kernel
  have hn : ((sysClose 2 ((run (step .sample) boot openBoth).getD boot)).2.pcblock.fileStruct 3).fopsPtr = none := by
    decide +kernel
  refine ⟨_, run_getD (by decide +kernel), hf, hn, fun hk => ?_⟩
  have h3 := (hk _ _ rfl).1 3 hf
  rw [hn] at h3
  cases h3

end Os391
