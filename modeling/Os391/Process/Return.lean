/-
What a program finds in `pcblock` when a child it has started exits. `execute` saves the block to the caller's copy, but
`halt` takes only the registers from there: the caller gets the one block back as the child has left it. It is the
caller's own again when everything in between was put back: nothing of the caller's open, the same arguments, and no
store that goes to a descriptor the caller has in use.
-/
import Os391.Files.Frame
import Os391.Process.Pids
import Os391.Process.Staging

namespace Os391

open Bytes Machine

/-! ## A block on loan -/

/-- A descriptor as `close` leaves it: free, at position 0 and with a zero entry. -/
def Pcb.AtRest (p : Pcb) (d : Fin 8) : Prop := (p.fileStruct d).flags = 0 ∧ (p.fileStruct d).fpos = 0 ∧ p.dentry d = .zero

instance (p : Pcb) (d : Fin 8) : Decidable (p.AtRest d) := inferInstanceAs (Decidable (_ ∧ _))

/-- Only the terminal is open. -/
structure Pcb.Lendable (p : Pcb) : Prop where
  std : ∀ d : Fin 8, d.val < 2 → (p.fileStruct d).flags = 1 ∧ (p.fileStruct d).fopsPtr = some .terminalFops
  free : ∀ d : Fin 8, 2 ≤ d.val → p.Free d

/-- The block `q` of a child of the process with block `p`, when `open` looked last at entry `k` and the descriptors `g`,
which are at rest in `p`, are taken. The arguments are the caller's; what is open is taken; what is not taken has the
caller's position and entry; and the table pointers are the caller's, but for that of the open descriptor `k`, which a
`close` will clear. -/
structure Pcb.Lent (p q : Pcb) (k : Nat) (g : Finset (Fin 8)) : Prop where
  args : q.argName = p.argName ∧ q.dataArgSize = p.dataArgSize
  rest : ∀ d ∈ g, p.AtRest d
  std : ∀ d : Fin 8, d.val < 2 → (q.fileStruct d).flags = 1
  used : ∀ d : Fin 8, 2 ≤ d.val → q.Free d ∨ (q.fileStruct d).flags = 1 ∧ d ∈ g
  kept : ∀ d ∉ g, (q.fileStruct d).fpos = (p.fileStruct d).fpos ∧ q.dentry d = p.dentry d
  tables : ∀ d, (q.fileStruct d).fopsPtr = (p.fileStruct d).fopsPtr ∨
    d.val = k ∧ (q.fileStruct d).flags = 1 ∧ (p.fileStruct d).fopsPtr = none

instance (p q : Pcb) (k : Nat) (g : Finset (Fin 8)) : Decidable (p.Lent q k g) :=
  decidable_of_iff ((q.argName = p.argName ∧ q.dataArgSize = p.dataArgSize) ∧ (∀ d ∈ g, p.AtRest d) ∧
      (∀ d : Fin 8, d.val < 2 → (q.fileStruct d).flags = 1) ∧
      (∀ d : Fin 8, 2 ≤ d.val → q.Free d ∨ (q.fileStruct d).flags = 1 ∧ d ∈ g) ∧
      (∀ d, d ∉ g → (q.fileStruct d).fpos = (p.fileStruct d).fpos ∧ q.dentry d = p.dentry d) ∧
      ∀ d, (q.fileStruct d).fopsPtr = (p.fileStruct d).fopsPtr ∨
        d.val = k ∧ (q.fileStruct d).flags = 1 ∧ (p.fileStruct d).fopsPtr = none)
    ⟨fun h => ⟨h.1, h.2.1, h.2.2.1, h.2.2.2.1, h.2.2.2.2.1, h.2.2.2.2.2⟩,
      fun h => ⟨h.args, h.rest, h.std, h.used, h.kept, h.tables⟩⟩

/-- The descriptors at rest in the caller's block that are not so in another one. -/
def Pcb.taken (p q : Pcb) : Finset (Fin 8) := Finset.univ.filter fun d => p.AtRest d ∧ ¬ q.AtRest d

/-- The table pointer of entry `k` is the caller's. -/
def Pcb.TableKept (p q : Pcb) (k : Nat) : Prop := ∀ d : Fin 8, d.val = k → (q.fileStruct d).fopsPtr = (p.fileStruct d).fopsPtr

instance (p q : Pcb) (k : Nat) : Decidable (p.TableKept q k) := inferInstanceAs (Decidable (∀ _, _ → _))

/-- A `close` that clears the table pointer of entry `k` clears none of the caller's; past the table, its entry 0 has
nothing to clear. -/
def Pcb.Clearable (p : Pcb) (k : Nat) : Prop :=
  (∀ d : Fin 8, d.val = k → (p.fileStruct d).fopsPtr = none) ∧ (8 ≤ k → (p.dentry 0).clearHead = p.dentry 0)

instance (p : Pcb) (k : Nat) : Decidable (p.Clearable k) := inferInstanceAs (Decidable (_ ∧ _))

/-- An `open` of entry `e` as descriptor `fd` stores where the caller's block is at rest, a table pointer that is the
caller's or that a `close` clears, and with `fd_val` on `v` nothing else that lasts. -/
structure Pcb.Opens (p : Pcb) (fd v : Fin 8) (e : Dentry) : Prop where
  rest : p.AtRest fd
  table : (p.fileStruct fd).fopsPtr = none ∨ (openedFile e (p.fileStruct fd)).fopsPtr = (p.fileStruct fd).fopsPtr
  stray : p.AtRest v ∨ (p.dentry v).withHead e = p.dentry v

instance (p : Pcb) (fd v : Fin 8) (e : Dentry) : Decidable (p.Opens fd v e) :=
  decidable_of_iff (p.AtRest fd ∧
      ((p.fileStruct fd).fopsPtr = none ∨ (openedFile e (p.fileStruct fd)).fopsPtr = (p.fileStruct fd).fopsPtr) ∧
      (p.AtRest v ∨ (p.dentry v).withHead e = p.dentry v))
    ⟨fun h => ⟨h.1, h.2.1, h.2.2⟩, fun h => ⟨h.rest, h.table, h.stray⟩⟩

namespace Pcb

variable {p q : Pcb} {k : Nat} {g : Finset (Fin 8)}

theorem Lendable.lent (hp : p.Lendable) : p.Lent p k ∅ where
  args := ⟨rfl, rfl⟩
  rest _ hd := absurd hd (Finset.notMem_empty _)
  std d hd := (hp.std d hd).1
  used d hd := Or.inl (hp.free d hd)
  kept _ _ := ⟨rfl, rfl⟩
  tables _ := Or.inl rfl

theorem Lendable.two_le {d : Fin 8} (hp : p.Lendable) (h : p.AtRest d) : 2 ≤ d.val := by
  by_contra hd
  have h1 := (hp.std d (not_le.1 hd)).1
  rw [h.1] at h1
  cases h1

/-- Only the table and the arguments matter. -/
theorem Lent.congr {q' : Pcb} (h : p.Lent q k g) (hf : q'.fileStruct = q.fileStruct) (hd : q'.dentry = q.dentry)
    (ha : q'.argName = p.argName ∧ q'.dataArgSize = p.dataArgSize) : p.Lent q' k g := by
  obtain ⟨-, hrest, hstd, hused, hkept, htables⟩ := h
  refine ⟨ha, hrest, ?_, ?_, ?_, ?_⟩
  all_goals simp only [Free, hf, hd]
  · exact hstd
  · exact hused
  · exact hkept
  · exact htables

/-- More descriptors are taken. -/
theorem Lent.take (h : p.Lent q k g) {more : Finset (Fin 8)} (hmore : ∀ d ∈ more, p.AtRest d) : p.Lent q k (g ∪ more) where
  args := h.args
  rest d hd := (Finset.mem_union.1 hd).elim (h.rest d) (hmore d)
  std := h.std
  used d hd := (h.used d hd).imp_right fun hu => ⟨hu.1, Finset.mem_union_left _ hu.2⟩
  kept d hd := h.kept d fun hg => hd (Finset.mem_union_left _ hg)
  tables := h.tables

/-- `open` looks at another entry. -/
theorem Lent.move (h : p.Lent q k g) {k' : Nat} (hk : k' ≠ k → p.TableKept q k) : p.Lent q k' g := by
  refine ⟨h.args, h.rest, h.std, h.used, h.kept, fun d => ?_⟩
  by_cases hkk : k' = k
  · subst hkk
    exact h.tables d
  · rcases h.tables d with hd | ⟨hd, -, -⟩
    · exact Or.inl hd
    · exact Or.inl (hk hkk d hd)

theorem setFpos_fileStruct (q : Pcb) (d e : Fin 8) (v : UInt32) :
    (q.setFile d fun f => { f with fpos := v }).fileStruct e =
      if e = d then { q.fileStruct e with fpos := v } else q.fileStruct e := by
  by_cases he : e = d
  · subst he
    rw [if_pos rfl]
    exact Function.update_self ..
  · rw [if_neg he]
    exact Function.update_of_ne he ..

theorem setFpos_flags (q : Pcb) (d e : Fin 8) (v : UInt32) :
    ((q.setFile d fun f => { f with fpos := v }).fileStruct e).flags = (q.fileStruct e).flags := by
  rw [setFpos_fileStruct]
  split <;> rfl

theorem setFpos_fopsPtr (q : Pcb) (d e : Fin 8) (v : UInt32) :
    ((q.setFile d fun f => { f with fpos := v }).fileStruct e).fopsPtr = (q.fileStruct e).fopsPtr := by
  rw [setFpos_fileStruct]
  split <;> rfl

/-- A position stored for a descriptor that is taken, or the caller's own. -/
theorem Lent.setFpos (h : p.Lent q k g) {d : Fin 8} {v : UInt32} (hd : d ∈ g ∨ (p.fileStruct d).fpos = v) :
    p.Lent (q.setFile d fun f => { f with fpos := v }) k g := by
  refine ⟨h.args, h.rest, fun e he => ?_, fun e he => ?_, fun e he => ⟨?_, (h.kept e he).2⟩, fun e => ?_⟩
  · rw [setFpos_flags]
    exact h.std e he
  · unfold Free
    rw [setFpos_flags]
    exact h.used e he
  · rw [setFpos_fileStruct]
    split
    · rename_i hed
      subst hed
      exact (hd.resolve_left he).symm
    · exact (h.kept e he).1
  · rw [setFpos_fopsPtr, setFpos_flags]
    exact h.tables e

/-- `execute` marks the descriptors of a new program free. -/
theorem Lent.fresh (hp : p.Lendable) (h : p.Lent q k g) (hk : p.TableKept q k) :
    p.Lent { q with fileStruct := Kernel.freshFiles q.fileStruct } k g := by
  have hlow : ∀ d : Fin 8, d.val < 2 → Kernel.freshFiles q.fileStruct d =
      { q.fileStruct d with flags := 1, fopsPtr := some .terminalFops } := fun d hd => if_pos hd
  have hhigh : ∀ d : Fin 8, 2 ≤ d.val → Kernel.freshFiles q.fileStruct d = { q.fileStruct d with flags := 0 } :=
    fun d hd => if_neg (not_lt.2 hd)
  have hfpos : ∀ d, (Kernel.freshFiles q.fileStruct d).fpos = (q.fileStruct d).fpos := by
    intro d
    unfold Kernel.freshFiles
    split <;> rfl
  refine ⟨h.args, h.rest, fun d hd => ?_, fun d hd => Or.inl ?_,
    fun d hd => ⟨(hfpos d).trans (h.kept d hd).1, (h.kept d hd).2⟩, fun d => Or.inl ?_⟩
  · show (Kernel.freshFiles q.fileStruct d).flags = 1
    rw [hlow d hd]
  · show (Kernel.freshFiles q.fileStruct d).flags = 0
    rw [hhigh d hd]
  · show (Kernel.freshFiles q.fileStruct d).fopsPtr = _
    by_cases hd : d.val < 2
    · rw [hlow d hd, (hp.std d hd).2]
    · rw [hhigh d (not_lt.1 hd)]
      rcases h.tables d with ht | ⟨ht, -, -⟩
      · exact ht
      · exact hk d ht

/-- A file is opened as a descriptor that is taken. -/
theorem Lent.opened (h : p.Lent q k g) {fd v : Fin 8} {e : Dentry} (hfd : 2 ≤ fd.val) (hg : fd ∈ g)
    (hv : v ∈ g ∨ (p.dentry v).withHead e = p.dentry v) (hk : fd.val ≠ k → p.TableKept q k) (ho : p.Opens fd v e) :
    p.Lent (q.opened fd v e) fd.val g := by
  have hfile : ∀ d, d ≠ fd → (q.opened fd v e).fileStruct d = q.fileStruct d := fun d hd =>
    Function.update_of_ne hd ..
  have hself : (q.opened fd v e).fileStruct fd = openedFile e (q.fileStruct fd) := Function.update_self ..
  have hflags : (openedFile e (q.fileStruct fd)).flags = 1 := by
    unfold openedFile
    split <;> rfl
  have hfops : (openedFile e (q.fileStruct fd)).fopsPtr = (openedFile e (p.fileStruct fd)).fopsPtr := by
    unfold openedFile
    split <;> rfl
  refine ⟨h.args, h.rest, fun d hd => ?_, fun d hd => ?_, fun d hd => ?_, fun d => ?_⟩
  · have hne : d ≠ fd := fun hdf => by rw [hdf] at hd; omega
    rw [hfile d hne]
    exact h.std d hd
  · by_cases hdf : d = fd
    · subst hdf
      rw [hself]
      exact Or.inr ⟨hflags, hg⟩
    · unfold Free
      rw [hfile d hdf]
      exact h.used d hd
  · have hne : d ≠ fd := by
      rintro rfl
      exact hd hg
    refine ⟨by rw [hfile d hne]; exact (h.kept d hd).1, ?_⟩
    show Function.update (Function.update q.dentry fd _) v _ d = p.dentry d
    by_cases hdv : d = v
    · subst hdv
      rw [Function.update_self]
      show (Function.update q.dentry fd _ d).withHead e = _
      rw [Function.update_of_ne hne, (h.kept d hd).2]
      exact hv.resolve_left hd
    · rw [Function.update_of_ne hdv, Function.update_of_ne hne]
      exact (h.kept d hd).2
  · by_cases hdf : d = fd
    · subst hdf
      rw [hself, hfops]
      rcases ho.table with ht | ht
      · exact Or.inr ⟨rfl, hflags, ht⟩
      · exact Or.inl ht
    · rw [hfile d hdf]
      rcases h.tables d with ht | ⟨ht, -, -⟩
      · exact Or.inl ht
      · exact Or.inl (hk (fun hfk => hdf (Fin.ext (ht.trans hfk.symm))) d ht)

/-- A set of open descriptors closed: they are as the caller left them. -/
theorem Lent.closedOn (h : p.Lent q k g) {S : Finset (Fin 8)} (hS : ∀ d ∈ S, 2 ≤ d.val ∧ (q.fileStruct d).flags = 1)
    (hk : S.Nonempty → p.Clearable k) : p.Lent (q.closedOn k S) k (g \ S) := by
  have hflags : ∀ d, d ∉ S → ((q.closedOn k S).fileStruct d).flags = (q.fileStruct d).flags := fun d hd => if_neg hd
  have hrest : ∀ d ∈ S, p.AtRest d := by
    intro d hd
    obtain ⟨h2, h1⟩ := hS d hd
    rcases h.used d h2 with hfree | ⟨-, hg⟩
    · have h0 : (q.fileStruct d).flags = 0 := hfree
      rw [h1] at h0
      cases h0
    · exact h.rest d hg
  refine ⟨h.args, fun d hd => h.rest d (Finset.mem_sdiff.1 hd).1, fun d hd => ?_, fun d hd => ?_, fun d hd => ?_,
    fun d => ?_⟩
  · have hdS : d ∉ S := fun hmem => absurd (hS d hmem).1 (not_le.2 hd)
    rw [hflags d hdS]
    exact h.std d hd
  · by_cases hdS : d ∈ S
    · exact Or.inl (if_pos hdS)
    · unfold Free
      rw [hflags d hdS, Finset.mem_sdiff, and_iff_left hdS]
      exact h.used d hd
  · by_cases hdS : d ∈ S
    · -- what `close` leaves is what was at rest
      obtain ⟨-, hfpos, hdent⟩ := hrest d hdS
      exact ⟨(if_pos hdS).trans hfpos.symm, (if_pos hdS).trans hdent.symm⟩
    · obtain ⟨hfpos, hdent⟩ := h.kept d fun hg => hd (Finset.mem_sdiff.2 ⟨hg, hdS⟩)
      refine ⟨(if_neg hdS).trans hfpos, ?_⟩
      show (if d ∈ S then _ else if S.Nonempty ∧ 8 ≤ k ∧ d = 0 then (q.dentry d).clearHead else q.dentry d) = _
      rw [if_neg hdS, hdent]
      split
      · rename_i hcl
        obtain ⟨hne, h8, rfl⟩ := hcl
        exact (hk hne).2 h8
      · rfl
  · show (if S.Nonempty ∧ d.val = k then none else (q.fileStruct d).fopsPtr) = _ ∨ _
    by_cases hne : S.Nonempty
    · refine Or.inl ?_
      by_cases hdk : d.val = k
      · rw [if_pos ⟨hne, hdk⟩, (hk hne).1 d hdk]
      · rw [if_neg fun hc => hdk hc.2]
        exact (h.tables d).resolve_right fun ht => hdk ht.1
    · rw [if_neg fun hc => hne hc.1, hflags d fun hd => hne ⟨d, hd⟩]
      exact h.tables d

theorem openIn_spec {d : Fin 8} (hd : d ∈ q.openIn Kernel.haltFiles) : 2 ≤ d.val ∧ (q.fileStruct d).flags = 1 := by
  have hall : ∀ d ∈ Kernel.haltFiles.toFinset, 2 ≤ (d : Fin 8).val := by decide
  obtain ⟨hmem, hf⟩ := Finset.mem_filter.1 hd
  exact ⟨hall d hmem, hf⟩

/-- With nothing taken and all closed, the caller has its block. -/
theorem Lent.same (hp : p.Lendable) (h : p.Lent q k ∅) : SameFiles p q := by
  have hfree : ∀ d : Fin 8, 2 ≤ d.val → (q.fileStruct d).flags = 0 := fun d hd =>
    (h.used d hd).resolve_right fun hu => Finset.notMem_empty d hu.2
  have hkept := fun d => h.kept d (Finset.notMem_empty d)
  refine ⟨funext fun d => ?_, funext fun d => (hkept d).2, h.args.1, h.args.2⟩
  ext1
  · refine (h.tables d).resolve_right ?_
    rintro ⟨-, h1, hnone⟩
    by_cases hd : 2 ≤ d.val
    · rw [hfree d hd] at h1
      cases h1
    · rw [(hp.std d (not_le.1 hd)).2] at hnone
      cases hnone
  · exact (hkept d).1
  · by_cases hd : 2 ≤ d.val
    · rw [hfree d hd]
      exact (hp.free d hd).symm
    · rw [h.std d (not_le.1 hd), (hp.std d (not_le.1 hd)).1]

/-- When `halt` closes all that is taken, the caller has its block back. -/
theorem Lent.returned (hp : p.Lendable) (h : p.Lent q k g) (hg : ∀ d ∈ g, ¬ q.Free d)
    (hk : (q.openIn Kernel.haltFiles).Nonempty → p.Clearable k) :
    SameFiles p (q.closedOn k (q.openIn Kernel.haltFiles)) := by
  have hmem : ∀ d : Fin 8, 2 ≤ d.val → d ∈ Kernel.haltFiles.toFinset := by decide
  have hsub : g ⊆ q.openIn Kernel.haltFiles := by
    intro d hd
    have h2 := hp.two_le (h.rest d hd)
    exact Finset.mem_filter.2 ⟨hmem d h2, ((h.used d h2).resolve_left (hg d hd)).1⟩
  have hl := h.closedOn (S := q.openIn Kernel.haltFiles) (fun d hd => openIn_spec hd) hk
  rw [Finset.sdiff_eq_empty_iff_subset.2 hsub] at hl
  exact hl.same hp

end Pcb

namespace Kernel

variable {img : Image} {p : Pcb} {g : Finset (Fin 8)}

/-! ## One call -/

/-- What an `execute` must find: the command has the caller's arguments; and where its file is accepted, the table
pointer of `fd_index` is the caller's, and the position that the read of the file stores for `fd_val` is so too, or goes
to a descriptor at rest. -/
def LoadsFor (img : Image) (p : Pcb) (command : CString) (s : Kernel) : Prop :=
  ∀ n ∈ s.claimed command, ∀ q ∈ words command, (q.argName = p.argName ∧ q.dataArgSize = p.dataArgSize) ∧
    ∀ inode ∈ img.executable q.cmdView, p.TableKept s.pcblock s.fdIndex ∧
      ∀ v ∈ img.loadPosition inode, p.AtRest s.fdVal ∨ (p.fileStruct s.fdVal).fpos = v

instance (img : Image) (p : Pcb) (command : CString) (s : Kernel) : Decidable (LoadsFor img p command s) :=
  -- the inodes and positions are looked up, not tried out
  have : ∀ inode, Decidable (∀ v ∈ img.loadPosition inode, p.AtRest s.fdVal ∨ (p.fileStruct s.fdVal).fpos = v) :=
    fun _ => Option.decidableForallMem _
  have : ∀ q : Pcb, Decidable (∀ inode ∈ img.executable q.cmdView, p.TableKept s.pcblock s.fdIndex ∧
      ∀ v ∈ img.loadPosition inode, p.AtRest s.fdVal ∨ (p.fileStruct s.fdVal).fpos = v) :=
    fun _ => Option.decidableForallMem _
  inferInstanceAs (Decidable (∀ n ∈ s.claimed command, ∀ q ∈ words command,
    (q.argName = p.argName ∧ q.dataArgSize = p.dataArgSize) ∧
      ∀ inode ∈ img.executable q.cmdView, p.TableKept s.pcblock s.fdIndex ∧
        ∀ v ∈ img.loadPosition inode, p.AtRest s.fdVal ∨ (p.fileStruct s.fdVal).fpos = v))

/-- A call that leaves the block on loan to a child of the process with block `p`. -/
def KeepsCall (img : Image) (p : Pcb) (s : Kernel) (op : Op) : Prop :=
  (∀ x ∈ s.call op, LoadsFor img p x.1 x.2.2) ∧
  match op with
  | .halt _ _ => ∀ n ∈ s.cr3.pid, 3 < n.val → (s.pcblock.openIn haltFiles).Nonempty → p.Clearable s.fdIndex
  | .close fd => ∀ d : Fin 8, fd = d.val → 2 ≤ d.val → (s.pcblock.fileStruct d).flags = 1 → p.Clearable s.fdIndex
  | .open none => s.fdIndex ≠ 2 → p.TableKept s.pcblock s.fdIndex
  | .open (some name) => p.TableKept s.pcblock s.fdIndex ∧
      ∀ fd, s.pcblock.LeastFree fd → ∀ e ∈ img.named name, p.Opens fd s.fdVal e
  | _ => True

instance (img : Image) (p : Pcb) (s : Kernel) (op : Op) : Decidable (KeepsCall img p s op) :=
  match op with
  | .halt _ _ => inferInstanceAs (Decidable (_ ∧ ∀ n ∈ s.cr3.pid, _ → _ → _))
  | .close _ => inferInstanceAs (Decidable (_ ∧ ∀ _ : Fin 8, _ → _ → _ → _))
  | .open none => inferInstanceAs (Decidable (_ ∧ (_ → _)))
  | .open (some name) => inferInstanceAs (Decidable (_ ∧ _ ∧
      ∀ fd, s.pcblock.LeastFree fd → ∀ e ∈ img.named name, p.Opens fd s.fdVal e))
  | .execute .. | .read .. | .write .. | .getargs .. | .vidmap _ | .setHandler | .sigreturn | .key .. =>
    inferInstanceAs (Decidable (_ ∧ True))

/-- The position that an `execute` stores for `fd_val` when it reads the file, if it does. -/
def storesPosition (img : Image) (command : CString) (s : Kernel) : Option UInt32 :=
  (s.claimed command).bind fun _ => (words command).bind fun q => (img.executable q.cmdView).bind img.loadPosition

/-- The descriptors that an operation stores a position or an entry for: the load of a program for `fd_val`, an `open` for
the descriptor it hands out and for `fd_val`. -/
def storesFor (img : Image) (s : Kernel) : Op → Finset (Fin 8)
  | .open (some name) =>
    if (img.named name).isSome then Finset.univ.filter fun d => ∃ fd, s.pcblock.LeastFree fd ∧ (d = fd ∨ d = s.fdVal) else ∅
  | op =>
    match s.call op with
    | some x => if (storesPosition img x.1 x.2.2).isSome then {x.2.2.fdVal} else ∅
    | none => ∅

/-- The open descriptors that an operation closes. -/
def closes (s : Kernel) : Op → Finset (Fin 8)
  | .close fd => Finset.univ.filter fun d => fd = d.val ∧ 2 ≤ d.val ∧ (s.pcblock.fileStruct d).flags = 1
  | .halt _ _ => if ∃ n ∈ s.cr3.pid, 3 < n.val then s.pcblock.openIn haltFiles else ∅
  | _ => ∅

/-- The terminal that is displayed after an operation. -/
def shownAfter (s : Kernel) : Op → TermNum
  | .key k _ => (s.switchTo k).getD s.curTerminal
  | _ => s.curTerminal

/-- An operation that switches displays the terminal it switches to; every other one leaves the terminal. -/
theorem step_shows {op : Op} {s s' : Kernel} {o : Outcome} (hs : step img s op = some (o, s')) :
    s'.curTerminal = s.shownAfter op := by
  by_cases hsw : ∃ k r t, op = .key k r ∧ s.switchTo k = some t
  · obtain ⟨k, r, t, rfl, ht⟩ := hsw
    rw [shownAfter, ht, Option.getD_some]
    by_cases hst : s.started t = true
    · rw [key_started ht hst] at hs
      cases hs
      rw [enterTerminal_curTerminal, leftFor_curTerminal]
    · obtain ⟨o', hex, -⟩ := step_call (call_first r ht hst) hs
      rw [(execute_frame hex).1.2.1, activate_curTerminal, leftFor_curTerminal]
  have hstay : s.shownAfter op = s.curTerminal := by
    cases op with
    | key k r =>
      rcases ht : s.switchTo k with _ | t
      · rw [shownAfter, ht]
        rfl
      · exact absurd ⟨k, r, t, rfl, ht⟩ hsw
    | _ => rfl
  rw [hstay]
  rcases hcall : s.call op with _ | ⟨command, r, s0⟩
  · rcases step_noCall hcall hs with hf | rfl | ⟨t, -, rfl⟩ | ⟨con, textBuf, counter, entered, dev, rfl⟩ |
      ⟨k, r, t, hop, ht, -, -⟩ | ⟨status, r, n, -, -, -, rfl⟩
    · obtain ⟨q, fdIndex, fdVal, fdRtc, slots, con, dev, user, entered, rfl, -⟩ := fileCall_eq hf hs
      rfl
    · rfl
    · rfl
    · rfl
    · exact absurd ⟨k, r, t, hop, ht⟩ hsw
    · exact (haltProgram_frame n s).2.2.1
  · obtain ⟨o', hex, -⟩ := step_call hcall hs
    rw [(execute_frame hex).1.2.1]
    rcases call_cases hcall with ⟨-, rfl⟩ | ⟨status, n, -, -, -, -, rfl⟩ | ⟨k, t, hop, ht, -⟩
    · rfl
    · rfl
    · exact absurd ⟨k, r, t, hop, ht⟩ hsw

theorem mem_storesFor_call {op : Op} {s : Kernel} {x : CString × Regs × Kernel} (h : s.call op = some x)
    (hx : (storesPosition img x.1 x.2.2).isSome) : x.2.2.fdVal ∈ storesFor img s op := by
  unfold storesFor
  split
  · cases h
  · rw [h]
    simp only
    rw [if_pos hx]
    exact Finset.mem_singleton_self _

theorem mem_storesFor_open {name : CString} {s : Kernel} {e : Dentry} (hn : img.named name = some e) {fd d : Fin 8}
    (hl : s.pcblock.LeastFree fd) (hd : d = fd ∨ d = s.fdVal) : d ∈ storesFor img s (.open (some name)) := by
  unfold storesFor
  simp only
  rw [if_pos (by rw [hn]; rfl)]
  exact Finset.mem_filter.2 ⟨Finset.mem_univ d, fd, hl, hd⟩

theorem rest_stores (img : Image) (p : Pcb) (s : Kernel) (op : Op) : ∀ d ∈ (storesFor img s op).filter p.AtRest, p.AtRest d :=
  fun _ hd => (Finset.mem_filter.1 hd).2

/-- An `execute`, as a call of the child or from within the kernel. -/
theorem lent_execute {command : CString} {r : Regs} {s s' : Kernel} {o : Outcome} (hp : p.Lendable)
    (h : p.Lent s.pcblock s.fdIndex g) (hl : LoadsFor img p command s)
    (hg : p.AtRest s.fdVal → (storesPosition img command s).isSome → s.fdVal ∈ g)
    (hs : execute img (some command) r s = some (o, s')) : p.Lent s'.pcblock s'.fdIndex g := by
  rcases hn : s.claimed command with _ | n
  · rw [execute_unclaimed hn] at hs
    obtain ⟨⟨o', w⟩, hw, heq⟩ := Option.map_eq_some_iff.1 hs
    obtain ⟨con, dev, rfl⟩ := writeFd_eq hw
    cases heq
    rw [choosePid_eq]
    exact h.congr rfl rfl h.args
  rcases hq : words command with _ | q
  · rw [execute_claimed hn, hq] at hs
    cases hs
  obtain ⟨hargs, hload⟩ := hl n hn q hq
  have hclaim : p.Lent (claim command r n q s).pcblock s.fdIndex g := h.congr rfl rfl hargs
  rcases he : img.executable q.cmdView with _ | inode
  · obtain ⟨d, hd⟩ := loader_refused (claim command r n q s) he
    rw [execute_claimed hn, hq, Option.map_some, hd] at hs
    cases hs
    exact hclaim
  obtain ⟨hk, hv⟩ := hload inode he
  obtain ⟨d, hd⟩ := execute_loads_at (r := r) hn hq he
  -- the read of the file may store a position
  have hloaded : p.Lent (loaded img inode n d (img.loadPosition inode) (claim command r n q s)).pcblock s.fdIndex g := by
    show p.Lent ((claim command r n q s).storeFpos (img.loadPosition inode)).pcblock s.fdIndex g
    rcases hpos : img.loadPosition inode with _ | v
    · exact hclaim
    · refine hclaim.setFpos ((hv v hpos).imp_left fun hr => hg hr ?_)
      unfold storesPosition
      rw [hn, Option.bind_some, hq, Option.bind_some, he, Option.bind_some, hpos]
      rfl
  rw [hd] at hs
  simp only at hs
  split at hs
  · cases hs
    exact hloaded
  · obtain ⟨-, rfl⟩ := Prod.mk.inj (Option.some.inj hs)
    refine (hloaded.fresh hp ?_).congr rfl rfl hloaded.args
    show p.TableKept ((claim command r n q s).storeFpos (img.loadPosition inode)).pcblock s.fdIndex
    rcases img.loadPosition inode with _ | v
    · exact hk
    · exact fun e he => (Pcb.setFpos_fopsPtr ..).trans (hk e he)

/-- A read changes the position of a file that the child has opened. -/
theorem lent_read {fd buf nbytes : Int} {s s' : Kernel} {o : Outcome} (hp : p.Lendable)
    (h : p.Lent s.pcblock s.fdIndex g) (hs : sysRead img fd buf nbytes s = some (o, s')) :
    p.Lent s'.pcblock s'.fdIndex g := by
  have hindex : s'.fdIndex = s.fdIndex := by
    obtain ⟨d, v, fdVal, user, entered, dev, rfl⟩ := sysRead_eq hs
    rfl
  rw [hindex]
  rcases sysRead_block hs with hb | ⟨d, v, hopen, hfs, hb⟩ <;> rw [hb]
  · exact h
  · refine h.setFpos (Or.inl ?_)
    by_cases hd : 2 ≤ d.val
    · exact ((h.used d hd).resolve_left hopen).2
    · -- 0 and 1 are on the terminal
      have hstd := (hp.std d (not_le.1 hd)).2
      rcases h.tables d with ht | ⟨-, -, hnone⟩
      · rw [hfs, hstd] at ht
        cases ht
      · rw [hstd] at hnone
        cases hnone

theorem lent_open {filename : Option CString} {s s' : Kernel} {v : Int} (h : p.Lent s.pcblock s.fdIndex g)
    (hk : KeepsCall img p s (.open filename)) (hg : (storesFor img s (.open filename)).filter p.AtRest ⊆ g)
    (hs : sysOpen img filename s = some (v, s')) : p.Lent s'.pcblock s'.fdIndex g := by
  rcases filename with _ | name
  · cases hs
    exact h.move fun h2 => hk.2 h2.symm
  obtain ⟨-, htable, hopens⟩ := hk
  rcases sysOpen_cases img name s with ⟨fd, hl, ho⟩ | ⟨-, -, ho⟩ | ⟨-, -, ho⟩ <;> rw [ho] at hs
  · rcases hn : img.named name with _ | e
    · rw [openAt_missing hn hl.2.1] at hs
      cases hs
      exact h.move fun _ => htable
    · have hcond := hopens fd hl e hn
      have htaken : ∀ d, p.AtRest d → d = fd ∨ d = s.fdVal → d ∈ g := fun d hr hd =>
        hg (Finset.mem_filter.2 ⟨mem_storesFor_open hn hl hd, hr⟩)
      obtain ⟨rtc, dev, hopen⟩ := openAt_named fd s hn
      rw [hopen] at hs
      cases hs
      exact h.opened hl.1 (htaken fd hcond.rest (Or.inl rfl))
        (hcond.stray.imp_left fun hr => htaken s.fdVal hr (Or.inr rfl)) (fun _ => htable) hcond
  · cases hs
    exact h.move fun _ => htable
  · cases hs

theorem lent_close {fd : Int} {s : Kernel} (h : p.Lent s.pcblock s.fdIndex g) (hk : KeepsCall img p s (.close fd)) :
    p.Lent (sysClose fd s).2.pcblock (sysClose fd s).2.fdIndex (g \ closes s (.close fd)) := by
  rcases sysClose_cases fd s with ⟨d, hfd, h2, hf, v, hcl⟩ | ⟨hno, hcl⟩ <;> rw [hcl]
  · have hset : closes s (.close fd) = {d} := by
      ext e
      rw [closes, Finset.mem_filter, Finset.mem_singleton, and_iff_right (Finset.mem_univ e)]
      constructor
      · rintro ⟨he, -, -⟩
        exact Fin.ext (by omega)
      · rintro rfl
        exact ⟨hfd, h2, hf⟩
    show p.Lent (s.pcblock.closed d s.fdIndex) s.fdIndex _
    rw [Pcb.closed_eq _ _ _ h2, hset]
    refine h.closedOn (fun e he => ?_) fun _ => hk.2 d hfd h2 hf
    obtain rfl := Finset.mem_singleton.1 he
    exact ⟨h2, hf⟩
  · have hset : closes s (.close fd) = ∅ := by
      rw [closes, Finset.filter_eq_empty_iff]
      rintro e - ⟨he, h2, hf⟩
      exact hno e he h2 hf
    rw [hset, Finset.sdiff_empty]
    exact h

theorem lent_fileCall {op : Op} {s s' : Kernel} {o : Outcome} (hp : p.Lendable) (h : p.Lent s.pcblock s.fdIndex g)
    (hg : (storesFor img s op).filter p.AtRest ⊆ g) (hk : KeepsCall img p s op) (hf : op.isFile = true)
    (hs : step img s op = some (o, s')) : p.Lent s'.pcblock s'.fdIndex (g \ closes s op) := by
  have hclose : ∀ {q k}, closes s op = ∅ → p.Lent q k g → p.Lent q k (g \ closes s op) := by
    intro q k he hq
    rw [he, Finset.sdiff_empty]
    exact hq
  cases op with
  | execute | halt | key => cases hf
  | read fd buf nbytes => exact hclose rfl (lent_read hp h hs)
  | write fd buf nbytes =>
    obtain ⟨con, dev, rfl⟩ := sysWrite_eq hs
    exact hclose rfl h
  | «open» filename =>
    obtain ⟨⟨v, s1⟩, h1, heq⟩ := Option.map_eq_some_iff.1 hs
    cases heq
    exact hclose rfl (lent_open h hk hg h1)
  | close fd =>
    cases hs
    exact lent_close h hk
  | getargs buf nbytes =>
    obtain ⟨⟨v, s1⟩, h1, heq⟩ := Option.map_eq_some_iff.1 hs
    cases heq
    obtain ⟨user, rfl⟩ := getargs_eq h1
    exact hclose rfl h
  | vidmap screenStart =>
    cases hs
    obtain ⟨user, hv⟩ := vidmap_eq screenStart s
    rw [hv]
    exact hclose rfl h
  | setHandler | sigreturn =>
    cases hs
    exact hclose rfl h

/-- Only `close` and the exit of a program that a shell has started close anything. -/
theorem closes_eq_empty {op : Op} {s : Kernel} (hf : ¬ op.isFile = true)
    (hhalt : ¬ ∃ status r n, op = .halt status r ∧ s.cr3.pid = some n ∧ 3 < n.val) : closes s op = ∅ := by
  cases op with
  | halt status r => exact if_neg fun ⟨n, hn, h3⟩ => hhalt ⟨status, r, n, rfl, hn, h3⟩
  | close => exact absurd rfl hf
  | _ => rfl

/-- Every call and keystroke that leaves the terminal displayed: what it stores for is taken, and what it closes is given
back. -/
theorem lent_step {op : Op} {s s' : Kernel} {o : Outcome} (hp : p.Lendable) (h : p.Lent s.pcblock s.fdIndex g)
    (hstay : s.shownAfter op = s.curTerminal) (hk : KeepsCall img p s op) (hs : step img s op = some (o, s')) :
    p.Lent s'.pcblock s'.fdIndex ((g ∪ (storesFor img s op).filter p.AtRest) \ closes s op) := by
  have hswitch : ∀ k r t, op = .key k r → s.switchTo k ≠ some t := by
    rintro k r t rfl ht
    rw [shownAfter, ht] at hstay
    exact switchTo_ne ht hstay.symm
  have ht := h.take (rest_stores img p s op)
  by_cases hf : op.isFile = true
  · exact lent_fileCall hp ht Finset.subset_union_right hk hf hs
  by_cases hhalt : ∃ status r n, op = .halt status r ∧ s.cr3.pid = some n ∧ 3 < n.val
  · -- a program that the child has started exits, and `halt` closes what it has open
    obtain ⟨status, r, n, rfl, hn, h3⟩ := hhalt
    simp only [step, halt, hn] at hs
    rw [if_neg (not_le.2 h3)] at hs
    cases hs
    rw [haltProgram_pcblock, (haltProgram_frame n s).2.2.2.2.2.2.2, closes, if_pos ⟨n, hn, h3⟩]
    exact ht.closedOn (fun d hd => Pcb.openIn_spec hd) (hk.2 n hn h3)
  rw [closes_eq_empty hf hhalt, Finset.sdiff_empty]
  rcases hcall : s.call op with _ | ⟨command, r, s0⟩
  · rcases step_noCall hcall hs with hfile | rfl | ⟨t, -, rfl⟩ | ⟨con, textBuf, counter, entered, dev, rfl⟩ |
      ⟨k, r, t, hop, hto, -, -⟩ | hend
    · exact absurd hfile hf
    · exact ht
    · exact ht
    · exact ht
    · exact absurd hto (hswitch k r t hop)
    · obtain ⟨status, r, n, hop, hn, h3, -⟩ := hend
      exact absurd ⟨status, r, n, hop, hn, h3⟩ hhalt
  · -- an `execute` of the child, or one that brings a shell back
    obtain ⟨o', hex, -⟩ := step_call hcall hs
    have hl := hk.1 _ hcall
    have hg : p.AtRest s0.fdVal → (storesPosition img command s0).isSome →
        s0.fdVal ∈ g ∪ (storesFor img s op).filter p.AtRest := fun hr hpos =>
      Finset.mem_union_right _ (Finset.mem_filter.2 ⟨mem_storesFor_call hcall hpos, hr⟩)
    rcases call_cases hcall with ⟨rfl, rfl⟩ | ⟨status, n, rfl, -, -, rfl, rfl⟩ | ⟨k, t, rfl, hto, -, -, -⟩
    · exact lent_execute hp ht hl hg hex
    · exact lent_execute (s := restartShell n s) hp ht hl hg hex
    · exact absurd hto (hswitch k r t rfl)

/-! ## Runs -/

/-- The block that a switch to a started terminal brings back. -/
def savedBlock (s : Kernel) (t : TermNum) : Pcb :=
  { s.slots (getPidFromCr3 (s.terminals t).cr3) with fileStruct := (s.terminals t).fileStruct }

/-- A step after which the block is on loan whenever the terminal `home` is displayed: a call made there that leaves it on
loan, or a switch to it that brings a block on loan back. What happens in the other terminals does not matter. -/
def KeepsBlock (img : Image) (p : Pcb) (home : TermNum) (s : Kernel) (op : Op) : Prop :=
  s.shownAfter op = home →
    if s.curTerminal = home then KeepsCall img p s op
    else s.started home = true ∧ p.Lent (s.savedBlock home) s.fdIndex (p.taken (s.savedBlock home))

instance (img : Image) (p : Pcb) (home : TermNum) (s : Kernel) (op : Op) : Decidable (KeepsBlock img p home s op) :=
  inferInstanceAs (Decidable (s.shownAfter op = home →
    if s.curTerminal = home then KeepsCall img p s op
    else s.started home = true ∧ p.Lent (s.savedBlock home) s.fdIndex (p.taken (s.savedBlock home))))

/-- What a step in the caller's terminal takes of its descriptors at rest, and what it gives back by closing it. -/
def lends (img : Image) (p : Pcb) (home : TermNum) (s : Kernel) (g : Finset (Fin 8)) (op : Op) : Finset (Fin 8) :=
  if s.shownAfter op = home then
    if s.curTerminal = home then (g ∪ (storesFor img s op).filter p.AtRest) \ closes s op else p.taken (s.savedBlock home)
  else g

/-- The kernel with the descriptors noted that are taken. -/
def lendStep (img : Image) (p : Pcb) (home : TermNum) : Kernel × Finset (Fin 8) → Op →
    Option (Outcome × Kernel × Finset (Fin 8)) :=
  noting (step img) (lends img p home)

theorem step_lent {home : TermNum} {x : Kernel × Finset (Fin 8)} {op : Op} {y : Outcome × Kernel × Finset (Fin 8)}
    (hp : p.Lendable) (h : x.1.curTerminal = home → p.Lent x.1.pcblock x.1.fdIndex x.2) (hk : KeepsBlock img p home x.1 op)
    (hy : lendStep img p home x op = some y) : y.2.1.curTerminal = home → p.Lent y.2.1.pcblock y.2.1.fdIndex y.2.2 := by
  obtain ⟨s, g⟩ := x
  obtain ⟨⟨o, s'⟩, hs, rfl⟩ := Option.map_eq_some_iff.1 hy
  intro hhome
  have hshown : s.shownAfter op = home := (step_shows hs).symm.trans hhome
  have hcond := hk hshown
  show p.Lent s'.pcblock s'.fdIndex (lends img p home s g op)
  rw [lends, if_pos hshown]
  by_cases hcur : s.curTerminal = home
  · -- a step in the caller's terminal
    rw [if_pos hcur]
    rw [if_pos hcur] at hcond
    exact lent_step hp (h hcur) (hshown.trans hcur.symm) hcond hs
  · -- the switch back
    rw [if_neg hcur]
    rw [if_neg hcur] at hcond
    cases op with
    | key k r =>
      rcases ht : s.switchTo k with _ | t
      · rw [shownAfter, ht] at hshown
        exact absurd hshown hcur
      obtain rfl : t = home := by
        rw [shownAfter, ht] at hshown
        exact hshown
      rw [key_started ht hcond.1] at hs
      cases hs
      have hblock : (enterTerminal t (leftFor t r s)).pcblock = s.savedBlock t := by
        show ({ (leftFor t r s).slots (getPidFromCr3 ((leftFor t r s).terminals t).cr3) with
          fileStruct := ((leftFor t r s).terminals t).fileStruct } : Pcb) = _
        rw [leftFor_terminals r hcur, leftFor_slots]
        rfl
      rw [hblock, enterTerminal_fdIndex, leftFor_fdIndex]
      exact hcond.2
    | _ => exact absurd hshown hcur

/-- The child exits in the terminal it was started in, and `halt` closes all that is taken, with no table pointer of the
caller's cleared. -/
structure GivesBack (p : Pcb) (home : TermNum) (x : Kernel × Finset (Fin 8)) : Prop where
  shown : x.1.curTerminal = home
  taken : ∀ d ∈ x.2, ¬ x.1.pcblock.Free d
  clearable : (x.1.pcblock.openIn haltFiles).Nonempty → p.Clearable x.1.fdIndex

instance (p : Pcb) (home : TermNum) (x : Kernel × Finset (Fin 8)) : Decidable (GivesBack p home x) :=
  decidable_of_iff (x.1.curTerminal = home ∧ (∀ d ∈ x.2, ¬ x.1.pcblock.Free d) ∧
      ((x.1.pcblock.openIn haltFiles).Nonempty → p.Clearable x.1.fdIndex))
    ⟨fun h => ⟨h.1, h.2.1, h.2.2⟩, fun h => ⟨h.shown, h.taken, h.clearable⟩⟩

/-- A process in state `s` executes a command, which starts a child under pid 4, 5 or 6; after the operations `ops` the
child exits from state `c`, and the process is back in state `s'`. -/
structure Excursion (img : Image) (s : Kernel) (command : CString) (r : Regs) (ops : List Op) (status : UInt8) (r' : Regs)
    (c s' : Kernel) : Prop where
  child : ∃ eip s1 n, execute img (some command) r s = some (.enter eip, s1) ∧ s1.newPid = some n ∧ 4 ≤ n.val ∧
    run (step img) s1 ops = some c ∧ c.cr3 = dirOf n
  back : step img c (.halt status r') = some (.resume, s')
  same : s'.cr3 = s.cr3

/-- The state in which a child starts, the one in which it exits after some calls, and the one after its exit. -/
def childOf (command : CString) (s : Kernel) : Kernel :=
  ((execute .sample (some command) ⟨0, 0⟩ s).getD (.handled, s)).2
def exiting (command : CString) (ops : List Op) (s : Kernel) : Kernel :=
  (run (step .sample) (childOf command s) ops).getD (childOf command s)
def backFrom (c : Kernel) : Kernel := ((step .sample c (.halt 0 ⟨0, 0⟩)).getD (.handled, c)).2

/-- A child under entry `n` that exits after some calls. -/
theorem excursion_exiting {command : CString} {ops : List Op} {s : Kernel} (n : Pid)
    (h : 4 ≤ n.val ∧ (execute .sample (some command) ⟨0, 0⟩ s).map Prod.fst = some (.enter 0) ∧
      (childOf command s).newPid = some n ∧ (run (step .sample) (childOf command s) ops).isSome = true ∧
      (exiting command ops s).cr3 = dirOf n ∧
      (step .sample (exiting command ops s) (.halt 0 ⟨0, 0⟩)).map Prod.fst = some .resume ∧
      (backFrom (exiting command ops s)).cr3 = s.cr3) :
    Excursion .sample s command ⟨0, 0⟩ ops 0 ⟨0, 0⟩ (exiting command ops s) (backFrom (exiting command ops s)) := by
  obtain ⟨h4, he, hn, hr, hc, hh, hb⟩ := h
  exact ⟨⟨0, childOf command s, n, eq_some_of_fst _ he, hn, h4, run_getD hr, hc⟩, eq_some_of_fst _ hh, hb⟩

/-- The first shell after it has opened and closed `frame0.txt`, so that `fd_val` is 2. -/
def withClosed : Kernel := (run (step .sample) firstShell [.open (some frame0), .close 2]).getD firstShell

/-- The first shell with `frame0.txt` open as descriptor 2. -/
def withFrame0 : Kernel := (run (step .sample) firstShell [.open (some frame0)]).getD firstShell

end Kernel

end Os391
