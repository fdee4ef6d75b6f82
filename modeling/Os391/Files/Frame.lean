/-
What `open` leaves alone. A successful `open` stores the entry it finds twice, once for the
descriptor it hands out and once for `fd_val`, the descriptor last read or closed. So another
descriptor keeps its entry exactly when the two coincide or the second store changes nothing.
-/
import Os391.Base.Run
import Os391.Files.Spec
import Os391.Kernel.Terminal

namespace Os391

open Bytes Machine Kernel

/-! ## One call -/

/-- The block differs at most in the entries of the descriptor numbered `v`. -/
structure OnlySlot (v : Int) (p p' : Pcb) : Prop where
  file : ∀ d : Fin 8, (d.val : Int) ≠ v → p'.fileStruct d = p.fileStruct d
  dentry : ∀ d : Fin 8, (d.val : Int) ≠ v → p'.dentry d = p.dentry d
  rest : { p' with fileStruct := p.fileStruct, dentry := p.dentry } = p

/-- An `open` changes at most the descriptor it returns. -/
def OpenFrames (img : Image) (s : Kernel) : Op → Prop
  | .open filename => ∃ v s', sysOpen img filename s = some (v, s') ∧ OnlySlot v s.pcblock s'.pcblock
  | _ => True

/-- The second store of an `open` is harmless: the name is not found, `fd_val` is the descriptor to
be handed out, or the entry there is already the one stored. With the table full the search must
stop at entry 8. -/
def NoStray (img : Image) (s : Kernel) : Op → Prop
  | .open (some name) =>
    (∃ fd, s.pcblock.LeastFree fd ∧ ∀ e, img.named name = some e →
      s.fdVal = fd ∨ (s.pcblock.dentry s.fdVal).withHead e = s.pcblock.dentry s.fdVal) ∨
    (s.pcblock.Full ∧ s.pcblock.pastEnd = 0)
  | _ => True

theorem OnlySlot.refl (v : Int) (p : Pcb) : OnlySlot v p p := ⟨fun _ _ => rfl, fun _ _ => rfl, rfl⟩

theorem opened_onlySlot {p : Pcb} {fd v : Fin 8} {e : Dentry} :
    OnlySlot (fd.val : Int) p (p.opened fd v e) ↔ v = fd ∨ (p.dentry v).withHead e = p.dentry v := by
  constructor
  · intro h
    by_cases hv : v = fd
    · exact Or.inl hv
    · have hd := h.dentry v (by simpa using fun h => hv (Fin.ext h))
      right
      simpa [Pcb.opened, Pcb.setDentry, Pcb.setFile, Function.update_of_ne hv] using hd
  · intro h
    refine ⟨fun d hd => ?_, fun d hd => ?_, rfl⟩
    all_goals have hne : d ≠ fd := fun h => hd (by rw [h])
    · simp [Pcb.opened, Pcb.setDentry, Pcb.setFile, Function.update_of_ne hne]
    · simp only [Pcb.opened, Pcb.setDentry, Pcb.setFile]
      by_cases hdv : d = v
      · subst hdv
        rcases h with h | h
        · exact absurd h hne
        · simp [Function.update_of_ne hne, h]
      · simp [Function.update_of_ne hdv, Function.update_of_ne hne]

theorem openFrames_iff (img : Image) (s : Kernel) (op : Op) : OpenFrames img s op ↔ NoStray img s op := by
  cases op with
  | «open» filename =>
    cases filename with
    | none => exact ⟨fun _ => trivial, fun _ => ⟨-1, _, rfl, OnlySlot.refl _ _⟩⟩
    | some name =>
      simp only [OpenFrames, NoStray]
      rcases sysOpen_cases img name s with ⟨fd, hl, h⟩ | ⟨hf, h8, h⟩ | ⟨hf, h8, h⟩ <;> rw [h]
      · -- a free descriptor: the two stores decide
        have hcond : ∀ P : Fin 8 → Prop, ((∃ k, s.pcblock.LeastFree k ∧ P k) ∨
            (s.pcblock.Full ∧ s.pcblock.pastEnd = 0)) ↔ P fd := by
          intro P
          constructor
          · rintro (⟨k, hk, hp⟩ | ⟨hf, -⟩)
            · rwa [hl.unique hk]
            · exact absurd hf hl.not_full
          · exact fun hp => Or.inl ⟨fd, hl, hp⟩
        rw [hcond]
        rcases hn : img.named name with _ | e
        · simp only [openAt_missing hn hl.2.1, Option.some.injEq, Prod.mk.injEq]
          exact ⟨fun _ e he => (by cases he), fun _ => ⟨-1, _, ⟨rfl, rfl⟩, OnlySlot.refl _ _⟩⟩
        · obtain ⟨rtc, dev, ho⟩ := openAt_named fd s hn
          simp only [ho, Option.some.injEq, Prod.mk.injEq]
          constructor
          · rintro ⟨v, s', ⟨rfl, rfl⟩, hs⟩ e' he
            cases he
            exact opened_onlySlot.1 hs
          · intro he
            exact ⟨_, _, ⟨rfl, rfl⟩, opened_onlySlot.2 (he e rfl)⟩
      · exact ⟨fun _ => Or.inr ⟨hf, h8⟩, fun _ => ⟨-1, _, rfl, OnlySlot.refl _ _⟩⟩
      · constructor
        · rintro ⟨v, s', hs, -⟩; cases hs
        · rintro (⟨fd, hl, -⟩ | ⟨-, h0⟩)
          · exact absurd hf hl.not_full
          · exact absurd h0 h8
  | _ => exact Iff.rfl

/-! ## Runs -/

/-- The file calls that leave descriptor `d` open. -/
def KeepsOpen (d : Fin 8) : Op → Prop
  | .open _ => True
  | .read _ _ _ => True
  | .write _ _ _ => True
  | .close fd => fd ≠ d.val
  | _ => False

/-- A descriptor of `2..7` that is open on a given directory entry. -/
def OpenOn (d : Fin 8) (e : Dentry) (s : Kernel) : Prop :=
  (s.pcblock.fileStruct d).flags = 1 ∧ s.pcblock.dentry d = e

theorem sysOpen_openOn {img : Image} {name : CString} {d : Fin 8} {e : Dentry} {s s' : Kernel} {v : Int}
    (hs : OpenOn d e s) (hc : NoStray img s (.open (some name))) (h : sysOpen img (some name) s = some (v, s')) :
    OpenOn d e s' := by
  obtain ⟨v', s'', h', hf⟩ := (openFrames_iff img s _).2 hc
  rw [h] at h'
  cases h'
  -- the descriptor handed out was free, so it is not `d`
  have hv : (d.val : Int) ≠ v := by
    rcases sysOpen_cases img name s with ⟨fd, hl, ho⟩ | ⟨-, -, ho⟩ | ⟨-, -, ho⟩ <;> rw [ho] at h
    · have hfd : d ≠ fd := by
        rintro rfl
        have h0 : (s.pcblock.fileStruct d).flags = 0 := hl.2.1
        rw [hs.1] at h0
        cases h0
      rcases hn : img.named name with _ | e'
      · rw [openAt_missing hn hl.2.1] at h; cases h; omega
      · obtain ⟨rtc, dev, hn'⟩ := openAt_named fd s hn
        rw [hn'] at h; cases h
        exact fun hd => hfd (Fin.ext (by exact_mod_cast hd))
    · cases h; omega
    · cases h
  exact ⟨by rw [hf.file d hv]; exact hs.1, by rw [hf.dentry d hv]; exact hs.2⟩

theorem step_openOn {img : Image} {d : Fin 8} {e : Dentry} {s : Kernel} {op : Op} {r : Outcome × Kernel}
    (hd : 2 ≤ d.val) (hs : OpenOn d e s) (hc : NoStray img s op) (hk : KeepsOpen d op)
    (h : step img s op = some r) : OpenOn d e r.2 := by
  obtain ⟨o, s'⟩ := r
  cases op with
  | «open» filename =>
    obtain ⟨⟨v, s1⟩, h1, h2⟩ := Option.map_eq_some_iff.1 h
    cases h2
    cases filename with
    | none => cases h1; exact hs
    | some name => exact sysOpen_openOn hs hc h1
  | read fd buf nbytes =>
    obtain ⟨k, v, _, _, _, _, rfl⟩ := sysRead_eq h
    refine ⟨?_, hs.2⟩
    show ((s.pcblock.setFile k fun f => { f with fpos := v }).fileStruct d).flags = 1
    unfold Pcb.setFile
    by_cases hk : d = k
    · subst hk; simpa using hs.1
    · simpa [Function.update_of_ne hk] using hs.1
  | write fd buf nbytes =>
    obtain ⟨_, _, rfl⟩ := sysWrite_eq h
    exact hs
  | close fd =>
    cases h
    rcases sysClose_cases fd s with ⟨k, rfl, h2, hf, v, hcl⟩ | ⟨-, hcl⟩ <;> rw [hcl]
    · have hdk : d ≠ k := fun h => hk (by rw [h])
      refine ⟨?_, ?_⟩
      · show ((s.pcblock.closed k s.fdIndex).fileStruct d).flags = 1
        rw [Pcb.closed_flags, if_neg hdk]; exact hs.1
      · show (s.pcblock.closed k s.fdIndex).dentry d = e
        rw [Pcb.closed_dentry _ _ _ _ hdk (Or.inl (by rintro rfl; simp at hd))]; exact hs.2
    · exact hs
  | _ => exact hk.elim

/-- In every run, each `open` changes at most the descriptor it returns exactly when each second
store is harmless; and then a descriptor that stays open stays on the entry it was opened on. -/
theorem open_frames_run (img : Image) (s : Kernel) (ops : List Op) :
    (Along (step img) (OpenFrames img) s ops ↔ Along (step img) (NoStray img) s ops) ∧
    (Along (step img) (NoStray img) s ops → ∀ d : Fin 8, 2 ≤ d.val → (s.pcblock.fileStruct d).flags = 1 →
      (∀ op ∈ ops, KeepsOpen d op) → ∀ s', run (step img) s ops = some s' →
      s'.pcblock.dentry d = s.pcblock.dentry d) := by
  constructor
  · exact along_iff (I := fun _ => True) (fun s op _ => openFrames_iff img s op) (fun _ _ _ _ _ _ => trivial) trivial
  · intro hn d hd hf hk s' hr
    have hinv := run_inv (I := OpenOn d (s.pcblock.dentry d))
      (P := fun s op => NoStray img s op ∧ KeepsOpen d op)
      (fun s op r hs hp h => step_openOn hd hs hp.1 hp.2 h) ⟨hf, rfl⟩ (along_and hn (along_of_mem _ hk)) hr
    exact hinv.2

/-! ## The failing run -/

/-- The names `frame0.txt` and `frame1.txt`. -/
def frame0 : CString := ⟨ascii ['f', 'r', 'a', 'm', 'e', '0', '.', 't', 'x', 't'], by decide⟩
def frame1 : CString := ⟨ascii ['f', 'r', 'a', 'm', 'e', '1', '.', 't', 'x', 't'], by decide⟩

/-- The shell opens `frame0.txt` as 2 and reads a byte of it. -/
def readFrame0 : List Op := [.execute (some shell) ⟨0, 0⟩, .open (some frame0), .read 2 0x08050000 1]

/-- Opening `frame1.txt` then puts descriptor 2 on `frame1.txt`. -/
theorem open_overwrites_open_descriptor :
    ∃ s, run (step .sample) boot readFrame0 = some s ∧
      (s.pcblock.fileStruct 2).flags = 1 ∧ (s.pcblock.dentry 2).inodeNumber = 3 ∧
      (sysOpen .sample (some frame1) s).map (fun r => (r.1, (r.2.pcblock.dentry 2).inodeNumber)) = some (3, 4) ∧
      ¬ OpenFrames .sample s (.open (some frame1)) := by
  have hin : (((run (step .sample) boot readFrame0).getD boot).pcblock.dentry 2).inodeNumber = 3 := by decide +kernel
  have hopen : (sysOpen .sample (some frame1) ((run (step .sample) boot readFrame0).getD boot)).map
      (fun r => (r.1, (r.2.pcblock.dentry 2).inodeNumber)) = some (3, 4) := by decide +kernel
  refine ⟨_, run_getD (by decide +kernel), by decide +kernel, hin, hopen, ?_⟩
  rintro ⟨v, s', h, hs⟩
  rw [h] at hopen
  simp only [Option.map_some, Option.some.injEq, Prod.mk.injEq] at hopen
  have hd := hs.dentry 2 (by rw [hopen.1]; decide)
  rw [hd, hin] at hopen
  exact absurd hopen.2 (by decide)

end Os391
