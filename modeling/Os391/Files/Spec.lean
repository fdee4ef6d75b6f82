/-
What each file call does to `pcblock` and to the indices kept between calls, in one equation for
each of its ways out. The proofs about descriptors use these and never unfold the calls.
-/
import Os391.Kernel.Files

namespace Os391

open Bytes

/-! ## The search for a free descriptor -/

namespace Kernel

theorem findFdFrom_some {p : Pcb} : ∀ {n i k : Nat}, findFdFrom p i n = some k →
    i ≤ k ∧ k < i + n ∧ p.flagsAt k = 0 ∧ ∀ j, i ≤ j → j < k → p.flagsAt j ≠ 0
  | 0, i, k, h => by cases h
  | n + 1, i, k, h => by
    unfold findFdFrom at h
    split at h
    · rename_i h0
      cases h
      exact ⟨le_refl _, by omega, h0, fun j h1 h2 => by omega⟩
    · rename_i h0
      obtain ⟨h1, h2, h3, h4⟩ := findFdFrom_some h
      refine ⟨by omega, by omega, h3, fun j hj hk => ?_⟩
      rcases Nat.eq_or_lt_of_le hj with rfl | hj
      · exact h0
      · exact h4 j hj hk

theorem findFdFrom_none {p : Pcb} : ∀ {n i : Nat}, findFdFrom p i n = none →
    ∀ j, i ≤ j → j < i + n → p.flagsAt j ≠ 0
  | 0, i, _, j, h1, h2 => by omega
  | n + 1, i, h, j, h1, h2 => by
    unfold findFdFrom at h
    split at h
    · cases h
    · rename_i h0
      rcases Nat.eq_or_lt_of_le h1 with rfl | h1
      · exact h0
      · exact findFdFrom_none h j h1 (by omega)

end Kernel

/-- A descriptor is free. -/
def Pcb.Free (p : Pcb) (d : Fin 8) : Prop := (p.fileStruct d).flags = 0

instance (p : Pcb) (d : Fin 8) : Decidable (p.Free d) := inferInstanceAs (Decidable (_ = _))

/-- The descriptor `open` hands out: the least free one in `2..7`. -/
def Pcb.LeastFree (p : Pcb) (d : Fin 8) : Prop :=
  2 ≤ d.val ∧ p.Free d ∧ ∀ j : Fin 8, 2 ≤ j.val → j < d → ¬ p.Free j

instance (p : Pcb) (d : Fin 8) : Decidable (p.LeastFree d) :=
  inferInstanceAs (Decidable (2 ≤ d.val ∧ p.Free d ∧ ∀ j : Fin 8, 2 ≤ j.val → j < d → ¬ p.Free j))

/-- No descriptor in `2..7` is free. -/
def Pcb.Full (p : Pcb) : Prop := ∀ d : Fin 8, 2 ≤ d.val → ¬ p.Free d

instance (p : Pcb) : Decidable p.Full := inferInstanceAs (Decidable (∀ d : Fin 8, 2 ≤ d.val → ¬ p.Free d))

/-- The word the search reads as the flags of entry 8: bytes 12..15 of the name in `dentry[0]`. -/
def Pcb.pastEnd (p : Pcb) : UInt32 := (p.dentry 0).nameWord 3

theorem Pcb.flagsAt_fin (p : Pcb) (d : Fin 8) : p.flagsAt d.val = (p.fileStruct d).flags := by
  simp [Pcb.flagsAt]

namespace Kernel

/-- The search finds the least free descriptor; or stops at entry 8, whose flags read as zero; or
stops nowhere. -/
theorem findFd_cases (p : Pcb) :
    (∃ d : Fin 8, findFd p = some d.val ∧ p.LeastFree d) ∨
    (findFd p = some 8 ∧ p.Full ∧ p.pastEnd = 0) ∨ (findFd p = none ∧ p.Full ∧ p.pastEnd ≠ 0) := by
  unfold findFd
  rcases h : findFdFrom p 2 7 with _ | k
  · have hn := findFdFrom_none h
    refine Or.inr (Or.inr ⟨rfl, fun d hd hf => ?_, ?_⟩)
    · exact hn d.val hd (by omega) (by rw [p.flagsAt_fin]; exact hf)
    · have := hn 8 (by omega) (by omega)
      simpa [Pcb.flagsAt, Pcb.pastEnd] using this
  · obtain ⟨h1, h2, h3, h4⟩ := findFdFrom_some h
    have hfree : ∀ j : Fin 8, 2 ≤ j.val → j.val < k → ¬ p.Free j := fun j hj hjk hf =>
      h4 j.val hj hjk (by rw [p.flagsAt_fin]; exact hf)
    by_cases hk : k < 8
    · refine Or.inl ⟨⟨k, hk⟩, rfl, h1, ?_, fun j hj hjk => hfree j hj hjk⟩
      have := p.flagsAt_fin ⟨k, hk⟩
      exact this.symm.trans h3
    · have hk8 : k = 8 := by omega
      subst hk8
      exact Or.inr (Or.inl ⟨rfl, fun d hd => hfree d hd d.isLt, by simpa [Pcb.flagsAt, Pcb.pastEnd] using h3⟩)

end Kernel

theorem Pcb.LeastFree.unique {p : Pcb} {d e : Fin 8} (hd : p.LeastFree d) (he : p.LeastFree e) : d = e := by
  rcases lt_trichotomy d e with h | h | h
  · exact absurd hd.2.1 (he.2.2 d hd.1 h)
  · exact h
  · exact absurd he.2.1 (hd.2.2 e he.1 h)

theorem Pcb.LeastFree.not_full {p : Pcb} {d : Fin 8} (hd : p.LeastFree d) : ¬ p.Full :=
  fun h => h d hd.1 hd.2.1

/-- The same descriptor table and the same arguments. -/
structure SameFiles (p p' : Pcb) : Prop where
  files : p'.fileStruct = p.fileStruct
  dentries : p'.dentry = p.dentry
  argName : p'.argName = p.argName
  dataArgSize : p'.dataArgSize = p.dataArgSize

/-! ## open -/

/-- The directory entry a name opens: none for the empty name. -/
def Image.named (img : Image) (name : CString) : Option Dentry :=
  if name.get 0 = 0 then none else img.lookup name.get

/-- The entry of an opened descriptor. The clock's descriptors keep their old position. -/
def openedFile (e : Dentry) (f : FileStruct) : FileStruct :=
  if e.fileType = 0 then { f with flags := 1, fopsPtr := some .rtcFops }
  else ⟨some .filesystemFops, 0, 1⟩

/-- `pcblock` after `open` has given descriptor `fd` to entry `e`: the entry is also stored for
descriptor `v = fd_val`. -/
def Pcb.opened (p : Pcb) (fd v : Fin 8) (e : Dentry) : Pcb :=
  ((p.setDentry fd fun d => d.withHead e).setDentry v fun d => d.withHead e).setFile fd (openedFile e)

theorem Pcb.setFile_setFile (p : Pcb) (d : Fin 8) (f g : FileStruct → FileStruct) :
    (p.setFile d f).setFile d g = p.setFile d fun x => g (f x) := by
  simp [Pcb.setFile]

theorem Pcb.setFile_self (p : Pcb) (d : Fin 8) (f : FileStruct → FileStruct)
    (h : f (p.fileStruct d) = p.fileStruct d) : p.setFile d f = p := by
  simp [Pcb.setFile, h]

namespace Kernel

variable {img : Image}

theorem openAt_missing {name : CString} {fd : Fin 8} {s : Kernel} (hn : img.named name = none)
    (hf : s.pcblock.Free fd) :
    openAt img name fd s = (-1, ({ s with fdIndex := fd.val } : Kernel).savePcb s.findPid) := by
  have hp : (s.pcblock.setFile fd fun f => { f with flags := 1 }).setFile fd (fun f => { f with flags := 0 }) =
      s.pcblock := by
    rw [Pcb.setFile_setFile]
    apply Pcb.setFile_self
    ext <;> simp [show (s.pcblock.fileStruct fd).flags = 0 from hf]
  unfold Image.named at hn
  unfold openAt filesystemOpen
  by_cases h0 : name.get 0 = 0
  · simp only [(strncmp_empty name.get).2 h0, ne_eq, not_true_eq_false, if_false, if_true, hp]
  · rw [if_neg h0] at hn
    have hs : strncmp name.get (fun _ => 0) 1 ≠ 0 := fun h => h0 ((strncmp_empty _).1 h)
    simp only [ne_eq, hs, not_false_eq_true, if_true, Image.readDentryByName, hn]
    simp only [Pcb.setDentry, Function.update_eq_self, hp]

theorem openAt_named {name : CString} {e : Dentry} (fd : Fin 8) (s : Kernel) (hn : img.named name = some e) :
    ∃ rtc dev, openAt img name fd s = ((fd.val : Int), ({ s with
      fdIndex := fd.val, fdRtc := rtc, dev := dev
      pcblock := s.pcblock.opened fd s.fdVal e } : Kernel).savePcb s.findPid) := by
  unfold Image.named at hn
  by_cases h0 : name.get 0 = 0
  · rw [if_pos h0] at hn; cases hn
  rw [if_neg h0] at hn
  have hs : strncmp name.get (fun _ => 0) 1 ≠ 0 := fun h => h0 ((strncmp_empty _).1 h)
  have ht : (Function.update (Function.update s.pcblock.dentry fd ((s.pcblock.dentry fd).withHead e)) s.fdVal
      ((Function.update s.pcblock.dentry fd ((s.pcblock.dentry fd).withHead e) s.fdVal).withHead e) fd).fileType =
      e.fileType := by
    by_cases hv : s.fdVal = fd
    · subst hv; simp
    · rw [Function.update_of_ne (Ne.symm hv)]; simp
  unfold openAt filesystemOpen
  simp only [ne_eq, hs, not_false_eq_true, if_true, Image.readDentryByName, hn]
  by_cases hz : e.fileType = 0
  · refine ⟨fd.val, s.dev.rtcInit, ?_⟩
    simp only [Pcb.setDentry, Pcb.setFile, ht, hz, Pcb.opened, openedFile]
    simp
  · refine ⟨s.fdRtc, s.dev, ?_⟩
    simp only [Pcb.setDentry, Pcb.setFile, ht, hz, Pcb.opened, openedFile]
    simp

/-- The ways out of `open`, in terms of the table and the name. -/
theorem sysOpen_cases (img : Image) (name : CString) (s : Kernel) :
    (∃ fd, s.pcblock.LeastFree fd ∧ sysOpen img (some name) s = some (openAt img name fd s)) ∨
    (s.pcblock.Full ∧ s.pcblock.pastEnd = 0 ∧ sysOpen img (some name) s = some (-1, { s with fdIndex := 8 })) ∨
    (s.pcblock.Full ∧ s.pcblock.pastEnd ≠ 0 ∧ sysOpen img (some name) s = none) := by
  unfold sysOpen
  rcases findFd_cases s.pcblock with ⟨d, h, hl⟩ | ⟨h, hf, h8⟩ | ⟨h, hf, h8⟩
  · refine Or.inl ⟨d, hl, ?_⟩
    rw [h]
    exact dif_pos d.isLt
  · refine Or.inr (Or.inl ⟨hf, h8, ?_⟩)
    rw [h]
    exact dif_neg (by omega)
  · refine Or.inr (Or.inr ⟨hf, h8, ?_⟩)
    rw [h]

end Kernel

/-! ## close -/

/-- `pcblock` after `close` of an open descriptor `fd`, when `open` looked last at entry `k`. -/
def Pcb.closed (p : Pcb) (fd : Fin 8) (k : Nat) : Pcb :=
  ((p.clearFops k).setFile fd fun f => { f with fpos := 0, flags := 0 }).setDentry fd fun _ => .zero

theorem Pcb.closed_flags (p : Pcb) (fd : Fin 8) (k : Nat) (d : Fin 8) :
    ((p.closed fd k).fileStruct d).flags = if d = fd then 0 else (p.fileStruct d).flags := by
  unfold Pcb.closed Pcb.clearFops Pcb.setDentry Pcb.setFile
  by_cases hd : d = fd
  · subst hd; simp
  · rw [if_neg hd]
    split <;> simp only [Function.update_of_ne hd]
    rename_i hk
    by_cases hdk : d = ⟨k, hk⟩
    · subst hdk; simp
    · rw [Function.update_of_ne hdk]

theorem Pcb.closed_fopsPtr (p : Pcb) (fd : Fin 8) (k : Nat) (d : Fin 8) :
    ((p.closed fd k).fileStruct d).fopsPtr = if d.val = k then none else (p.fileStruct d).fopsPtr := by
  unfold Pcb.closed Pcb.clearFops Pcb.setDentry Pcb.setFile
  by_cases hk : k < 8
  · rw [dif_pos hk]
    by_cases hdk : d = ⟨k, hk⟩
    · subst hdk
      by_cases hd : (⟨k, hk⟩ : Fin 8) = fd
      · subst hd; simp
      · simp only [Function.update_of_ne hd, Function.update_self, if_true]
    · have hne : d.val ≠ k := fun h => hdk (Fin.ext h)
      rw [if_neg hne]
      by_cases hd : d = fd
      · subst hd; simp only [Function.update_self, Function.update_of_ne hdk]
      · simp only [Function.update_of_ne hd, Function.update_of_ne hdk]
  · rw [dif_neg hk, if_neg (by omega)]
    by_cases hd : d = fd
    · subst hd; simp
    · simp only [Function.update_of_ne hd]

theorem Pcb.closed_dentry (p : Pcb) (fd : Fin 8) (k : Nat) (d : Fin 8) (hd : d ≠ fd) (h0 : d ≠ 0 ∨ k < 8) :
    (p.closed fd k).dentry d = p.dentry d := by
  unfold Pcb.closed Pcb.clearFops Pcb.setDentry Pcb.setFile
  simp only [Function.update_of_ne hd]
  split
  · rfl
  · rename_i hk
    have hd0 : d ≠ 0 := by
      rcases h0 with h | h
      · exact h
      · exact absurd h hk
    simp only [Function.update_of_ne hd0]

namespace Kernel

theorem closeAt_open {fd : Fin 8} {s : Kernel} (h2 : 2 ≤ fd.val) (h : (s.pcblock.fileStruct fd).flags = 1) :
    ∃ v, closeAt fd s = (0, { s with pcblock := s.pcblock.closed fd s.fdIndex, fdVal := v }) := by
  have hfd : fd ≠ 0 ∧ fd ≠ 1 := ⟨by rintro rfl; simp at h2, by rintro rfl; simp at h2⟩
  have hp : ((((s.pcblock.setFile fd fun f => { f with fpos := 0 }).setDentry fd
      fun d => { d with fileType := 0, inodeNumber := 0 }).clearFops s.fdIndex).setDentry fd
      fun d => { d with fileName := fun _ => 0, reserved := fun _ => 0 }).setFile fd
      (fun f => { f with flags := 0 }) = s.pcblock.closed fd s.fdIndex := by
    unfold Pcb.closed Pcb.clearFops
    by_cases hk : s.fdIndex < 8
    · simp only [dif_pos hk, Pcb.setFile, Pcb.setDentry]
      by_cases hdk : fd = ⟨s.fdIndex, hk⟩
      · rw [← hdk]; simp [Dentry.zero]
      · congr 1
        · funext d
          by_cases hd : d = fd
          · subst hd; simp [Function.update_of_ne hdk]
          · simp only [Function.update_of_ne hd]
            by_cases hd' : d = ⟨s.fdIndex, hk⟩
            · subst hd'; simp [Function.update_of_ne hd]
            · simp only [Function.update_of_ne hd', Function.update_of_ne hd]
        · simp [Dentry.zero]
    · simp only [dif_neg hk, Pcb.setFile, Pcb.setDentry]
      congr 1
      · simp
      · funext d
        by_cases hd : d = fd
        · subst hd; simp [Function.update_of_ne hfd.1, Dentry.zero]
        · simp only [Function.update_of_ne hd]
          by_cases h0 : d = 0
          · subst h0; simp [Function.update_of_ne hd]
          · simp only [Function.update_of_ne h0, Function.update_of_ne hd]
  unfold closeAt
  rw [if_pos h]
  simp only
  split
  · refine ⟨s.fdVal, ?_⟩
    simp only [hp]
  · refine ⟨fd, ?_⟩
    unfold filesystemClose
    have ht : (Pcb.dentry ((((s.pcblock.setFile fd fun f => { f with fpos := 0 }).setDentry fd
        fun d => { d with fileType := 0, inodeNumber := 0 }).clearFops s.fdIndex).setDentry fd
        fun d => { d with fileName := fun _ => 0, reserved := fun _ => 0 }) fd).fileType ≠ 1 := by
      unfold Pcb.clearFops
      split <;> simp [Pcb.setDentry, Pcb.setFile, Function.update_of_ne hfd.1]
    simp only [ht, if_false, hfd.1, hfd.2, or_self]
    rw [Pcb.setFile_setFile]
    simp only [hp]

theorem closeAt_closed {fd : Fin 8} {s : Kernel} (h : (s.pcblock.fileStruct fd).flags ≠ 1) :
    closeAt fd s = (-1, s) := by
  unfold closeAt; rw [if_neg h]

/-! ## read, write and the other calls -/

/-- What a call stored at a user address is read back there. -/
theorem userView_userPut (s : Kernel) (buf : Int) (f : Buf) {n k : Nat} (hk : k < n) :
    (s.userPut buf n f).userView buf k = f k := by
  show Function.update s.user s.cr3 ((s.user s.cr3).put buf n f) s.cr3 (buf + k) = f k
  rw [Function.update_self, Mem.put_inside (by omega)]
  congr 1
  omega

theorem userView_userPut_of_le (s : Kernel) (buf : Int) (f : Buf) {n k : Nat} (hk : n ≤ k) :
    (s.userPut buf n f).userView buf k = s.userView buf k := by
  show Function.update s.user s.cr3 ((s.user s.cr3).put buf n f) s.cr3 (buf + k) = s.user s.cr3 (buf + k)
  rw [Function.update_self, Mem.put_outside (by omega)]

/-- A store at a user address leaves all other user memory alone. -/
theorem userPut_frame (s : Kernel) (buf : Int) (n : Nat) (f : Buf) (dir : PageDir) (a : Int)
    (h : ¬ (dir = s.cr3 ∧ buf ≤ a ∧ a < buf + n)) : (s.userPut buf n f).user dir a = s.user dir a := by
  show Function.update s.user s.cr3 ((s.user s.cr3).put buf n f) dir a = s.user dir a
  by_cases hd : dir = s.cr3
  · subst hd
    rw [Function.update_self, Mem.put_outside (fun ha => h ⟨rfl, ha⟩)]
  · rw [Function.update_of_ne hd]

/-- All that a read can change: the position of one descriptor, `fd_val`, the caller's memory, the
flag `entered` and the clock. -/
theorem sysRead_eq {img : Image} {fd buf nbytes : Int} {s s' : Kernel} {o : Outcome}
    (h : sysRead img fd buf nbytes s = some (o, s')) :
    ∃ d v fdVal user entered dev, s' = { s with
      pcblock := s.pcblock.setFile d fun f => { f with fpos := v }
      fdVal := fdVal, user := user, entered := entered, dev := dev } := by
  have hsame : ∀ (user : PageDir → Mem) (entered : Bool) (dev : Devices) (v : Fin 8),
      ({ s with fdVal := v, user := user, entered := entered, dev := dev } : Kernel) = { s with
        pcblock := s.pcblock.setFile 0 fun f => { f with fpos := (s.pcblock.fileStruct 0).fpos }
        fdVal := v, user := user, entered := entered, dev := dev } := by
    intro user entered dev v
    rw [Pcb.setFile_self _ _ _ (by ext <;> rfl)]
  unfold sysRead at h
  split at h
  · cases h
    exact ⟨0, _, s.fdVal, s.user, s.entered, s.dev, hsame _ _ _ _⟩
  rcases hc : checkFd fd nbytes s with _ | d <;> rw [hc] at h
  · cases h
    exact ⟨0, _, s.fdVal, s.user, s.entered, s.dev, hsame _ _ _ _⟩
  rcases hf : (s.pcblock.fileStruct d).fopsPtr with _ | _ | _ | _ <;> simp only [hf] at h
  · cases h
  · cases h
    exact ⟨0, _, s.fdVal, s.user, s.entered, _, hsame _ _ _ _⟩
  · unfold terminalRead at h
    split at h
    · cases h
      exact ⟨0, _, s.fdVal, s.user, s.entered, s.dev, hsame _ _ _ _⟩
    split at h
    · simp only at h
      split at h <;> cases h <;> exact ⟨0, _, s.fdVal, _, false, s.dev, hsame _ _ _ _⟩
    · cases h
  · unfold filesystemRead at h
    simp only at h
    split at h
    · obtain ⟨r, _, hr⟩ := Option.map_eq_some_iff.1 h
      cases hr
      exact ⟨d, r.2.2, d, _, s.entered, s.dev, rfl⟩
    · cases h
      unfold storeFpos
      split
      · exact ⟨d, _, d, _, s.entered, s.dev, rfl⟩
      · exact ⟨0, _, d, _, s.entered, s.dev, hsame _ _ _ _⟩

/-- The position is that of an open descriptor of the file system. -/
theorem sysRead_block {img : Image} {fd buf nbytes : Int} {s s' : Kernel} {o : Outcome}
    (h : sysRead img fd buf nbytes s = some (o, s')) :
    s'.pcblock = s.pcblock ∨ ∃ d v, ¬ s.pcblock.Free d ∧ (s.pcblock.fileStruct d).fopsPtr = some .filesystemFops ∧
      s'.pcblock = s.pcblock.setFile d fun f => { f with fpos := v } := by
  unfold sysRead at h
  split at h
  · cases h
    exact Or.inl rfl
  rcases hc : checkFd fd nbytes s with _ | d <;> rw [hc] at h
  · cases h
    exact Or.inl rfl
  have hopen : ¬ s.pcblock.Free d := by
    unfold checkFd at hc
    split at hc
    · split at hc
      · cases hc
      · rename_i hf
        obtain rfl := Option.some.inj hc
        exact fun h0 => hf (Or.inl h0)
    · cases hc
  rcases hf : (s.pcblock.fileStruct d).fopsPtr with _ | _ | _ | _ <;> simp only [hf] at h
  · cases h
  · cases h
    exact Or.inl rfl
  · unfold terminalRead at h
    split at h
    · cases h
      exact Or.inl rfl
    split at h
    · simp only at h
      split at h <;> cases h <;> exact Or.inl rfl
    · cases h
  · unfold filesystemRead at h
    simp only at h
    split at h
    · obtain ⟨r, _, hr⟩ := Option.map_eq_some_iff.1 h
      cases hr
      exact Or.inr ⟨d, _, hopen, hf, rfl⟩
    · cases h
      unfold storeFpos
      split
      · exact Or.inr ⟨d, _, hopen, hf, rfl⟩
      · exact Or.inl rfl

theorem writeFd_eq {fd nbytes : Int} {text : Buf} {s s' : Kernel} {o : Outcome}
    (h : writeFd fd text nbytes s = some (o, s')) : ∃ con dev, s' = { s with con := con, dev := dev } := by
  unfold writeFd at h
  split at h
  · cases h; exact ⟨s.con, s.dev, rfl⟩
  split at h
  · cases h
  · cases h; exact ⟨s.con, _, rfl⟩
  all_goals
    rename_i d _ _
    unfold terminalWrite at h
    split at h <;> cases h
    · exact ⟨s.con, s.dev, rfl⟩
    · exact ⟨_, s.dev, rfl⟩

/-- All that a write can change: the screen and the clock's rate. -/
theorem sysWrite_eq {fd buf nbytes : Int} {s s' : Kernel} {o : Outcome}
    (h : sysWrite fd buf nbytes s = some (o, s')) : ∃ con dev, s' = { s with con := con, dev := dev } := by
  unfold sysWrite at h
  split at h
  · cases h; exact ⟨s.con, s.dev, rfl⟩
  · exact writeFd_eq h

theorem getargs_eq {buf nbytes v : Int} {s s' : Kernel} (h : getargs buf nbytes s = some (v, s')) :
    ∃ user, s' = { s with user := user } := by
  unfold getargs at h
  split at h
  · cases h; exact ⟨s.user, rfl⟩
  · obtain ⟨-, h⟩ := Option.ite_none_right_eq_some.1 h
    cases h; exact ⟨_, rfl⟩

theorem vidmap_eq (screenStart : Int) (s : Kernel) : ∃ user, (vidmap screenStart s).2 = { s with user := user } := by
  unfold vidmap
  split
  · exact ⟨s.user, rfl⟩
  · exact ⟨_, rfl⟩

/-- `close` of a descriptor by number. -/
theorem sysClose_cases (fd : Int) (s : Kernel) :
    (∃ d : Fin 8, fd = d.val ∧ 2 ≤ d.val ∧ (s.pcblock.fileStruct d).flags = 1 ∧
      ∃ v, sysClose fd s = (0, { s with pcblock := s.pcblock.closed d s.fdIndex, fdVal := v })) ∨
    ((∀ d : Fin 8, fd = d.val → 2 ≤ d.val → (s.pcblock.fileStruct d).flags ≠ 1) ∧ sysClose fd s = (-1, s)) := by
  unfold sysClose
  split
  · rename_i hr
    have h2 : 2 ≤ fd.toNat := by omega
    have hd : ∀ d : Fin 8, fd = d.val → d = ⟨fd.toNat, by omega⟩ := fun d h => Fin.ext (by simp; omega)
    by_cases hf : (s.pcblock.fileStruct ⟨fd.toNat, by omega⟩).flags = 1
    · exact Or.inl ⟨⟨fd.toNat, by omega⟩, by simp; omega, h2, hf, closeAt_open h2 hf⟩
    · exact Or.inr ⟨fun d h _ => by rw [hd d h]; exact hf, closeAt_closed hf⟩
  · rename_i hr
    exact Or.inr ⟨fun d h h2 => absurd ⟨by omega, by have := d.isLt; omega⟩ hr, rfl⟩

end Kernel

end Os391
