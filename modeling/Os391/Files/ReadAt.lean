/-
`read_data` with a buffer of the running process: what it returns and what it changes. The result is the
number of bytes as an `int32_t`; the check of the inode comes after the buffer is cleared and after the test
for the end of the file, and refuses the last inode too.
-/
import Os391.Files.Copy
import Os391.Files.Read

namespace Os391

open Bytes

namespace Kernel

variable {img : Image}

/-- The bytes of a buffer stored at all addresses from a user address of the running process on. -/
def userSet (s : Kernel) (buf : Int) (f : Buf) : Kernel :=
  { s with user := Function.update s.user s.cr3 fun a => if buf ≤ a then f (a - buf).toNat else s.user s.cr3 a }

/-- `read_data` for a buffer at a user address of the running process. -/
def readDataAt (img : Image) (inode offset : UInt32) (buf : Int) (length : UInt32) (s : Kernel) : Int × Kernel :=
  let r := img.readData inode offset (s.userView buf) length
  (r.ret, (s.userSet buf r.buf).storeFpos r.fpos)

theorem userSet_eq_userPut {s : Kernel} {buf : Int} {f : Buf} {n : Nat} (h : ∀ j, n ≤ j → f j = s.userView buf j) :
    s.userSet buf f = s.userPut buf n f := by
  unfold userSet userPut
  congr 2
  funext a
  unfold Mem.put
  by_cases h1 : buf ≤ a
  · rw [if_pos h1]
    by_cases h2 : a < buf + n
    · rw [if_pos ⟨h1, h2⟩]
    · rw [if_neg (fun h3 => h2 h3.2), h _ (by omega)]
      show s.user s.cr3 (buf + ((a - buf).toNat : Int)) = _
      rw [Int.toNat_of_nonneg (by omega), show buf + (a - buf) = a by omega]
  · rw [if_neg h1, if_neg (fun h3 => h1 h3.1)]

/-- `read_data` stores to the bytes asked for only. -/
theorem readDataAt_eq {inode offset length : UInt32} {buf : Int} {s : Kernel} :
    readDataAt img inode offset buf length s =
      let r := img.readData inode offset (s.userView buf) length
      (r.ret, (s.userPut buf length.toNat r.buf).storeFpos r.fpos) := by
  unfold readDataAt
  simp only
  rw [userSet_eq_userPut fun j hj => Image.readData_outside hj]

/-- `filesystem_read` of anything but a directory is a call of `read_data`. -/
theorem filesystemRead_readDataAt {fd : Fin 8} {buf : Int} {nbytes : Nat} {s : Kernel}
    (ht : (s.pcblock.dentry fd).fileType ≠ 1) (hn : nbytes < 2 ^ 32) :
    filesystemRead img fd buf nbytes s =
      let r := readDataAt img (s.pcblock.dentry fd).inodeNumber (s.pcblock.fileStruct fd).fpos buf (UInt32.ofNat nbytes)
        { s with fdVal := fd }
      some (.ret r.1, r.2) := by
  have hcast : (UInt32.ofNat nbytes).toNat = nbytes := by rw [UInt32.toNat_ofNat', Nat.mod_eq_of_lt hn]
  rw [readDataAt_eq, hcast]
  unfold filesystemRead
  simp only [if_neg ht]

/-- What `read_data` changes: the bytes asked for, and at most the position of `fd_val`. -/
theorem readDataAt_frame (img : Image) (inode offset : UInt32) (buf : Int) (length : UInt32) (s : Kernel) :
    let r := img.readData inode offset (s.userView buf) length
    let s' := (readDataAt img inode offset buf length s).2
    s' = { s with
      user := s'.user
      pcblock := s.pcblock.setFile s.fdVal fun f => { f with fpos := r.fpos.getD f.fpos } } ∧
    (∀ dir a, ¬ (dir = s.cr3 ∧ buf ≤ a ∧ a < buf + length.toNat) → s'.user dir a = s.user dir a) ∧
    ∀ k, k < length.toNat → s'.userView buf k = r.buf k := by
  intro r s'
  have hs' : s' = { s.userPut buf length.toNat r.buf with
      pcblock := s.pcblock.setFile s.fdVal fun f => { f with fpos := r.fpos.getD f.fpos } } := by
    simp only [s', readDataAt_eq, storeFpos_eq]
    rfl
  refine ⟨?_, ?_, ?_⟩
  · rw [hs']
    rfl
  · rintro dir a h
    rw [hs']
    exact userPut_frame s buf length.toNat r.buf dir a h
  · intro k hk
    rw [hs']
    exact userView_userPut s buf r.buf hk

/-- The number a `uint32_t` below or from `2^31` on is returned as. -/
theorem toInt32_toInt (r : UInt32) :
    r.toInt32.toInt = if r.toNat < 2 ^ 31 then (r.toNat : Int) else r.toNat - 2 ^ 32 := by
  show r.toBitVec.toInt = _
  rw [BitVec.toInt_eq_toNat_cond]
  show (if 2 * r.toNat < 2 ^ 32 then _ else _) = _
  split_ifs <;> first | rfl | omega

/-- A call of `read_data` for a file of the file system comes back. It returns how many bytes there were,
as an `int32_t`, clears what it was asked for beyond them, moves the position of `fd_val` past them unless
it started at the end, and changes nothing else. -/
theorem readDataAt_spec (img : Image) (inode offset : UInt32) (buf : Int) (length : UInt32) (s : Kernel)
    (hi : inode < img.numInodes - 1) (hsum : offset.toNat + length.toNat < 2 ^ 32) :
    let dataLength := (img.dataLength inode).toNat
    let r := if dataLength ≤ offset.toNat then 0 else min length.toNat (dataLength - offset.toNat)
    let res := readDataAt img inode offset buf length s
    (offset.toNat < dataLength → ∃ n,
      let turn := Image.copyTurn img inode (offset.toNat % 4096)
      let start := Image.copyStart offset (UInt32.ofNat r) (zero (s.userView buf) length.toNat)
      While.Ends Image.copying turn n start ∧
        (img.readData inode offset (s.userView buf) length).buf = (While.final Image.copying turn n start).buf) ∧
    res.1 = (if r < 2 ^ 31 then (r : Int) else r - 2 ^ 32) ∧
    (∃ fpos, res.2 = { s with
        user := res.2.user, pcblock := s.pcblock.setFile s.fdVal fun f => { f with fpos := fpos } } ∧
      fpos.toNat = if dataLength ≤ offset.toNat then (s.pcblock.fileStruct s.fdVal).fpos.toNat else offset.toNat + r) ∧
    (∀ dir a, ¬ (dir = s.cr3 ∧ buf ≤ a ∧ a < buf + length.toNat) → res.2.user dir a = s.user dir a) ∧
    ∀ k, r ≤ k → k < length.toNat → res.2.userView buf k = 0 := by
  intro dataLength r res
  obtain ⟨hframe, hmem, hview⟩ := readDataAt_frame img inode offset buf length s
  have hidx : offset.toNat % 4096 < Image.oneBlockSize := Image.index_lt offset.toNat
  by_cases hend : dataLength ≤ offset.toNat
  · -- `read_data` comes back with the buffer cleared
    have hr : r = 0 := if_pos hend
    have heq : img.readData inode offset (s.userView buf) length = ⟨0, zero (s.userView buf) length.toNat, none⟩ := by
      unfold Image.readData
      simp only
      rw [if_pos (UInt32.le_iff_toNat_le.2 hend)]
    rw [heq] at hframe hview
    refine ⟨fun h => absurd h (by omega), ?_, ⟨_, hframe, ?_⟩, hmem, ?_⟩
    · rw [hr]
      exact congrArg Image.DataRead.ret heq
    · rw [if_pos hend]
      rfl
    · intro k _ hk
      rw [hview k hk]
      exact if_pos hk
  · have ho : offset < img.dataLength inode := UInt32.lt_iff_toNat_lt.2 (by omega)
    have hr : r = Image.available (img.dataLength inode) offset length := if_neg hend
    have hle : r ≤ length.toNat := by rw [hr]; exact Nat.min_le_left _ _
    obtain ⟨rval, hrval, heq, -⟩ := Image.readData_turns (s.userView buf) hi ho hsum
    have hofNat : UInt32.ofNat r = rval := by rw [hr, ← hrval, UInt32.ofNat_toNat]
    have hrr : rval.toNat = r := by rw [hr, hrval]
    refine ⟨fun _ => ⟨rval.toNat + 1, ?_, ?_⟩, ?_, ⟨offset + rval, ?_, ?_⟩, hmem, ?_⟩
    · rw [hofNat]
      exact Image.copyLoop_ends hidx _ (Nat.lt_succ_self _)
    · rw [hofNat, heq]
      rfl
    · have hret : res.1 = rval.toInt32.toInt := congrArg Image.DataRead.ret heq
      rw [hret, toInt32_toInt, hrr]
    · rw [heq] at hframe
      exact hframe
    · rw [if_neg hend, UInt32.toNat_add, hrr, Nat.mod_eq_of_lt (by omega)]
    · intro k hk hkl
      rw [hview k hkl]
      exact Image.readData_cleared hi ho hsum (hr ▸ hk) hkl

/-- A read of 100 bytes at offset 8950 of a file of 9000 bytes. -/
theorem readDataAt_spec_end :
    (0 : UInt32) < (Image.striped 9000).numInodes - 1 ∧
      let res := readDataAt (Image.striped 9000) 0 8950 0x8048000 100 boot
      res.1 = 50 ∧ ∀ k, 50 ≤ k → k < 100 → res.2.userView 0x8048000 k = 0 := by
  obtain ⟨-, hret, -, -, hzero⟩ := readDataAt_spec (Image.striped 9000) 0 8950 0x8048000 100 boot Image.striped_inode
    (by decide)
  rw [Image.striped_dataLength] at hret hzero
  exact ⟨Image.striped_inode, hret, hzero⟩

/-- All of a file of `2^31` bytes: the number of bytes comes back negative. -/
theorem readDataAt_negative :
    (0 : UInt32) < (Image.striped 0x80000000).numInodes - 1 ∧
      (0 : UInt32).toNat + (0x80000000 : UInt32).toNat < 2 ^ 32 ∧
      (Image.striped 0x80000000).dataLength 0 = 0x80000000 ∧
      (readDataAt (Image.striped 0x80000000) 0 0 0x8048000 0x80000000 boot).1 = - 2 ^ 31 ∧
      (readDataAt (Image.striped 0x80000000) 0 0 0x8048000 0x80000000 boot).1 ≠
        min (0x80000000 : UInt32).toNat ((Image.striped 0x80000000).dataLength 0).toNat := by
  have ho : (0 : UInt32) < (Image.striped 0x80000000).dataLength 0 := by rw [Image.striped_dataLength]; decide
  have hret : (readDataAt (Image.striped 0x80000000) 0 0 0x8048000 0x80000000 boot).1 = - 2 ^ 31 := by
    obtain ⟨rval, hr, heq⟩ := Image.readData_copies (boot.userView 0x8048000) Image.striped_inode ho
      (show (0 : UInt32).toNat + (0x80000000 : UInt32).toNat < 2 ^ 32 by decide)
    rw [Image.striped_dataLength] at hr
    have hrval : rval = 0x80000000 := UInt32.toNat_inj.1 hr
    subst hrval
    exact congrArg Image.DataRead.ret heq
  refine ⟨Image.striped_inode, by decide, Image.striped_dataLength, hret, ?_⟩
  rw [hret, Image.striped_dataLength]
  decide

/-! ## The check of the inode -/

theorem toInt32_eq_neg_one {r : UInt32} : r.toInt32.toInt = -1 ↔ r = 0xFFFFFFFF := by
  have hlt := r.toNat_lt
  rw [toInt32_toInt, ← UInt32.toNat_inj]
  show _ ↔ r.toNat = 0xFFFFFFFF
  split <;> omega

/-- A read inside the file that returns -1: one of `2^32 - 1` bytes that wraps or fits. -/
theorem rval_eq_neg_one {dataLength offset length : UInt32} (ho : offset < dataLength) :
    (if offset + length > dataLength then dataLength - offset else length).toInt32.toInt = -1 ↔
      length = 0xFFFFFFFF ∧ (offset ≠ 0 ∨ dataLength = 0xFFFFFFFF) := by
  have ho' := UInt32.lt_iff_toNat_lt.1 ho
  have hd := dataLength.toNat_lt
  have hl := length.toNat_lt
  have hz : (0 : UInt32).toNat = 0 := rfl
  have hm : (0xFFFFFFFF : UInt32).toNat = 0xFFFFFFFF := rfl
  rw [toInt32_eq_neg_one]
  split
  case isTrue h =>
    have h' := UInt32.lt_iff_toNat_lt.1 h
    rw [UInt32.toNat_add] at h'
    simp only [← UInt32.toNat_inj, ne_eq, UInt32.toNat_sub_of_le _ _ (UInt32.le_of_lt ho), hz, hm]
    omega
  case isFalse h =>
    have h' := UInt32.le_iff_toNat_le.1 (UInt32.not_lt.1 h)
    rw [UInt32.toNat_add] at h'
    simp only [← UInt32.toNat_inj, ne_eq, hz, hm]
    omega

/-- `read_data` refuses exactly the inodes outside `0..num_inodes-1`, and leaves the buffer and the
positions alone when it does. -/
def RefusesBadInode (img : Image) (inode offset length : UInt32) : Prop :=
  ∀ (buf : Int) (s : Kernel),
    let res := readDataAt img inode offset buf length s
    (res.1 = -1 ↔ ¬ inode < img.numInodes) ∧
      (res.1 = -1 → (∀ k, k < length.toNat → res.2.userView buf k = s.userView buf k) ∧
        ∀ d, (res.2.pcblock.fileStruct d).fpos = (s.pcblock.fileStruct d).fpos)

theorem readDataAt_ret {inode offset length : UInt32} {buf : Int} {s : Kernel} {r : Image.DataRead}
    (h : img.readData inode offset (s.userView buf) length = r) :
    (readDataAt img inode offset buf length s).1 = r.ret := congrArg Image.DataRead.ret h

theorem readDataAt_buf {inode offset length : UInt32} {buf : Int} {s : Kernel} {r : Image.DataRead} {k : Nat}
    (h : img.readData inode offset (s.userView buf) length = r) (hk : k < length.toNat) :
    (readDataAt img inode offset buf length s).2.userView buf k = r.buf k := by
  rw [(readDataAt_frame img inode offset buf length s).2.2 k hk, h]

theorem readDataAt_fpos {inode offset length : UInt32} {buf : Int} {s : Kernel} {r : Image.DataRead}
    (h : img.readData inode offset (s.userView buf) length = r) (d : Fin 8) :
    ((readDataAt img inode offset buf length s).2.pcblock.fileStruct d).fpos =
      if d = s.fdVal then r.fpos.getD (s.pcblock.fileStruct d).fpos else (s.pcblock.fileStruct d).fpos := by
  rw [(readDataAt_frame img inode offset buf length s).1, h]
  show (Function.update s.pcblock.fileStruct s.fdVal _ d).fpos = _
  by_cases hd : d = s.fdVal
  · subst hd
    rw [Function.update_self, if_pos rfl]
  · rw [Function.update_of_ne hd, if_neg hd]

section

variable {inode offset length : UInt32}

/-- At the end of what the length word says, nothing is refused. -/
theorem refusesBadInode_end (ho : img.dataLength inode ≤ offset) :
    RefusesBadInode img inode offset length ↔ inode < img.numInodes := by
  have heq : ∀ buf, img.readData inode offset buf length = ⟨0, zero buf length.toNat, none⟩ := by
    intro buf
    unfold Image.readData
    simp only
    rw [if_pos ho]
  constructor
  · intro h
    by_contra hN
    have h1 : (0 : Int) = -1 := (readDataAt_ret (heq _)).symm.trans ((h 0 boot).1.2 hN)
    exact absurd h1 (by decide)
  · intro hN buf s res
    have hret : res.1 = 0 := readDataAt_ret (heq _)
    rw [hret]
    exact ⟨⟨fun h => absurd h (by decide), fun h => absurd hN h⟩, fun h => absurd h (by decide)⟩

/-- Where the check fails, the buffer has been cleared before. -/
theorem refusesBadInode_refused (ho : offset < img.dataLength inode) (hi : img.numInodes - 1 ≤ inode) :
    RefusesBadInode img inode offset length ↔ img.numInodes ≤ inode ∧ length = 0 := by
  have heq : ∀ buf, img.readData inode offset buf length = ⟨-1, zero buf length.toNat, none⟩ := by
    intro buf
    unfold Image.readData
    simp only
    rw [if_neg (UInt32.not_le.2 ho), if_pos hi]
  constructor
  · intro h
    -- in memory without a zero the clearing shows
    let s : Kernel := { boot with user := fun _ _ => 1 }
    have hret : (readDataAt img inode offset 0 length s).1 = -1 := readDataAt_ret (heq _)
    refine ⟨UInt32.not_lt.1 ((h 0 s).1.1 hret), ?_⟩
    by_contra h0
    have hpos : 0 < length.toNat := Nat.pos_of_ne_zero fun hl => h0 (UInt32.toNat_inj.1 hl)
    have hzero : zero (s.userView 0) length.toNat 0 = 0 := if_pos hpos
    have hbyte : (0 : UInt8) = 1 := hzero.symm.trans ((readDataAt_buf (heq _) hpos).symm.trans (((h 0 s).2 hret).1 0 hpos))
    exact absurd hbyte (by decide)
  · rintro ⟨hN, rfl⟩ buf s
    refine ⟨⟨fun _ => UInt32.not_lt.2 hN, fun _ => readDataAt_ret (heq _)⟩, fun _ => ⟨?_, ?_⟩⟩
    · intro k hk
      exact absurd hk (Nat.not_lt_zero k)
    · intro d
      rw [readDataAt_fpos (heq _)]
      split <;> rfl

/-- Where the check succeeds, -1 comes back as a number of bytes, and the position has been moved. -/
theorem refusesBadInode_copied (ho : offset < img.dataLength inode) (hi : inode < img.numInodes - 1) :
    RefusesBadInode img inode offset length ↔
      inode < img.numInodes ∧ ¬ (length = 0xFFFFFFFF ∧ (offset ≠ 0 ∨ img.dataLength inode = 0xFFFFFFFF)) := by
  rw [← rval_eq_neg_one ho]
  generalize hrval : (if offset + length > img.dataLength inode then img.dataLength inode - offset else length) = rval
  have heq : ∀ buf, ∃ b, img.readData inode offset buf length = ⟨rval.toInt32.toInt, b, some (offset + rval)⟩ := by
    intro buf
    unfold Image.readData
    simp only
    rw [if_neg (UInt32.not_le.2 ho), if_neg (UInt32.not_le.2 hi), hrval]
    exact ⟨_, rfl⟩
  constructor
  · intro h
    have hne : ¬ rval.toInt32.toInt = -1 := by
      -- a result of -1 would have moved a position that was elsewhere
      intro hr
      let s : Kernel := { boot with pcblock := { boot.pcblock with
        fileStruct := fun _ => ⟨none, offset + rval + 1, 0⟩ } }
      obtain ⟨b, hb⟩ := heq (s.userView 0)
      have hpos := ((h 0 s).2 ((readDataAt_ret hb).trans hr)).2 s.fdVal
      rw [readDataAt_fpos hb, if_pos rfl] at hpos
      exact absurd hpos (by simp [s])
    refine ⟨?_, hne⟩
    by_contra hN
    obtain ⟨b, hb⟩ := heq (boot.userView 0)
    have h1 := (h 0 boot).1.2 hN
    rw [readDataAt_ret hb] at h1
    exact hne h1
  · rintro ⟨hN, hne⟩ buf s
    obtain ⟨b, hb⟩ := heq (s.userView buf)
    simp only [readDataAt_ret hb]
    exact ⟨⟨fun h => absurd h hne, fun h => absurd hN h⟩, fun h => absurd h hne⟩

end

/-- The inodes `read_data` refuses are those outside `0..num_inodes-1`, with nothing changed, exactly in
these cases: for an inode of the table, at the end of the file, or, but for the last inode, with a length
that is not taken for -1; for any other inode, where the length word read lies past the offset and
nothing is asked for. -/
theorem refusesBadInode_iff (img : Image) (inode offset length : UInt32) :
    let dataLength := img.dataLength inode
    RefusesBadInode img inode offset length ↔
      (inode < img.numInodes ∧ (dataLength ≤ offset ∨
        inode < img.numInodes - 1 ∧ ¬ (length = 0xFFFFFFFF ∧ (offset ≠ 0 ∨ dataLength = 0xFFFFFFFF)))) ∨
      (img.numInodes ≤ inode ∧ img.numInodes - 1 ≤ inode ∧ offset < dataLength ∧ length = 0) := by
  intro dataLength
  by_cases ho : dataLength ≤ offset
  · rw [refusesBadInode_end ho]
    simp [ho, UInt32.not_lt.2 ho]
  · have ho' : offset < dataLength := UInt32.not_le.1 ho
    by_cases hi : img.numInodes - 1 ≤ inode
    · rw [refusesBadInode_refused ho' hi]
      simp [ho, ho', hi, UInt32.not_lt.2 hi]
    · rw [refusesBadInode_copied ho' (UInt32.not_le.1 hi)]
      simp [ho, hi, UInt32.not_le.1 hi, dataLength]

/-- In an image with two inodes a read of the last one is refused. -/
theorem readDataAt_refuses_last :
    (1 : UInt32) < (Image.striped 9000).numInodes ∧
      (readDataAt (Image.striped 9000) 1 0 0x8048000 4 boot).1 = -1 ∧ ¬ RefusesBadInode (Image.striped 9000) 1 0 4 := by
  have hN : (1 : UInt32) < (Image.striped 9000).numInodes := by rw [Image.striped_numInodes]; decide
  have hret : (readDataAt (Image.striped 9000) 1 0 0x8048000 4 boot).1 = -1 := by
    show ((Image.striped 9000).readData 1 0 (boot.userView 0x8048000) 4).ret = -1
    decide +kernel
  exact ⟨hN, hret, fun h => (h 0x8048000 boot).1.1 hret hN⟩

end Kernel

end Os391
