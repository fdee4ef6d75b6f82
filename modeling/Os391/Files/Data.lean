/-
What `read_data` copies. The file is the concatenation of its data blocks, and a read is exact for
every contents of the file only where it spans few blocks or whole blocks from a block's start on.
-/
import Os391.Fs.Image

namespace Os391

open Bytes

namespace Image

/-! ## Files as bytes -/

/-- `filesystem.num_data_blocks`. -/
def numDataBlocks (img : Image) : UInt32 := img.wordAt 2

/-- The most data blocks an inode lists. -/
def maxBlocks : Nat := 1023

/-- No file is longer than its inode can list blocks for, and the blocks listed exist. -/
structure WellFormed (img : Image) : Prop where
  length : ∀ inode, inode < img.numInodes - 1 → (img.dataLength inode).toNat ≤ maxBlocks * oneBlockSize
  blocks : ∀ inode, inode < img.numInodes - 1 → ∀ i, i * oneBlockSize < (img.dataLength inode).toNat →
    img.wordAt (inodePtr inode + (i + 1)) < img.numDataBlocks

/-- Byte `k` of a file: its data blocks one after the other, in the order of the inode. -/
def fileByte (img : Image) (inode : UInt32) (k : Nat) : UInt8 :=
  img.block inode (k / oneBlockSize) (k % oneBlockSize)

/-- The bytes a read at an offset can give: no more than asked for and no more than are left. -/
def available (dataLength offset length : UInt32) : Nat := min length.toNat (dataLength.toNat - offset.toNat)

/-- `read_data` stores in the buffer what the file holds from the offset on. -/
def ReadsExactly (img : Image) (inode offset : UInt32) (buf : Buf) (length : UInt32) : Prop :=
  ∀ k, k < available (img.dataLength inode) offset length →
    (img.readData inode offset buf length).buf k = img.fileByte inode (offset.toNat + k)

/-! ## The copy loop -/

variable {img : Image} {inode : UInt32} {index : Nat}

/-- Past the first block nothing is written before `hold`. -/
theorem copyLoop_before : ∀ {fuel i left hold j : Nat} {buf : Buf}, j < hold →
    img.copyLoop inode index fuel false i left hold buf j = buf j
  | 0, _, _, _, _, _, _ => rfl
  | fuel + 1, i, left, hold, j, buf, hj => by
    unfold copyLoop
    by_cases hl : left = 0
    · rw [if_pos hl]
    simp only [if_neg hl, Bool.false_eq_true, if_false]
    split
    · split
      · rw [copy_outside (by omega), copy_outside (by omega)]
      · rw [copyLoop_before (by omega), copy_outside (by omega)]
    · exact copy_outside (by omega)

/-- The loop on whole blocks, when the read started at a block's start: the last full block is also
the one the tail is taken from. -/
theorem copyLoop_aligned : ∀ {fuel i left hold k : Nat} {buf : Buf}, left < fuel → k < left →
    img.copyLoop inode 0 fuel false i left hold buf (hold + k) =
      img.block inode (i + min (k / oneBlockSize) (left / oneBlockSize - 1)) (k % oneBlockSize)
  | 0, _, _, _, _, _, hf, _ => by omega
  | fuel + 1, i, left, hold, k, buf, hf, hk => by
    unfold copyLoop
    simp only [if_neg (show left ≠ 0 by omega), Bool.false_eq_true, if_false, Nat.sub_zero]
    unfold oneBlockSize
    by_cases hfull : left ≥ 4096
    · rw [if_pos hfull]
      by_cases htail : left - 4096 < 4096
      · rw [if_pos htail, show left / 4096 - 1 = 0 by omega, Nat.min_zero, Nat.add_zero i]
        by_cases hkb : k < 4096
        · rw [copy_outside (by omega), copy, if_pos (by omega), Nat.add_sub_cancel_left, Nat.mod_eq_of_lt hkb]
        · rw [copy, if_pos (by omega), show hold + k - (hold + 4096) = k % 4096 by omega]
      · rw [if_neg htail]
        by_cases hkb : k < 4096
        · rw [copyLoop_before (by omega), copy, if_pos (by omega), Nat.div_eq_of_lt hkb, Nat.zero_min,
            Nat.add_sub_cancel_left, Nat.mod_eq_of_lt hkb, Nat.add_zero]
        · have hnext : i + 1 + min ((k - 4096) / 4096) ((left - 4096) / 4096 - 1) =
              i + min (k / 4096) (left / 4096 - 1) := by omega
          rw [show hold + k = hold + 4096 + (k - 4096) by omega, copyLoop_aligned (by omega) (by omega),
            oneBlockSize, hnext, show (k - 4096) % 4096 = k % 4096 by omega]
    · have hkb : k < 4096 := by omega
      rw [if_neg hfull, copy, if_pos (by omega), Nat.div_eq_of_lt hkb, Nat.zero_min, Nat.add_sub_cancel_left,
        Nat.mod_eq_of_lt hkb, Nat.add_zero]

/-- A tail shorter than a block comes from the block the loop stands at. -/
theorem copyLoop_tail {fuel i left hold k : Nat} {buf : Buf} (hk : k < left) (hl : left < oneBlockSize) :
    img.copyLoop inode index (fuel + 1) false i left hold buf (hold + k) = img.block inode i k := by
  unfold copyLoop
  simp only [if_neg (show left ≠ 0 by omega), Bool.false_eq_true, if_false]
  rw [if_neg (by omega), copy, if_pos (by omega)]
  congr 1
  omega

/-- When the read started inside a block, a full block is followed too early by the start of the next
one, or by its own. -/
theorem copyLoop_overlap {fuel i left hold : Nat} {buf : Buf} (h0 : 0 < index) (hi : index < oneBlockSize)
    (hf : left < fuel) (hl : oneBlockSize ≤ left) :
    ∃ i', (i' = i ∨ i' = i + 1 ∧ oneBlockSize < left) ∧
      img.copyLoop inode index fuel false i left hold buf (hold + (oneBlockSize - index)) =
        img.block inode i' 0 := by
  have hb : oneBlockSize = 4096 := rfl
  obtain ⟨fuel, rfl⟩ : ∃ n, fuel = n + 2 := ⟨fuel - 2, by omega⟩
  unfold copyLoop
  simp only [if_neg (show left ≠ 0 by omega), Bool.false_eq_true, if_false, if_pos hl]
  split
  · refine ⟨i, Or.inl rfl, ?_⟩
    rw [copy, if_pos (by omega), Nat.sub_self]
  · rename_i hnext
    refine ⟨i + 1, Or.inr ⟨rfl, by omega⟩, ?_⟩
    unfold copyLoop
    simp only [if_neg (show left - (oneBlockSize - index) ≠ 0 by omega), Bool.false_eq_true, if_false,
      if_pos (Nat.not_lt.1 hnext)]
    split
    · rw [copy_outside (by omega), copy, if_pos (by omega), Nat.sub_self]
    · rw [copyLoop_before (by omega), copy, if_pos (by omega), Nat.sub_self]

/-- The first turn of the loop, on the block the read starts in. -/
theorem copyLoop_first {fuel i left : Nat} {buf : Buf} (hi : index < oneBlockSize)
    (hl : left ≤ maxBlocks * oneBlockSize) :
    img.copyLoop inode index (fuel + 1) true i left 0 buf =
      if index + left ≤ oneBlockSize then copy buf 0 (fun j => img.block inode i (index + j)) left
      else img.copyLoop inode index fuel false (i + 1) (left - (oneBlockSize - index)) (oneBlockSize - index)
        (copy buf 0 (fun j => img.block inode i (index + j)) (oneBlockSize - index)) := by
  have hb : maxBlocks * oneBlockSize + oneBlockSize < 2 ^ 32 := by decide
  conv_lhs => unfold copyLoop
  rw [Nat.mod_eq_of_lt (by omega)]
  by_cases h0 : left = 0
  · subst h0
    rw [if_pos rfl, if_pos (by omega)]
    funext j
    exact (copy_outside (by omega)).symm
  · simp only [if_neg h0, if_true, Nat.zero_add]

/-- The reads that are exact whatever the file holds: those that end before the second block after
the one they start in, and those of whole blocks from a block's start on. -/
def FewBlocks (offset r : Nat) : Prop :=
  offset % oneBlockSize + r < 2 * oneBlockSize ∨ offset % oneBlockSize = 0 ∧ r % oneBlockSize = 0

instance (offset r : Nat) : Decidable (FewBlocks offset r) :=
  inferInstanceAs (Decidable (_ < _ ∨ _ ∧ _))

/-- The loop over few blocks, from its start at offset `o`. -/
theorem copyLoop_exact {o r k : Nat} {buf : Buf} (hr : r ≤ maxBlocks * oneBlockSize) (hf : FewBlocks o r)
    (hk : k < r) :
    img.copyLoop inode (o % oneBlockSize) (r + 1) true (o / oneBlockSize) r 0 buf k = img.fileByte inode (o + k) := by
  rw [copyLoop_first (Nat.mod_lt _ (by decide)) hr]
  unfold fileByte
  unfold FewBlocks at hf
  unfold oneBlockSize at *
  by_cases hone : o % 4096 + r ≤ 4096
  · rw [if_pos hone, copy, if_pos (by omega), Nat.sub_zero]
    by_cases hend : o % 4096 + k < 4096
    · rw [show (o + k) / 4096 = o / 4096 by omega, show (o + k) % 4096 = o % 4096 + k by omega]
    · omega
  rw [if_neg hone]
  by_cases hfirst : k < 4096 - o % 4096
  · rw [copyLoop_before hfirst, copy, if_pos (by omega), Nat.sub_zero,
      show (o + k) / 4096 = o / 4096 by omega, show (o + k) % 4096 = o % 4096 + k by omega]
  obtain ⟨m, rfl⟩ : ∃ m, k = 4096 - o % 4096 + m := ⟨k - (4096 - o % 4096), by omega⟩
  rcases hf with hf | ⟨ho, hm⟩
  · -- the second block is the last one
    obtain ⟨r, rfl⟩ : ∃ n, r = n + 1 := ⟨r - 1, by omega⟩
    rw [copyLoop_tail (by omega) (by unfold oneBlockSize; omega)]
    rw [show (o + (4096 - o % 4096 + m)) / 4096 = o / 4096 + 1 by omega,
      show (o + (4096 - o % 4096 + m)) % 4096 = m by omega]
  · simp only [ho, Nat.sub_zero] at hk ⊢
    rw [copyLoop_aligned (by omega) (by omega)]
    unfold oneBlockSize
    have hq : o / 4096 + 1 + min (m / 4096) ((r - 4096) / 4096 - 1) = (o + (4096 + m)) / 4096 := by omega
    rw [hq, show (o + (4096 + m)) % 4096 = m % 4096 by omega]

/-! ## read_data -/

/-- A read inside the file, of a length that does not wrap, runs the copy loop. -/
theorem readData_copies {offset length : UInt32} (buf : Buf) (hi : inode < img.numInodes - 1)
    (ho : offset < img.dataLength inode) (hsum : offset.toNat + length.toNat < 2 ^ 32) :
    ∃ rval : UInt32, rval.toNat = available (img.dataLength inode) offset length ∧
      img.readData inode offset buf length = ⟨rval.toInt32.toInt,
        img.copyLoop inode (offset.toNat % oneBlockSize) (rval.toNat + 1) true (offset.toNat / oneBlockSize)
          rval.toNat 0 (zero buf length.toNat), some (offset + rval)⟩ := by
  have ho' := UInt32.lt_iff_toNat_lt.1 ho
  refine ⟨if offset + length > img.dataLength inode then img.dataLength inode - offset else length, ?_, ?_⟩
  · have hadd : (offset + length).toNat = offset.toNat + length.toNat := by
      rw [UInt32.toNat_add, Nat.mod_eq_of_lt hsum]
    unfold available
    split
    · rename_i hgt
      have hgt' := UInt32.lt_iff_toNat_lt.1 hgt
      rw [UInt32.toNat_sub_of_le _ _ (UInt32.le_iff_toNat_le.2 (Nat.le_of_lt ho'))]
      omega
    · rename_i hle
      have hle' := UInt32.le_iff_toNat_le.1 (UInt32.not_lt.1 hle)
      omega
  · unfold readData
    simp only
    rw [if_neg (UInt32.not_le.2 ho), if_neg (UInt32.not_le.2 hi)]

/-- A read over few blocks is exact. -/
theorem readData_exact {offset length : UInt32} (buf : Buf) (hi : inode < img.numInodes - 1)
    (hlen : (img.dataLength inode).toNat ≤ maxBlocks * oneBlockSize) (ho : offset < img.dataLength inode)
    (hsum : offset.toNat + length.toNat < 2 ^ 32)
    (hf : FewBlocks offset.toNat (available (img.dataLength inode) offset length)) :
    img.ReadsExactly inode offset buf length := by
  intro k hk
  obtain ⟨rval, hr, heq⟩ := readData_copies buf hi ho hsum
  have hle : rval.toNat ≤ maxBlocks * oneBlockSize := by
    rw [hr]; exact (Nat.min_le_right _ _).trans ((Nat.sub_le _ _).trans hlen)
  rw [heq]
  exact copyLoop_exact hle (hr ▸ hf) (hr ▸ hk)

/-! ## Files that show which block a byte comes from -/

/-- An image with one file, of inode 0, whose blocks are the data blocks in order. Every block starts
with the parity of its number and holds 2 otherwise. -/
def striped (dataLength : UInt32) : Image where
  byte a :=
    if a < 4096 then wordByte (if a / 4 = 1 then 2 else if a / 4 = 2 then 1023 else 0) (a % 4)
    else if a < 8192 then
      wordByte (if a / 4 = 1024 then dataLength.toNat else a / 4 - 1025) (a % 4)
    else if a % 4096 = 0 then UInt8.ofNat ((a / 4096 + 1) % 2)
    else 2

section

variable {dataLength : UInt32}

theorem striped_wordAt {w : Nat} (hw : w < 2048) : ((striped dataLength).wordAt w).toNat =
    if w < 1024 then (if w = 1 then 2 else if w = 2 then 1023 else 0)
    else if w = 1024 then dataLength.toNat else w - 1025 := by
  have hd := dataLength.toNat_lt
  have hbyte : ∀ i, i < 4 → (striped dataLength).byte ((4 * w + i) % 2 ^ 32) = wordByte
      (if w < 1024 then (if w = 1 then 2 else if w = 2 then 1023 else 0)
        else if w = 1024 then dataLength.toNat else w - 1025) i := by
    intro i hi
    rw [Nat.mod_eq_of_lt (by omega)]
    unfold striped
    simp only [show (4 * w + i) / 4 = w by omega, show (4 * w + i) % 4 = i by omega]
    by_cases h : w < 1024
    · rw [if_pos (by omega), if_pos h]
    · rw [if_neg (by omega), if_pos (by omega), if_neg h]
  unfold wordAt
  rw [word_congr (g := wordByte _) (j := 0) fun k hk => by rw [Nat.zero_add]; exact hbyte k hk]
  apply word_wordByte
  split_ifs <;> omega

theorem striped_numInodes : (striped dataLength).numInodes = 2 :=
  UInt32.toNat_inj.1 (striped_wordAt (by omega))

/-- Its inode 0 is one that reads go through to. -/
theorem striped_inode : 0 < (striped dataLength).numInodes - 1 := by
  rw [striped_numInodes]
  decide

theorem striped_dataLength : (striped dataLength).dataLength 0 = dataLength := by
  have hptr : inodePtr 0 = 1024 := rfl
  apply UInt32.toNat_inj.1
  rw [Image.dataLength, hptr, striped_wordAt (by omega), if_neg (by omega), if_pos rfl]

theorem striped_block {i j : Nat} (hi : i < maxBlocks) (hj : j < oneBlockSize) :
    (striped dataLength).block 0 i j = if j = 0 then UInt8.ofNat (i % 2) else 2 := by
  unfold maxBlocks at hi
  unfold oneBlockSize at hj
  have hnum : ((striped dataLength).wordAt (inodePtr 0 + (i + 1))).toNat = i := by
    have hptr : inodePtr 0 = 1024 := rfl
    rw [striped_wordAt (by omega), if_neg (by omega), if_neg (by omega)]
    omega
  have hstart : (striped dataLength).dataStart = 3072 := by
    unfold dataStart
    rw [striped_numInodes]
    rfl
  unfold block
  simp only [hnum, hstart]
  rw [Nat.mod_eq_of_lt (by omega)]
  unfold striped
  simp only
  rw [if_neg (by omega), if_neg (by omega)]
  by_cases h0 : j = 0
  · rw [if_pos (by omega), if_pos h0, show ((4 * (3072 + i * 1024) + j) / 4096 + 1) % 2 = i % 2 by omega]
  · rw [if_neg (by omega), if_neg h0]

theorem striped_wellFormed (hl : dataLength.toNat ≤ maxBlocks * oneBlockSize) : (striped dataLength).WellFormed := by
  have hzero : ∀ inode : UInt32, inode < (striped dataLength).numInodes - 1 → inode = 0 := by
    intro inode hi
    rw [striped_numInodes] at hi
    have hi' := UInt32.lt_iff_toNat_lt.1 hi
    exact UInt32.toNat_inj.1 (Nat.lt_one_iff.1 hi')
  constructor
  · intro inode hi
    rw [hzero inode hi, striped_dataLength]
    exact hl
  · intro inode hi i hlt
    rw [hzero inode hi, striped_dataLength] at *
    have hptr : inodePtr 0 = 1024 := rfl
    unfold maxBlocks oneBlockSize at *
    apply UInt32.lt_iff_toNat_lt.2
    rw [numDataBlocks, striped_wordAt (by omega), striped_wordAt (by omega)]
    rw [if_neg (by omega), if_neg (by omega), if_pos (by omega), if_neg (by omega), if_pos rfl]
    omega

/-- The loop over more blocks puts some byte of the striped file in a wrong place. -/
theorem striped_copyLoop (dataLength : UInt32) {o r : Nat} (buf : Buf) (hend : o + r ≤ maxBlocks * oneBlockSize) (hf : ¬ FewBlocks o r) :
    ∃ k, k < r ∧ (striped dataLength).copyLoop 0 (o % oneBlockSize) (r + 1) true (o / oneBlockSize) r 0 buf k ≠
      (striped dataLength).fileByte 0 (o + k) := by
  unfold fileByte
  rw [copyLoop_first (Nat.mod_lt _ (by decide)) (by omega)]
  unfold FewBlocks at hf
  have hb : oneBlockSize = 4096 := rfl
  have hm : maxBlocks = 1023 := rfl
  rw [hb, hm] at hend
  rw [hb] at hf ⊢
  rw [if_neg (by omega)]
  by_cases h0 : o % 4096 = 0
  · -- the tail comes from the block before the right one
    refine ⟨4096 + (r / 4096 - 1) * 4096, by omega, ?_⟩
    simp only [h0, Nat.sub_zero]
    rw [copyLoop_aligned (by omega) (by omega), hb,
      striped_block (by omega) (by omega), striped_block (by omega) (by omega), if_pos (by omega), if_pos (by omega)]
    have hpar : (o / 4096 + 1 + min ((r / 4096 - 1) * 4096 / 4096) ((r - 4096) / 4096 - 1)) % 2 ≠
        (o + (4096 + (r / 4096 - 1) * 4096)) / 4096 % 2 := by omega
    intro h
    have h' := congrArg UInt8.toNat h
    rw [UInt8.toNat_ofNat', UInt8.toNat_ofNat'] at h'
    omega
  · -- the first byte of some block stands where the middle of the second one belongs
    refine ⟨4096 - o % 4096 + (4096 - o % 4096), by omega, ?_⟩
    let first := copy buf 0 (fun j => (striped dataLength).block 0 (o / 4096) (o % 4096 + j)) (4096 - o % 4096)
    obtain ⟨i', hi', h⟩ := @copyLoop_overlap (striped dataLength) 0 (o % 4096) r (o / 4096 + 1)
      (r - (4096 - o % 4096)) (4096 - o % 4096) first (by omega) (by omega) (by omega) (by omega)
    rw [hb] at h
    rw [h, striped_block (by omega) (by omega), striped_block (by omega) (by omega), if_pos rfl, if_neg (by omega)]
    intro h2
    have h2' := congrArg UInt8.toNat h2
    rw [UInt8.toNat_ofNat'] at h2'
    change i' % 2 % 256 = 2 at h2'
    omega

/-- A read of the striped file over more blocks goes wrong. -/
theorem striped_inexact {offset length : UInt32} {buf : Buf} (hl : dataLength.toNat ≤ maxBlocks * oneBlockSize)
    (ho : offset < dataLength) (hsum : offset.toNat + length.toNat < 2 ^ 32)
    (hf : ¬ FewBlocks offset.toNat (available dataLength offset length)) :
    ¬ (striped dataLength).ReadsExactly 0 offset buf length := by
  intro h
  have ho' : offset < (striped dataLength).dataLength 0 := by rw [striped_dataLength]; exact ho
  obtain ⟨rval, hr, heq⟩ := readData_copies buf striped_inode ho' hsum
  rw [striped_dataLength] at hr
  have hend : offset.toNat + rval.toNat ≤ maxBlocks * oneBlockSize := by
    have hlt := UInt32.lt_iff_toNat_lt.1 ho
    rw [hr]
    unfold available
    omega
  obtain ⟨k, hk, hne⟩ := striped_copyLoop dataLength (zero buf length.toNat) hend (hr ▸ hf)
  have hk' := h k (by rw [striped_dataLength, ← hr]; exact hk)
  rw [heq] at hk'
  exact hne hk'

end

/-- `read_data` gives the file's own bytes for every contents of the file exactly when the read spans
few blocks. -/
theorem readData_exact_iff (dataLength offset length : UInt32) (hl : dataLength.toNat ≤ maxBlocks * oneBlockSize)
    (ho : offset < dataLength) (hsum : offset.toNat + length.toNat < 2 ^ 32) :
    (∀ (img : Image) (inode : UInt32) (buf : Buf), img.WellFormed → inode < img.numInodes - 1 →
      img.dataLength inode = dataLength → img.ReadsExactly inode offset buf length) ↔
    FewBlocks offset.toNat (available dataLength offset length) := by
  constructor
  · intro h
    by_contra hf
    exact striped_inexact hl ho hsum hf
      (h (striped dataLength) 0 (fun _ => 0) (striped_wellFormed hl) striped_inode striped_dataLength)
  · rintro hf img inode buf hw hi rfl
    exact readData_exact buf hi hl ho hsum hf

/-- A read of 4096 bytes at offset 4095 of a file of 9000 bytes is exact. -/
theorem readData_exact_two_blocks :
    (striped 9000).dataLength 0 = 9000 ∧ (striped 9000).ReadsExactly 0 4095 (fun _ => 0) 4096 := by
  have h := (readData_exact_iff 9000 4095 4096 (by decide) (by decide) (by decide)).2 (by decide)
  exact ⟨striped_dataLength, h (striped 9000) 0 (fun _ => 0) (striped_wellFormed (by decide)) striped_inode striped_dataLength⟩

/-- The third block of a file of 8193 bytes holds one byte, and reading the whole file stores the first
byte of the second block in its place. -/
theorem readData_wrong_block :
    (striped 8193).WellFormed ∧ 0 < (striped 8193).numInodes - 1 ∧ (striped 8193).dataLength 0 = 8193 ∧
      ((striped 8193).readData 0 0 (fun _ => 0) 8193).buf 8192 = 1 ∧ (striped 8193).fileByte 0 8192 = 0 ∧
      ¬ (striped 8193).ReadsExactly 0 0 (fun _ => 0) 8193 := by
  refine ⟨striped_wellFormed (by decide), striped_inode, striped_dataLength, ?_, ?_, ?_⟩
  · decide +kernel
  · decide +kernel
  · exact striped_inexact (by decide) (by decide) (by decide) (by decide)

end Image

end Os391
