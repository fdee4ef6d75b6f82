/-
The turns of the copy loop of `read_data`. Every turn lowers the bytes left to copy, so the loop ends, and
it stores nothing past the bytes asked for; but from an offset inside a block on the slots of the inode's
table go up faster than the bytes copied.
-/
import Os391.Base.While
import Os391.Files.Data

namespace Os391

open Bytes

namespace Image

/-! ## The loop -/

/-- The locals of `read_data` that its loop changes, and the buffer. -/
structure CopyState where
  indexFlag : Bool
  i : Nat
  left : Nat
  hold : Nat
  buf : Buf

/-- The condition `left > 0`. -/
def copying (c : CopyState) : Bool := 0 < c.left

/-- The body of the loop, on the block in slot `i` of the inode's table. -/
def copyTurn (img : Image) (inode : UInt32) (index : Nat) (c : CopyState) : CopyState :=
  let blockP8tr := img.block inode c.i
  let n := oneBlockSize - index
  if c.indexFlag then
    let src : Buf := fun j => blockP8tr (index + j)
    if (index + c.left) % 2 ^ 32 ≤ oneBlockSize then
      { c with indexFlag := false, left := 0, buf := copy c.buf 0 src c.left }
    else ⟨false, c.i + 1, c.left - n, c.hold + n, copy c.buf c.hold src n⟩
  else
    let c :=
      if c.left ≥ oneBlockSize then ⟨false, c.i + 1, c.left - n, c.hold + n, copy c.buf c.hold blockP8tr oneBlockSize⟩
      else c
    -- the tail test comes in the same turn, still on the block of slot `i`
    if c.left < oneBlockSize then { c with left := 0, buf := copy c.buf c.hold blockP8tr c.left } else c

variable {img : Image} {inode : UInt32} {index : Nat}

theorem index_lt (offset : Nat) : offset % oneBlockSize < oneBlockSize := Nat.mod_lt _ (by decide)

theorem copying_iff {c : CopyState} : copying c = true ↔ 0 < c.left := by
  simp [copying]

/-- The turn on the block the read starts in, when it ends there. -/
theorem copyTurn_first_end {i left hold : Nat} {buf : Buf} (h : (index + left) % 2 ^ 32 ≤ oneBlockSize) :
    copyTurn img inode index ⟨true, i, left, hold, buf⟩ =
      ⟨false, i, 0, hold, copy buf 0 (fun j => img.block inode i (index + j)) left⟩ := by
  simp only [copyTurn, if_pos h, if_true]

theorem copyTurn_first {i left hold : Nat} {buf : Buf} (h : ¬ (index + left) % 2 ^ 32 ≤ oneBlockSize) :
    copyTurn img inode index ⟨true, i, left, hold, buf⟩ =
      ⟨false, i + 1, left - (oneBlockSize - index), hold + (oneBlockSize - index),
        copy buf hold (fun j => img.block inode i (index + j)) (oneBlockSize - index)⟩ := by
  simp only [copyTurn, if_neg h, if_true]

/-- A turn on a whole block that is not the last one. -/
theorem copyTurn_whole {i left hold : Nat} {buf : Buf} (hl : left ≥ oneBlockSize)
    (hn : ¬ left - (oneBlockSize - index) < oneBlockSize) :
    copyTurn img inode index ⟨false, i, left, hold, buf⟩ =
      ⟨false, i + 1, left - (oneBlockSize - index), hold + (oneBlockSize - index),
        copy buf hold (img.block inode i) oneBlockSize⟩ := by
  simp only [copyTurn, if_pos hl, if_neg hn, Bool.false_eq_true, if_false]

/-- A turn on a whole block that also copies the tail. -/
theorem copyTurn_whole_end {i left hold : Nat} {buf : Buf} (hl : left ≥ oneBlockSize)
    (hn : left - (oneBlockSize - index) < oneBlockSize) :
    copyTurn img inode index ⟨false, i, left, hold, buf⟩ =
      ⟨false, i + 1, 0, hold + (oneBlockSize - index),
        copy (copy buf hold (img.block inode i) oneBlockSize) (hold + (oneBlockSize - index)) (img.block inode i)
          (left - (oneBlockSize - index))⟩ := by
  simp only [copyTurn, if_pos hl, if_pos hn, Bool.false_eq_true, if_false]

theorem copyTurn_tail {i left hold : Nat} {buf : Buf} (hl : ¬ left ≥ oneBlockSize) :
    copyTurn img inode index ⟨false, i, left, hold, buf⟩ =
      ⟨false, i, 0, hold, copy buf hold (img.block inode i) left⟩ := by
  simp only [copyTurn, if_neg hl, if_pos (not_le.1 hl), Bool.false_eq_true, if_false]

/-- The recursion of `copyLoop` goes through the turns of the loop. -/
theorem copyLoop_eq_final (hi : index < oneBlockSize) : ∀ {fuel i left hold : Nat} {flag : Bool} {buf : Buf}, left < fuel →
    img.copyLoop inode index fuel flag i left hold buf =
      (While.final copying (copyTurn img inode index) fuel ⟨flag, i, left, hold, buf⟩).buf
  | 0, _, _, _, _, _, hf => absurd hf (Nat.not_lt_zero _)
  | fuel + 1, i, left, hold, flag, buf, hf => by
    have hdone : ∀ {f : Bool} {i hold : Nat} {buf : Buf}, copying ⟨f, i, 0, hold, buf⟩ = false := rfl
    unfold copyLoop
    by_cases h0 : left = 0
    · subst h0
      rw [if_pos rfl, While.final_of_false hdone]
    rw [if_neg h0, While.final_succ fuel (copying_iff.2 (Nat.pos_of_ne_zero h0))]
    cases flag with
    | true =>
      simp only [if_true]
      split
      case isTrue h => rw [copyTurn_first_end h, While.final_of_false hdone]
      case isFalse h => rw [copyTurn_first h, copyLoop_eq_final hi (by omega)]
    | false =>
      simp only [Bool.false_eq_true, if_false]
      split
      case isTrue hl =>
        split
        case isTrue hn => rw [copyTurn_whole_end hl hn, While.final_of_false hdone]
        case isFalse hn => rw [copyTurn_whole hl hn, copyLoop_eq_final hi (by omega)]
      case isFalse hl => rw [copyTurn_tail hl, While.final_of_false hdone]

/-- A turn lowers the bytes left, and stores before the end of the bytes asked for. -/
theorem copyTurn_inside {r : Nat} {buf : Buf} (hi : index < oneBlockSize) (c : CopyState)
    (h : c.hold + c.left ≤ r ∧ ∀ j, r ≤ j → c.buf j = buf j) (hc : copying c = true) :
    ((copyTurn img inode index c).hold + (copyTurn img inode index c).left ≤ r ∧
      ∀ j, r ≤ j → (copyTurn img inode index c).buf j = buf j) ∧ (copyTurn img inode index c).left < c.left := by
  obtain ⟨flag, i, left, hold, b⟩ := c
  obtain ⟨hr, hbuf⟩ := h
  have hl := copying_iff.1 hc
  simp only at hr hbuf hl
  -- what every branch stores lies before `r`
  have hcopy : ∀ {b : Buf} {o n : Nat} {src : Buf}, (∀ j, r ≤ j → b j = buf j) → o + n ≤ r →
      ∀ j, r ≤ j → copy b o src n j = buf j := by
    intro b o n src hb hn j hj
    rw [copy_outside (by omega), hb j hj]
  cases flag with
  | true =>
    by_cases h1 : (index + left) % 2 ^ 32 ≤ oneBlockSize
    · rw [copyTurn_first_end h1]
      dsimp only
      exact ⟨⟨by omega, hcopy hbuf (by omega)⟩, hl⟩
    · have hmod := Nat.mod_le (index + left) (2 ^ 32)
      rw [copyTurn_first h1]
      dsimp only
      exact ⟨⟨by omega, hcopy hbuf (by omega)⟩, by omega⟩
  | false =>
    by_cases h1 : left ≥ oneBlockSize
    · by_cases h2 : left - (oneBlockSize - index) < oneBlockSize
      · rw [copyTurn_whole_end h1 h2]
        dsimp only
        exact ⟨⟨by omega, hcopy (hcopy hbuf (by omega)) (by omega)⟩, hl⟩
      · rw [copyTurn_whole h1 h2]
        dsimp only
        exact ⟨⟨by omega, hcopy hbuf (by omega)⟩, by omega⟩
    · rw [copyTurn_tail h1]
      dsimp only
      exact ⟨⟨by omega, hcopy hbuf (by omega)⟩, hl⟩

/-- The loop ends. -/
theorem copyLoop_ends (hi : index < oneBlockSize) {n : Nat} (c : CopyState) (hn : c.left < n) :
    While.Ends copying (copyTurn img inode index) n c := by
  refine While.ends_of_variant (v := CopyState.left) (I := fun _ => True) ?_ trivial hn
  intro c _ hc
  exact ⟨trivial, (copyTurn_inside hi c ⟨le_refl _, fun _ _ => rfl⟩ hc).2⟩

/-- The loop stores nothing past the bytes asked for. -/
theorem copyLoop_outside (hi : index < oneBlockSize) {fuel i left j : Nat} {flag : Bool} {buf : Buf} (hf : left < fuel)
    (hj : left ≤ j) : img.copyLoop inode index fuel flag i left 0 buf j = buf j := by
  rw [copyLoop_eq_final hi hf]
  let Inside : CopyState → Prop := fun c => c.hold + c.left ≤ left ∧ ∀ j, left ≤ j → c.buf j = buf j
  have hturn : ∀ c, Inside c → copying c = true → Inside (copyTurn img inode index c) :=
    fun c h hc => (copyTurn_inside hi c h hc).1
  have h := While.final_inv hturn fuel (s := ⟨flag, i, left, 0, buf⟩) ⟨by simp only; omega, fun _ _ => rfl⟩
  exact h.2 j hj

/-! ## The slots consulted -/

/-- The state in which the loop of `read_data` starts. -/
def copyStart (offset rval : UInt32) (buf : Buf) : CopyState :=
  ⟨true, offset.toNat / oneBlockSize, rval.toNat, 0, buf⟩

/-- The slots of the inode's table that a call of `read_data` takes block numbers from. -/
def consulted (img : Image) (inode offset : UInt32) (buf : Buf) (length : UInt32) : List Nat :=
  let dataLength := img.dataLength inode
  if offset ≥ dataLength then []
  else if inode ≥ img.numInodes - 1 then []
  else
    let rval := if offset + length > dataLength then dataLength - offset else length
    (While.states copying (copyTurn img inode (offset.toNat % oneBlockSize)) (rval.toNat + 1)
      (copyStart offset rval (zero buf length.toNat))).map CopyState.i

/-- Past the first block the slots follow each other, one for every `4096 - index` bytes. -/
theorem states_slots (hi : index < oneBlockSize) : ∀ {fuel i left hold : Nat} {buf : Buf}, left < fuel → 0 < left →
    (While.states copying (copyTurn img inode index) fuel ⟨false, i, left, hold, buf⟩).map CopyState.i =
      List.range' i ((left - oneBlockSize) / (oneBlockSize - index) + 1)
  | 0, _, _, _, _, hf, _ => absurd hf (Nat.not_lt_zero _)
  | fuel + 1, i, left, hold, buf, hf, h0 => by
    have hdone : ∀ {f : Bool} {i hold : Nat} {buf : Buf}, copying ⟨f, i, 0, hold, buf⟩ = false := rfl
    rw [While.states_succ fuel (copying_iff.2 h0), List.map_cons, List.range'_succ]
    by_cases h1 : left ≥ oneBlockSize
    · by_cases h2 : left - (oneBlockSize - index) < oneBlockSize
      · -- this turn takes the tail too
        have hq : (left - oneBlockSize) / (oneBlockSize - index) = 0 := Nat.div_eq_of_lt (by omega)
        rw [copyTurn_whole_end h1 h2, While.states_of_false hdone, hq, List.map_nil, List.range'_zero]
      · have hq : (left - oneBlockSize) / (oneBlockSize - index) =
            (left - (oneBlockSize - index) - oneBlockSize) / (oneBlockSize - index) + 1 := by
          rw [← Nat.add_div_right _ (by omega), show left - oneBlockSize =
            left - (oneBlockSize - index) - oneBlockSize + (oneBlockSize - index) by omega]
        rw [copyTurn_whole h1 h2, states_slots hi (by omega) (by omega), hq]
    · have hq : (left - oneBlockSize) / (oneBlockSize - index) = 0 := by
        rw [show left - oneBlockSize = 0 by omega, Nat.zero_div]
      rw [copyTurn_tail h1, While.states_of_false hdone, hq, List.map_nil, List.range'_zero]

/-- A read inside the file runs the turns of the loop. -/
theorem readData_turns {offset length : UInt32} (buf : Buf) (hi : inode < img.numInodes - 1)
    (ho : offset < img.dataLength inode) (hsum : offset.toNat + length.toNat < 2 ^ 32) :
    ∃ rval : UInt32, rval.toNat = available (img.dataLength inode) offset length ∧
      let start := copyStart offset rval (zero buf length.toNat)
      let turn := copyTurn img inode (offset.toNat % oneBlockSize)
      img.readData inode offset buf length = ⟨rval.toInt32.toInt,
        (While.final copying turn (rval.toNat + 1) start).buf, some (offset + rval)⟩ ∧
      img.consulted inode offset buf length = (While.states copying turn (rval.toNat + 1) start).map CopyState.i := by
  have hidx := index_lt offset.toNat
  obtain ⟨rval, hr, heq⟩ := readData_copies buf hi ho hsum
  refine ⟨rval, hr, ?_, ?_⟩
  · rw [heq, copyLoop_eq_final hidx (Nat.lt_succ_self _)]
    rfl
  · have hrval : (if offset + length > img.dataLength inode then img.dataLength inode - offset else length) = rval := by
      have hfpos := congrArg DataRead.fpos heq
      unfold readData at hfpos
      simp only at hfpos
      rw [if_neg (UInt32.not_le.2 ho), if_neg (UInt32.not_le.2 hi)] at hfpos
      exact (UInt32.add_right_inj _).1 (Option.some.inj hfpos)
    unfold consulted
    simp only
    rw [if_neg (UInt32.not_le.2 ho), if_neg (UInt32.not_le.2 hi), hrval]

/-- The slots a read inside the file takes block numbers from. -/
theorem consulted_eq {offset length : UInt32} (buf : Buf) (hi : inode < img.numInodes - 1)
    (ho : offset < img.dataLength inode) (hsum : offset.toNat + length.toNat < 2 ^ 32) :
    let r := available (img.dataLength inode) offset length
    let index := offset.toNat % oneBlockSize
    let first := offset.toNat / oneBlockSize
    img.consulted inode offset buf length =
      if r = 0 then []
      else if index + r ≤ oneBlockSize then [first]
      else first :: List.range' (first + 1)
        ((r - (oneBlockSize - index) - oneBlockSize) / (oneBlockSize - index) + 1) := by
  intro r index first
  have hidx : index < oneBlockSize := index_lt offset.toNat
  obtain ⟨rval, hr, -, hcons⟩ := readData_turns buf hi ho hsum
  have hsmall : index + r < 2 ^ 32 := by
    have hle : r ≤ length.toNat := Nat.min_le_left _ _
    have hmod : index ≤ offset.toNat := Nat.mod_le _ _
    omega
  rw [hcons, copyStart, hr]
  by_cases h0 : r = 0
  · rw [if_pos h0, show available _ _ _ = 0 from h0, While.states_of_false rfl]
    rfl
  rw [if_neg h0, While.states_succ _ (copying_iff.2 (Nat.pos_of_ne_zero h0)), List.map_cons]
  by_cases h1 : index + r ≤ oneBlockSize
  · rw [if_pos h1, copyTurn_first_end (by rwa [Nat.mod_eq_of_lt hsmall]), While.states_of_false rfl]
    rfl
  · rw [if_neg h1, copyTurn_first (by rwa [Nat.mod_eq_of_lt hsmall]), states_slots hidx (by omega) (by omega)]

/-- Every slot a read takes a block number from is one of the file's own exactly when the read stays in
the block it starts in, or the last slot, one for every `4096 - index` bytes past the second block, is. -/
theorem consulted_inside_iff (img : Image) (inode offset : UInt32) (buf : Buf) (length : UInt32)
    (hi : inode < img.numInodes - 1) (ho : offset < img.dataLength inode)
    (hsum : offset.toNat + length.toNat < 2 ^ 32) :
    let dataLength := (img.dataLength inode).toNat
    let r := min length.toNat (dataLength - offset.toNat)
    let n := 4096 - offset.toNat % 4096
    (∀ i ∈ img.consulted inode offset buf length, i < (dataLength + 4095) / 4096) ↔
      r ≤ n ∨ (offset.toNat / 4096 + 1 + (r - n - 4096) / n) * 4096 < dataLength := by
  intro dataLength r n
  have ho' : offset.toNat < dataLength := UInt32.lt_iff_toNat_lt.1 ho
  have hcons : img.consulted inode offset buf length =
      if r = 0 then [] else if offset.toNat % 4096 + r ≤ 4096 then [offset.toNat / 4096]
      else offset.toNat / 4096 :: List.range' (offset.toNat / 4096 + 1) ((r - n - 4096) / n + 1) :=
    consulted_eq buf hi ho hsum
  have hn : offset.toNat % 4096 + n = 4096 := by omega
  rw [hcons]
  by_cases h0 : r = 0
  · rw [if_pos h0]
    simp [h0]
  rw [if_neg h0]
  by_cases h1 : offset.toNat % 4096 + r ≤ 4096
  · rw [if_pos h1]
    simp only [List.mem_singleton, forall_eq]
    constructor
    · intro _
      left
      omega
    · intro _
      omega
  · -- the slots follow each other, so the last one decides
    rw [if_neg h1]
    generalize (r - n - 4096) / n = q
    simp only [List.mem_cons, List.mem_range'_1, forall_eq_or_imp]
    constructor
    · rintro ⟨-, h⟩
      have hlast := h (offset.toNat / 4096 + 1 + q) (by omega)
      right
      omega
    · rintro (h | h)
      · omega
      · exact ⟨by omega, fun i hi => by omega⟩

/-- A read of 4096 bytes at offset 4095 of a file of 9000 bytes takes blocks from the slots of the file. -/
theorem consulted_inside_two_blocks :
    (0 : UInt32) < (striped 9000).numInodes - 1 ∧ (4095 : UInt32) < (striped 9000).dataLength 0 ∧
      ∀ i ∈ (striped 9000).consulted 0 4095 (fun _ => 0) 4096, i < (9000 + 4095) / 4096 := by
  have ho : (4095 : UInt32) < (striped 9000).dataLength 0 := by rw [striped_dataLength]; decide
  have h := consulted_inside_iff (striped 9000) 0 4095 (fun _ => 0) 4096 striped_inode ho (by decide)
  rw [striped_dataLength] at h
  exact ⟨striped_inode, ho, h.2 (Or.inr (by decide))⟩

/-- A file of 12288 bytes has the slots 0 to 2; a read of it from offset 2048 on takes a block from slot 3. -/
theorem consulted_past_file :
    (0 : UInt32) < (striped 12288).numInodes - 1 ∧ (2048 : UInt32) < (striped 12288).dataLength 0 ∧
      (2048 : UInt32).toNat + (10240 : UInt32).toNat < 2 ^ 32 ∧
      (striped 12288).consulted 0 2048 (fun _ => 0) 10240 = [0, 1, 2, 3] ∧
      ¬ ∀ i ∈ (striped 12288).consulted 0 2048 (fun _ => 0) 10240, i < (12288 + 4095) / 4096 := by
  have ho : (2048 : UInt32) < (striped 12288).dataLength 0 := by rw [striped_dataLength]; decide
  have hcons : (striped 12288).consulted 0 2048 (fun _ => 0) 10240 = [0, 1, 2, 3] := by
    rw [consulted_eq (fun _ => 0) striped_inode ho (by decide), striped_dataLength]
    decide
  refine ⟨striped_inode, ho, by decide, hcons, ?_⟩
  rw [hcons]
  decide

/-! ## What a call stores -/

/-- `read_data` copies no more than it was asked for: the end of the file cuts the request short, and a sum
that wraps does not get there. -/
theorem rval_le {dataLength offset : UInt32} (length : UInt32) (ho : offset < dataLength) :
    (if offset + length > dataLength then dataLength - offset else length).toNat ≤ length.toNat := by
  have ho' := UInt32.lt_iff_toNat_lt.1 ho
  split
  case isTrue h =>
    have h' := UInt32.lt_iff_toNat_lt.1 h
    have hmod := Nat.mod_le (offset.toNat + length.toNat) (2 ^ 32)
    rw [UInt32.toNat_add] at h'
    rw [UInt32.toNat_sub_of_le _ _ (UInt32.le_of_lt ho)]
    omega
  case isFalse => exact le_refl _

/-- `read_data` writes no further than it is asked, at whatever offset it reads. -/
theorem readData_outside {offset length : UInt32} {buf : Buf} {j : Nat} (hj : length.toNat ≤ j) :
    (img.readData inode offset buf length).buf j = buf j := by
  have hzero : zero buf length.toNat j = buf j := if_neg (by omega)
  unfold readData
  simp only
  split
  case isTrue => exact hzero
  case isFalse ho =>
    split
    case isTrue => exact hzero
    case isFalse =>
      have hle := rval_le length (UInt32.not_le.1 ho)
      dsimp only
      rw [copyLoop_outside (index_lt _) (Nat.lt_succ_self _) (by omega), hzero]

/-- What was asked for beyond the end of the file is zero. -/
theorem readData_cleared {offset length : UInt32} {buf : Buf} {k : Nat} (hi : inode < img.numInodes - 1)
    (ho : offset < img.dataLength inode) (hsum : offset.toNat + length.toNat < 2 ^ 32)
    (hk : available (img.dataLength inode) offset length ≤ k) (hkl : k < length.toNat) :
    (img.readData inode offset buf length).buf k = 0 := by
  obtain ⟨rval, hr, heq⟩ := readData_copies buf hi ho hsum
  rw [heq]
  dsimp only
  rw [copyLoop_outside (index_lt _) (Nat.lt_succ_self _) (by omega)]
  exact if_pos hkl

end Image

end Os391
