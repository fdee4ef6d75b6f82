/-
Two-level page tables of a 386 that lie in memory: the walk from a linear address to a physical one, with 4 KB and
4 MB pages, and what it does not depend on, the bits that the processor sets in the entries it uses.
-/
import Os391.Base.X86

namespace Paging

open X86

/-! ## Entries -/

/-- An entry of a directory or a table that lies at an address. -/
def entry (mem : Memory) (t : UInt32) (i : Nat) : UInt32 := of32 (mem.load (t + UInt32.ofNat (4 * i)) 4)

/-- An entry written. -/
def setEntry (t : UInt32) (i : Nat) (e : UInt32) (mem : Memory) : Memory :=
  mem.store (t + UInt32.ofNat (4 * i)) (le32 e)

/-- A bit of an entry or a control register. -/
def bit (k : Nat) (e : UInt32) : Bool := e.toNat.testBit k

/-- The bits from `k` on, in their place. -/
def frame (k : UInt32) (e : UInt32) : UInt32 := e >>> k <<< k

/-- A directory or a table begins where a page does. -/
def Aligned (t : UInt32) : Prop := t.toNat % 2 ^ 12 = 0

/-- Equal but for the two bits that the processor sets, accessed and dirty. -/
def Marked (e e' : UInt32) : Prop := e.toNat % 2 ^ 5 = e'.toNat % 2 ^ 5 ∧ e.toNat / 2 ^ 7 = e'.toNat / 2 ^ 7

instance marked_decidable (e e' : UInt32) : Decidable (Marked e e') := inferInstanceAs (Decidable (_ ∧ _))

theorem frame_toNat {k : UInt32} (hk : k.toNat < 32) (e : UInt32) :
    (frame k e).toNat = e.toNat / 2 ^ k.toNat * 2 ^ k.toNat := by
  have hle : e.toNat / 2 ^ k.toNat * 2 ^ k.toNat ≤ e.toNat := Nat.div_mul_le_self _ _
  have hlt := e.toNat_lt
  rw [frame, UInt32.toNat_shiftLeft, UInt32.toNat_shiftRight, Nat.mod_eq_of_lt hk, Nat.shiftRight_eq_div_pow,
    Nat.shiftLeft_eq, Nat.mod_eq_of_lt (by omega)]

theorem frame_of_aligned {t : UInt32} (h : Aligned t) {f : Nat} (hf : f < 2 ^ 12) : frame 12 (t + UInt32.ofNat f) = t := by
  have hlt := t.toNat_lt
  unfold Aligned at h
  refine UInt32.toNat_inj.1 ?_
  rw [frame_toNat (by decide), UInt32.toNat_add, UInt32.toNat_ofNat', Nat.mod_eq_of_lt (by omega : f < 2 ^ 32)]
  show (t.toNat + f) % 2 ^ 32 / 2 ^ 12 * 2 ^ 12 = t.toNat
  omega

/-- Bytes of two entries lie apart. -/
theorem entry_apart {t t' : UInt32} {i j a b : Nat} (ht : Aligned t) (ht' : Aligned t') (hi : i < 1024) (hj : j < 1024)
    (ha : a < 4) (hb : b < 4) (hne : ¬ (t = t' ∧ i = j)) :
    t' + UInt32.ofNat (4 * j) + UInt32.ofNat a ≠ t + UInt32.ofNat (4 * i) + UInt32.ofNat b := by
  intro h
  have hlt := t.toNat_lt
  have hlt' := t'.toNat_lt
  have h' := congrArg UInt32.toNat h
  rw [offset_add, offset_add, UInt32.toNat_add, UInt32.toNat_add, UInt32.toNat_ofNat', UInt32.toNat_ofNat'] at h'
  unfold Aligned at ht ht'
  refine hne ⟨UInt32.toNat_inj.1 ?_, ?_⟩ <;> omega

/-- Writing an entry changes that one. -/
theorem entry_setEntry {t t' : UInt32} {i j : Nat} (ht : Aligned t) (ht' : Aligned t') (hi : i < 1024) (hj : j < 1024)
    (e : UInt32) (mem : Memory) : entry (setEntry t i e mem) t' j = if t = t' ∧ i = j then e else entry mem t' j := by
  unfold entry setEntry
  split_ifs with h
  · obtain ⟨rfl, rfl⟩ := h
    have hload := @Memory.load_store mem (t + UInt32.ofNat (4 * i)) (le32 e) (by rw [length_le32]; decide)
    rw [length_le32] at hload
    rw [hload, of32_le32]
  · refine congrArg of32 (Memory.load_congr fun a ha => Memory.store_other fun b hb => ?_)
    exact entry_apart ht ht' hi hj ha hb h

/-- A byte that lies in no entry stays. -/
theorem setEntry_outside {t a : UInt32} {i : Nat} (ht : Aligned t) (hi : i < 1024) (e : UInt32) (mem : Memory)
    (h : a.toNat < t.toNat ∨ t.toNat + 2 ^ 12 ≤ a.toNat) : setEntry t i e mem a = mem a := by
  refine Memory.store_other fun b hb heq => ?_
  rw [length_le32] at hb
  have hlt := t.toNat_lt
  have h' := congrArg UInt32.toNat heq
  rw [offset_add, UInt32.toNat_add, UInt32.toNat_ofNat'] at h'
  unfold Aligned at ht
  omega

/-! ## Marked entries -/

theorem Marked.refl (e : UInt32) : Marked e e := ⟨rfl, rfl⟩

theorem Marked.trans {e e' e'' : UInt32} (h : Marked e e') (h' : Marked e' e'') : Marked e e'' :=
  ⟨h.1.trans h'.1, h.2.trans h'.2⟩

theorem Marked.bit {e e' : UInt32} (h : Marked e e') {k : Nat} (hk : k < 5 ∨ 7 ≤ k) : bit k e = bit k e' := by
  unfold Paging.bit
  rcases hk with hk | hk
  · have hlow := congrArg (Nat.testBit · k) h.1
    simpa only [Nat.testBit_mod_two_pow, decide_eq_true hk, Bool.true_and] using hlow
  · obtain ⟨j, rfl⟩ := Nat.exists_eq_add_of_le hk
    have hhigh := congrArg (Nat.testBit · j) h.2
    simpa only [Nat.testBit_div_two_pow, Nat.add_comm j 7] using hhigh

theorem Marked.frame {e e' : UInt32} (h : Marked e e') {k : UInt32} (hk : 7 ≤ k.toNat) (hk' : k.toNat < 32) :
    frame k e = frame k e' := by
  refine UInt32.toNat_inj.1 ?_
  obtain ⟨j, hj⟩ := Nat.exists_eq_add_of_le hk
  rw [frame_toNat hk', frame_toNat hk', hj, Nat.pow_add, ← Nat.div_div_eq_div_mul, ← Nat.div_div_eq_div_mul, h.2]

/-! ## The walk -/

/-- Who accesses memory, and how. -/
structure Access where
  user : Bool
  write : Bool
  deriving DecidableEq

/-- What an entry lets pass. A program of the user needs its two bits; the kernel may write any page, unless `wp` is set. -/
def allows (wp : Bool) (a : Access) (e : UInt32) : Bool :=
  bit 0 e && (!a.user || bit 2 e) && (!(a.write && (a.user || wp)) || bit 1 e)

/-- The control registers and memory. -/
structure Mmu where
  cr0 : UInt32
  cr3 : UInt32
  cr4 : UInt32
  mem : Memory

/-- The physical address of a linear one; `none` is a page fault. Before bit 31 of CR0 is set there are no pages, and
without bit 4 of CR4 there are none of 4 MB. -/
def Mmu.translate (m : Mmu) (a : Access) (lin : UInt32) : Option UInt32 :=
  if bit 31 m.cr0 then
    let pde := entry m.mem (frame 12 m.cr3) (lin.toNat / 2 ^ 22)
    if allows (bit 16 m.cr0) a pde then
      if bit 4 m.cr4 && bit 7 pde then some (frame 22 pde + UInt32.ofNat (lin.toNat % 2 ^ 22))
      else
        let pte := entry m.mem (frame 12 pde) (lin.toNat / 2 ^ 12 % 2 ^ 10)
        if allows (bit 16 m.cr0) a pte then some (frame 12 pte + UInt32.ofNat (lin.toNat % 2 ^ 12)) else none
    else none
  else some lin

/-- A byte read at a linear address. -/
def Mmu.load (user : Bool) (lin : UInt32) (m : Mmu) : Option UInt8 := (m.translate ⟨user, false⟩ lin).map m.mem

/-- A byte written at a linear address; a page fault writes nothing. -/
def Mmu.store (user : Bool) (lin : UInt32) (b : UInt8) (m : Mmu) : Option Mmu :=
  (m.translate ⟨user, true⟩ lin).map fun p => { m with mem := Function.update m.mem p b }

theorem Marked.allows {e e' : UInt32} (h : Marked e e') (wp : Bool) (a : Access) : allows wp a e = allows wp a e' := by
  unfold Paging.allows
  rw [h.bit (by decide : 0 < 5 ∨ 7 ≤ 0), h.bit (by decide : 1 < 5 ∨ 7 ≤ 1), h.bit (by decide : 2 < 5 ∨ 7 ≤ 2)]

section

variable {m : Mmu} {a : Access} {lin e e' : UInt32} (hpg : bit 31 m.cr0 = true)
include hpg

/-- An address behind an absent entry. -/
theorem translate_absent (he : Marked e (entry m.mem (frame 12 m.cr3) (lin.toNat / 2 ^ 22))) (h : bit 0 e = false) :
    m.translate a lin = none := by
  unfold Mmu.translate
  rw [if_pos hpg]
  dsimp only
  rw [← he.allows, allows, h]
  rfl

/-- An address in a page of 4 MB. -/
theorem translate_large (he : Marked e (entry m.mem (frame 12 m.cr3) (lin.toNat / 2 ^ 22))) (hpse : bit 4 m.cr4 = true)
    (h : bit 7 e = true) :
    m.translate a lin =
      if allows (bit 16 m.cr0) a e then some (frame 22 e + UInt32.ofNat (lin.toNat % 2 ^ 22)) else none := by
  unfold Mmu.translate
  rw [if_pos hpg]
  dsimp only
  rw [← he.allows, ← he.bit (by decide : 7 < 5 ∨ 7 ≤ 7), ← he.frame (by decide) (by decide), hpse, h]
  rfl

/-- An address in a page of 4 KB. -/
theorem translate_small (he : Marked e (entry m.mem (frame 12 m.cr3) (lin.toNat / 2 ^ 22))) (h : bit 7 e = false)
    (he' : Marked e' (entry m.mem (frame 12 e) (lin.toNat / 2 ^ 12 % 2 ^ 10))) :
    m.translate a lin =
      if allows (bit 16 m.cr0) a e && allows (bit 16 m.cr0) a e' then
        some (frame 12 e' + UInt32.ofNat (lin.toNat % 2 ^ 12))
      else none := by
  have htable : frame 12 e = frame 12 (entry m.mem (frame 12 m.cr3) (lin.toNat / 2 ^ 22)) :=
    he.frame (by decide) (by decide)
  unfold Mmu.translate
  rw [if_pos hpg]
  dsimp only
  rw [← he.allows, ← he.bit (by decide : 7 < 5 ∨ 7 ≤ 7), h, Bool.and_false, ← htable, ← he'.allows,
    ← he'.frame (by decide) (by decide)]
  rcases allows (bit 16 m.cr0) a e <;> rfl

end

end Paging
