/-
Strings as `lib.c` sees them: a NUL-terminated string read through a pointer, `strlen` and
`strncmp`.
-/
import Os391.Base.Bytes
import Mathlib.Data.List.GetD

namespace Os391

open Bytes

/-- A NUL-terminated string: its characters before the terminator, none of which is NUL. -/
structure CString where
  bytes : List UInt8
  noNul : 0 ∉ bytes

namespace CString

/-- Reading through the pointer: the characters, then the terminator. -/
def get (s : CString) : Buf := fun i => s.bytes.getD i 0

/-- `strlen`. -/
def strlen (s : CString) : Nat := s.bytes.length

end CString

/-- A buffer holds a string: its characters and the terminator after them. -/
def IsString (buf : Buf) (str : List UInt8) : Prop := 0 ∉ str ∧ ∀ i, i ≤ str.length → buf i = str.getD i 0

/-- A buffer holds at most one string. -/
theorem IsString.unique {buf : Buf} {a b : List UInt8} (ha : IsString buf a) (hb : IsString buf b) : a = b := by
  have hlen : ∀ {a b : List UInt8}, IsString buf a → IsString buf b → a.length ≤ b.length := by
    intro a b ha hb
    by_contra hlt
    have h0 := (ha.2 b.length (by omega)).symm.trans (hb.2 b.length (le_refl _))
    rw [List.getD_eq_default _ _ (le_refl b.length), List.getD_eq_getElem _ _ (by omega)] at h0
    exact ha.1 (h0 ▸ List.getElem_mem _)
  have heq : a.length = b.length := Nat.le_antisymm (hlen ha hb) (hlen hb ha)
  apply List.ext_getElem heq
  intro i h1 h2
  have h := (ha.2 i (Nat.le_of_lt h1)).symm.trans (hb.2 i (Nat.le_of_lt h2))
  rwa [List.getD_eq_getElem _ _ h1, List.getD_eq_getElem _ _ h2] at h

/-- The bytes of a literal. -/
def ascii (cs : List Char) : List UInt8 := cs.map fun c => c.toNat.toUInt8

/-- `int8_t` is signed. -/
def int8 (b : UInt8) : Int := if b.toNat < 128 then b.toNat else b.toNat - 256

/-- The loop of `strncmp` from index `i` on, with `n - i` characters to go. -/
def strncmpFrom (s1 s2 : Buf) (i : Nat) : Nat → Int
  | 0 => 0
  | n + 1 => if s1 i ≠ s2 i ∨ s1 i = 0 then int8 (s1 i) - int8 (s2 i) else strncmpFrom s1 s2 (i + 1) n

/-- `strncmp`: compares at most `n` characters. -/
def strncmp (s1 s2 : Buf) (n : Nat) : Int := strncmpFrom s1 s2 0 n

theorem int8_inj {a b : UInt8} (h : int8 a = int8 b) : a = b := by
  have ha := a.toNat_lt
  have hb := b.toNat_lt
  apply UInt8.toNat_inj.1
  unfold int8 at h
  split at h <;> split at h <;> omega

/-- Comparing one character with the empty string tests for the empty string. -/
theorem strncmp_empty (s : Buf) : strncmp s (fun _ => 0) 1 = 0 ↔ s 0 = 0 := by
  unfold strncmp strncmpFrom strncmpFrom
  by_cases h : s 0 = 0
  · simp [h]
  · simp only [h, ne_eq, not_false_eq_true, or_false, if_true]
    constructor
    · intro h0
      exact absurd (int8_inj (by omega : int8 (s 0) = int8 0)) h
    · intro h0; cases h0

/-- `strncmp` compares what stands before the first NUL, or the first `n` characters if there is none. -/
theorem strncmpFrom_eq_zero {s1 s2 : Buf} : ∀ {n i : Nat}, strncmpFrom s1 s2 i n = 0 ↔
    ((List.range' i n).map s1).takeWhile (fun b => b ≠ 0) = ((List.range' i n).map s2).takeWhile (fun b => b ≠ 0)
  | 0, i => by simp [strncmpFrom]
  | n + 1, i => by
    unfold strncmpFrom
    rw [List.range'_succ, List.map_cons, List.map_cons, List.takeWhile_cons, List.takeWhile_cons]
    by_cases he : s1 i = s2 i
    · by_cases h0 : s1 i = 0
      · simp [← he, h0]
      · have h0' : s2 i ≠ 0 := by rwa [← he]
        rw [if_neg (by simp [he, h0']), strncmpFrom_eq_zero]
        simp [he, h0']
    · rw [if_pos (Or.inl he)]
      constructor
      · intro h
        exact absurd (int8_inj (by omega)) he
      · intro h
        by_cases h1 : s1 i = 0
        · have h2 : s2 i ≠ 0 := fun h2 => he (h1.trans h2.symm)
          simp [h1, h2] at h
        · by_cases h2 : s2 i = 0
          · simp [h1, h2] at h
          · simp [h1, h2] at h
            exact absurd h.1 he

/-- The characters read through the pointer of a string, up to the terminator. -/
theorem CString.takeWhile_get (s : CString) (n : Nat) :
    ((List.range n).map s.get).takeWhile (fun b => b ≠ 0) = s.bytes.take n := by
  have hall : ∀ b ∈ s.bytes.take n, decide (b ≠ 0) = true := by
    intro b hb
    have hne : b ≠ 0 := by
      rintro rfl
      exact s.noNul (List.mem_of_mem_take hb)
    simpa using hne
  have hsplit : (List.range n).map s.get = s.bytes.take n ++ List.replicate (n - s.bytes.length) 0 := by
    apply List.ext_getElem
    · simp
      omega
    · intro i h1 h2
      simp only [List.length_map, List.length_range] at h1
      simp only [List.getElem_map, List.getElem_range, CString.get]
      by_cases hi : i < s.bytes.length
      · rw [List.getElem_append_left (by simp; omega), List.getElem_take, List.getD_eq_getElem _ _ hi]
      · rw [List.getElem_append_right (by simp; omega), List.getElem_replicate,
          List.getD_eq_default _ _ (by omega)]
  rw [hsplit, List.takeWhile_append_of_pos hall]
  simp

end Os391
