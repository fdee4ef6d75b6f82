/-
Bytes in memory: buffers as functions of an offset, little-endian words, and copies of a given
length, each with what it writes and what it leaves alone.
-/
import Mathlib.Tactic

namespace Bytes

/-- Memory by address. Addresses are integers; none of the modelled ones wraps. -/
abbrev Mem := Int → UInt8

/-- The bytes a pointer gives access to, by offset. -/
abbrev Buf := Nat → UInt8

/-- The little-endian 32-bit word at a byte offset. -/
def word (f : Buf) (i : Nat) : UInt32 :=
  (f i).toUInt32 ||| (f (i + 1)).toUInt32 <<< 8 ||| (f (i + 2)).toUInt32 <<< 16 |||
    (f (i + 3)).toUInt32 <<< 24

/-- `n` bytes of `src` copied to offset `d`. -/
def copy (buf : Buf) (d : Nat) (src : Buf) (n : Nat) : Buf :=
  fun i => if d ≤ i ∧ i < d + n then src (i - d) else buf i

/-- The first `n` bytes set to zero. -/
def zero (buf : Buf) (n : Nat) : Buf := fun i => if i < n then 0 else buf i

/-- The bytes of memory from an address on. -/
def Mem.view (m : Mem) (p : Int) : Buf := fun i => m (p + i)

/-- `n` bytes of a buffer put at an address. -/
def Mem.put (m : Mem) (p : Int) (n : Nat) (buf : Buf) : Mem :=
  fun a => if p ≤ a ∧ a < p + n then buf (a - p).toNat else m a

theorem copy_outside {buf src : Buf} {d n i : Nat} (h : ¬ (d ≤ i ∧ i < d + n)) :
    copy buf d src n i = buf i := by
  simp only [copy, if_neg h]

/-- A copy acts on each byte by itself. -/
theorem copy_congr {buf buf' src : Buf} {d n i : Nat} (h : buf i = buf' i) :
    copy buf d src n i = copy buf' d src n i := by
  simp only [copy, h]

theorem Mem.put_outside {m : Mem} {p a : Int} {n : Nat} {buf : Buf} (h : ¬ (p ≤ a ∧ a < p + n)) :
    m.put p n buf a = m a := by
  simp only [Mem.put, if_neg h]

theorem Mem.put_inside {m : Mem} {p a : Int} {n : Nat} {buf : Buf} (h : p ≤ a ∧ a < p + n) :
    m.put p n buf a = buf (a - p).toNat := by
  simp only [Mem.put, if_pos h]

/-- The value of a word: its bytes lie apart, so the sum takes the place of the disjunction. -/
theorem word_toNat (f : Buf) (i : Nat) : (word f i).toNat =
    (f i).toNat + 2 ^ 8 * (f (i + 1)).toNat + 2 ^ 16 * (f (i + 2)).toNat + 2 ^ 24 * (f (i + 3)).toNat := by
  have h0 := (f i).toNat_lt
  have h1 := (f (i + 1)).toNat_lt
  have h2 := (f (i + 2)).toNat_lt
  have h3 := (f (i + 3)).toNat_lt
  have hs : ∀ (b : UInt8) (n : UInt32), n.toNat < 25 → (b.toUInt32 <<< n).toNat = b.toNat <<< n.toNat := by
    intro b n hn
    have hb := b.toNat_lt
    have hp : 2 ^ n.toNat ≤ 2 ^ 24 := Nat.pow_le_pow_right (by omega) (by omega)
    rw [UInt32.toNat_shiftLeft, UInt8.toNat_toUInt32, Nat.mod_eq_of_lt (by omega : n.toNat < 32), Nat.mod_eq_of_lt]
    rw [Nat.shiftLeft_eq]
    calc b.toNat * 2 ^ n.toNat ≤ b.toNat * 2 ^ 24 := Nat.mul_le_mul_left _ hp
      _ < 2 ^ 32 := by omega
  unfold word
  rw [UInt32.toNat_or, UInt32.toNat_or, UInt32.toNat_or, hs _ 8 (by decide), hs _ 16 (by decide),
    hs _ 24 (by decide), UInt8.toNat_toUInt32]
  show (f i).toNat ||| (f (i + 1)).toNat <<< 8 ||| (f (i + 2)).toNat <<< 16 ||| (f (i + 3)).toNat <<< 24 = _
  rw [Nat.or_comm (f i).toNat, ← Nat.shiftLeft_add_eq_or_of_lt h0, Nat.or_comm _ ((f (i + 2)).toNat <<< 16),
    ← Nat.shiftLeft_add_eq_or_of_lt (by rw [Nat.shiftLeft_eq]; omega),
    Nat.or_comm _ ((f (i + 3)).toNat <<< 24),
    ← Nat.shiftLeft_add_eq_or_of_lt (by simp only [Nat.shiftLeft_eq]; omega)]
  simp only [Nat.shiftLeft_eq]
  omega

theorem toNat_succ {a : UInt32} (h : a.toNat + 1 < 2 ^ 32) : (a + 1).toNat = a.toNat + 1 := by
  rw [UInt32.toNat_add]
  exact Nat.mod_eq_of_lt h

theorem word_congr {f g : Buf} {i j : Nat} (h : ∀ k, k < 4 → f (i + k) = g (j + k)) : word f i = word g j := by
  have h0 : f i = g j := h 0 (by omega)
  unfold word
  rw [h0, h 1 (by omega), h 2 (by omega), h 3 (by omega)]

/-- Words that are equal have the same last byte. -/
theorem word_byte {f g : Buf} {i : Nat} (h : word f i = word g i) : f (i + 3) = g (i + 3) := by
  have h' := congrArg UInt32.toNat h
  rw [word_toNat, word_toNat] at h'
  have h0 := (f i).toNat_lt
  have h1 := (f (i + 1)).toNat_lt
  have h2 := (f (i + 2)).toNat_lt
  have h0' := (g i).toNat_lt
  have h1' := (g (i + 1)).toNat_lt
  have h2' := (g (i + 2)).toNat_lt
  exact UInt8.toNat_inj.1 (by omega)

/-- Byte `k` of a number's little-endian word. -/
def wordByte (v k : Nat) : UInt8 := UInt8.ofNat (v / 2 ^ (8 * k))

theorem word_wordByte {v : Nat} (h : v < 2 ^ 32) : (word (wordByte v) 0).toNat = v := by
  rw [word_toNat]
  simp only [wordByte, UInt8.toNat_ofNat']
  norm_num
  omega

end Bytes
