/-
`itoa`, `strrev` and `strlen` of `lib.c` on a buffer, and the numerals they make.
-/
import Os391.Base.While
import Os391.Lib.Str
import Mathlib.Data.Nat.Digits.Defs

namespace Os391

open Bytes

namespace Itoa

/-- More turns than a loop over the digits of a number takes. -/
def turns : Nat := 64

/-- `strlen`. -/
def strlen (s : Buf) : Nat := While.final (fun len => s len ≠ 0) (· + 1) turns 0

/-- What a string of the buffer is printed as. -/
def text (s : Buf) : List UInt8 := (List.range (strlen s)).map s

/-- The variables of `strrev`. -/
structure Ends where
  s : Buf
  first : Int
  last : Int

/-- A turn of `strrev`. -/
def swap (e : Ends) : Ends :=
  let tmp := e.s e.last.toNat
  let s := Function.update e.s e.last.toNat (e.s e.first.toNat)
  { s := Function.update s e.first.toNat tmp, first := e.first + 1, last := e.last - 1 }

/-- `strrev`. -/
def strrev (s : Buf) : Buf := (While.final (fun e => e.first < e.last) swap turns ⟨s, 0, strlen s - 1⟩).s

/-- The digits of `itoa`. -/
def lookup : Buf := fun i => (ascii "0123456789ABCDEFGHIJKLMNOPQRSTUVWXYZ".toList).getD i 0

/-- The variables of `itoa`. -/
structure Digits where
  newval : UInt32
  newbuf : Nat
  buf : Buf

/-- A turn of `itoa`. -/
def digit (radix : UInt32) (d : Digits) : Digits :=
  let i := d.newval % radix
  { newval := d.newval / radix, newbuf := d.newbuf + 1, buf := Function.update d.buf d.newbuf (lookup i.toNat) }

/-- `itoa`. -/
def itoa (value : UInt32) (buf : Buf) (radix : UInt32) : Buf :=
  if value = 0 then Function.update (Function.update buf 0 48) 1 0
  else
    let d := While.final (fun d : Digits => d.newval > 0) (digit radix) turns ⟨value, 0, buf⟩
    strrev (Function.update d.buf d.newbuf 0)

end Itoa

/-! ## strlen -/

open Itoa

theorem strlen_from {s : Buf} {str : List UInt8} (h : IsString s str) {n i : Nat} (hi : i ≤ str.length)
    (hn : str.length ≤ n + i) : While.final (fun len => s len ≠ 0) (· + 1) n i = str.length := by
  refine While.final_count ?_ hi (fun j _ hj => ?_) hn
  · rw [h.2 _ le_rfl, List.getD_eq_default _ _ le_rfl]
    rfl
  · rw [h.2 j hj.le, List.getD_eq_getElem _ _ hj]
    exact decide_eq_true fun h0 => h.1 (h0 ▸ List.getElem_mem hj)

theorem strlen_isString {s : Buf} {str : List UInt8} (h : IsString s str) (hlen : str.length ≤ turns) :
    Itoa.strlen s = str.length :=
  strlen_from h (Nat.zero_le _) hlen

theorem text_isString {s : Buf} {str : List UInt8} (h : IsString s str) (hlen : str.length ≤ turns) :
    text s = str := by
  refine List.ext_getElem (by simp [text, strlen_isString h hlen]) fun i hi hi' => ?_
  simp only [text, List.getElem_map, List.getElem_range]
  rw [h.2 i hi'.le, List.getD_eq_getElem _ _ hi']

/-! ## strrev -/

/-- After `k` turns the first and the last `k` bytes have changed places. -/
structure Swapped (s : Buf) (n k : Nat) (e : Ends) : Prop where
  first : e.first = k
  last : e.last = (n : Int) - 1 - k
  le : 2 * k ≤ n + 1
  swapped : ∀ i < n, e.s i = if i < k ∨ n ≤ i + k then s (n - 1 - i) else s i
  behind : e.s n = s n

theorem Swapped.swap {s : Buf} {n k : Nat} {e : Ends} (h : Swapped s n k e) (hlt : e.first < e.last) :
    Swapped s n (k + 1) (Itoa.swap e) := by
  have hfirst := h.first
  have hlast := h.last
  have hk : e.first.toNat = k := by omega
  have hn : e.last.toNat = n - 1 - k := by omega
  refine ⟨?_, ?_, by omega, fun i hi => ?_, ?_⟩
  · show e.first + 1 = _
    rw [hfirst]
    rfl
  · show e.last - 1 = _
    omega
  · have hleft := h.swapped k (by omega)
    have hright := h.swapped (n - 1 - k) (by omega)
    rw [if_neg (by omega)] at hleft hright
    simp only [Itoa.swap, hk, hn, Function.update_apply, hleft, hright]
    by_cases h1 : i = k
    · rw [if_pos h1, if_pos (by omega), h1]
    by_cases h2 : i = n - 1 - k
    · rw [if_neg h1, if_pos h2, if_pos (by omega), show n - 1 - i = k by omega]
    · rw [if_neg h1, if_neg h2, h.swapped i hi]
      exact if_congr (by omega) rfl rfl
  · simp only [Itoa.swap, hk, hn]
    rw [Function.update_of_ne (by omega), Function.update_of_ne (by omega), h.behind]

/-- The loop of `strrev` ends, with all bytes in their places. -/
theorem swapped_final {s : Buf} {n : Nat} : ∀ {t k : Nat} {e : Ends}, Swapped s n k e → n ≤ t + k →
    ∃ k', Swapped s n k' (While.final (fun e => e.first < e.last) Itoa.swap t e) ∧ n ≤ 2 * k' + 1
  | 0, k, e, h, ht => ⟨k, h, by omega⟩
  | t + 1, k, e, h, ht => by
    by_cases hc : e.first < e.last
    · rw [While.final_succ t (by simpa using hc)]
      exact swapped_final (h.swap hc) (by omega)
    · rw [While.final_of_false (by simpa using hc)]
      rw [h.first, h.last] at hc
      exact ⟨k, h, by omega⟩

/-- `strrev` reverses a string. -/
theorem strrev_isString {s : Buf} {str : List UInt8} (h : IsString s str) (hlen : str.length ≤ turns) :
    IsString (strrev s) str.reverse := by
  have hstart : Swapped s str.length 0 ⟨s, 0, strlen s - 1⟩ := by
    rw [strlen_isString h hlen]
    exact ⟨rfl, (Int.sub_zero _).symm, by omega, fun i hi => by rw [if_neg (by omega)], rfl⟩
  obtain ⟨k, hk, hmid⟩ := swapped_final hstart (t := turns) (by omega)
  refine ⟨fun h0 => h.1 (List.mem_reverse.1 h0), fun i hi => ?_⟩
  rw [List.length_reverse] at hi
  unfold strrev
  rcases Nat.lt_or_eq_of_le hi with hlt | rfl
  · have hat : s (str.length - 1 - i) = str.reverse.getD i 0 := by
      rw [List.getD_eq_getElem _ _ (by simpa using hlt), List.getElem_reverse, h.2 _ (by omega),
        List.getD_eq_getElem _ _ (by omega)]
    rw [hk.swapped i hlt, ← hat]
    split_ifs with hside
    · rfl
    · -- the byte in the middle
      rw [show str.length - 1 - i = i by omega]
  · rw [hk.behind, h.2 _ le_rfl, List.getD_eq_default _ _ le_rfl, List.getD_eq_default _ _ (by simp)]

/-! ## The digits -/

/-- The digits of a number as characters, the lowest first. -/
def chars (radix v : Nat) : List UInt8 := (Nat.digits radix v).map lookup

/-- What the loop of `itoa` leaves: the digits behind each other, nothing changed before them. -/
theorem digits_final {radix : UInt32} (hradix : 2 ≤ radix.toNat) : ∀ {t p : Nat} {v : UInt32} (buf : Buf), v.toNat < 2 ^ t →
    let d := While.final (fun d : Digits => d.newval > 0) (digit radix) t ⟨v, p, buf⟩
    d.newval = 0 ∧ d.newbuf = p + (chars radix.toNat v.toNat).length ∧ (∀ i < p, d.buf i = buf i) ∧
      ∀ i < (chars radix.toNat v.toNat).length, d.buf (p + i) = (chars radix.toNat v.toNat).getD i 0
  | 0, p, v, buf, hv => by
    have h0 : v.toNat = 0 := by omega
    have hnil : chars radix.toNat v.toNat = [] := by rw [h0, chars, Nat.digits_zero]; rfl
    rw [hnil]
    exact ⟨UInt32.toNat_inj.1 h0, rfl, fun _ _ => rfl, fun i hi => absurd hi (Nat.not_lt_zero _)⟩
  | t + 1, p, v, buf, hv => by
    rcases Nat.eq_zero_or_pos v.toNat with h0 | hpos
    · have hnil : chars radix.toNat v.toNat = [] := by rw [h0, chars, Nat.digits_zero]; rfl
      have hv0 : v = 0 := UInt32.toNat_inj.1 h0
      rw [hnil, While.final_of_false (by simp [hv0])]
      exact ⟨hv0, rfl, fun _ _ => rfl, fun i hi => absurd hi (Nat.not_lt_zero _)⟩
    · have hdigits : chars radix.toNat v.toNat =
          lookup (v % radix).toNat :: chars radix.toNat (v / radix).toNat := by
        rw [chars, Nat.digits_def' hradix hpos, List.map_cons, UInt32.toNat_mod, UInt32.toNat_div]
        rfl
      have hsmaller : (v / radix).toNat < 2 ^ t := by
        rw [UInt32.toNat_div]
        refine Nat.div_lt_of_lt_mul (lt_of_lt_of_le hv ?_)
        rw [pow_succ, Nat.mul_comm]
        exact Nat.mul_le_mul_right _ hradix
      obtain ⟨hzero, hlen, hbefore, hat⟩ := digits_final hradix (p := p + 1)
        (Function.update buf p (lookup (v % radix).toNat)) hsmaller
      rw [While.final_succ t (by simpa [UInt32.lt_iff_toNat_lt] using hpos)]
      refine ⟨hzero, ?_, fun i hi => ?_, fun i hi => ?_⟩
      · rw [hdigits, List.length_cons]
        exact hlen.trans (by omega)
      · exact (hbefore i (by omega)).trans (Function.update_of_ne (by omega) _ _)
      · rw [hdigits] at hi ⊢
        cases i with
        | zero => exact (hbefore p (by omega)).trans (Function.update_self _ _ _)
        | succ i =>
          rw [List.length_cons] at hi
          have := hat i (by omega)
          rw [Nat.add_assoc, Nat.add_comm 1 i] at this
          exact this

theorem lookup_ne_zero {i : Nat} (h : i < 36) : lookup i ≠ 0 := by
  have hall : ∀ i < 36, lookup i ≠ 0 := by decide
  exact hall i h

theorem zero_notMem_chars {radix : Nat} (hradix : 2 ≤ radix) (hmax : radix ≤ 36) (v : Nat) : 0 ∉ chars radix v := by
  intro h
  obtain ⟨i, hi, hzero⟩ := List.mem_map.1 h
  exact lookup_ne_zero ((Nat.digits_lt_base hradix hi).trans_le hmax) hzero

theorem length_chars_le {radix v k : Nat} (hradix : 2 ≤ radix) (hv : v < radix ^ k) : (chars radix v).length ≤ k := by
  rwa [chars, List.length_map, Nat.digits_length_le_iff hradix]

theorem lt_pow_turns {radix v : Nat} (hradix : 2 ≤ radix) (hv : v < 2 ^ 32) : v < radix ^ turns :=
  calc v < 2 ^ 32 := hv
    _ ≤ 2 ^ turns := Nat.pow_le_pow_right (by decide) (by decide)
    _ ≤ radix ^ turns := Nat.pow_le_pow_left hradix _

/-! ## Numerals -/

/-- The characters of `itoa`. -/
def numeral (radix v : Nat) : List UInt8 := if v = 0 then [48] else (chars radix v).reverse

/-- The value of a digit. -/
def digitValue (b : UInt8) : Nat := if b.toNat < 58 then b.toNat - 48 else b.toNat - 55

/-- The number of a row of digits. -/
def evaluate (radix : Nat) (ds : List UInt8) : Nat := ds.foldl (fun n b => radix * n + digitValue b) 0

/-- The canonical numeral of a number: at least one digit, each from 0 to 9 and A to Z and below the radix, and a zero in
front only if it is the only digit. -/
structure Numeral (radix v : Nat) (ds : List UInt8) : Prop where
  digits : ∀ b ∈ ds, (48 ≤ b.toNat ∧ b.toNat ≤ 57 ∨ 65 ≤ b.toNat ∧ b.toNat ≤ 90) ∧ digitValue b < radix
  nonempty : ds ≠ []
  leading : ds.head? = some 48 → ds = [48]
  value : evaluate radix ds = v

theorem lookup_spec {i : Nat} (h : i < 36) :
    (48 ≤ (lookup i).toNat ∧ (lookup i).toNat ≤ 57 ∨ 65 ≤ (lookup i).toNat ∧ (lookup i).toNat ≤ 90) ∧
      digitValue (lookup i) = i := by
  have hall : ∀ i < 36, (48 ≤ (lookup i).toNat ∧ (lookup i).toNat ≤ 57 ∨ 65 ≤ (lookup i).toNat ∧ (lookup i).toNat ≤ 90) ∧
      digitValue (lookup i) = i := by decide
  exact hall i h

theorem evaluate_chars {radix : Nat} (hmax : radix ≤ 36) : ∀ {ds : List Nat}, (∀ d ∈ ds, d < radix) →
    evaluate radix (ds.map lookup).reverse = Nat.ofDigits radix ds
  | [], _ => rfl
  | d :: ds, h => by
    have hd : d < radix := h d (List.mem_cons_self ..)
    have ih := evaluate_chars hmax fun x hx => h x (List.mem_cons_of_mem _ hx)
    rw [List.map_cons, List.reverse_cons, evaluate, List.foldl_append]
    rw [evaluate] at ih
    rw [ih, Nat.ofDigits_cons, List.foldl_cons, List.foldl_nil, (lookup_spec (hd.trans_le hmax)).2, Nat.add_comm]

theorem numeral_spec {radix : Nat} (hradix : 2 ≤ radix) (hmax : radix ≤ 36) (v : Nat) :
    Numeral radix v (numeral radix v) := by
  unfold numeral
  split_ifs with hv
  · subst hv
    refine ⟨fun b hb => ?_, List.cons_ne_nil _ _, fun _ => rfl, rfl⟩
    obtain rfl := List.mem_singleton.1 hb
    exact ⟨by decide, show 0 < radix by omega⟩
  · have hne : Nat.digits radix v ≠ [] := Nat.digits_ne_nil_iff_ne_zero.2 hv
    refine ⟨fun b hb => ?_, ?_, fun hlead => ?_, ?_⟩
    · obtain ⟨d, hd, rfl⟩ := List.mem_map.1 (List.mem_reverse.1 hb)
      have hlt := Nat.digits_lt_base hradix hd
      obtain ⟨hrange, hvalue⟩ := lookup_spec (hlt.trans_le hmax)
      exact ⟨hrange, by rwa [hvalue]⟩
    · simpa [chars] using hne
    · -- the first character is the last digit, which is not zero
      exfalso
      have hlast := Nat.getLast_digit_ne_zero radix hv
      rw [List.head?_reverse, chars, List.getLast?_map, List.getLast?_eq_getLast_of_ne_nil hne, Option.map_some] at hlead
      have hlt := Nat.digits_lt_base hradix (List.getLast_mem hne)
      have hvalue := (lookup_spec (hlt.trans_le hmax)).2
      rw [Option.some.inj hlead] at hvalue
      exact hlast hvalue.symm
    · rw [chars, evaluate_chars hmax fun d hd => Nat.digits_lt_base hradix hd, Nat.ofDigits_digits]

theorem length_numeral_le {radix v k : Nat} (hradix : 2 ≤ radix) (hk : 0 < k) (hv : v < radix ^ k) :
    (numeral radix v).length ≤ k := by
  unfold numeral
  split_ifs
  · exact hk
  · rw [List.length_reverse]
    exact length_chars_le hradix hv

/-- `itoa` leaves the numeral in the buffer. -/
theorem itoa_isString {radix : UInt32} (hradix : 2 ≤ radix.toNat) (hmax : radix.toNat ≤ 36) (value : UInt32) (buf : Buf) :
    IsString (itoa value buf radix) (numeral radix.toNat value.toNat) := by
  unfold itoa numeral
  by_cases hv : value = 0
  · rw [if_pos hv, if_pos (by rw [hv]; rfl)]
    refine ⟨by decide, fun i hi => ?_⟩
    rw [List.length_singleton] at hi
    interval_cases i <;> rfl
  · have hne : value.toNat ≠ 0 := fun h => hv (UInt32.toNat_inj.1 h)
    rw [if_neg hv, if_neg hne]
    obtain ⟨-, hlen, -, hat⟩ := digits_final hradix (t := turns) (p := 0) buf (lt_pow_turns le_rfl value.toNat_lt)
    refine strrev_isString ⟨zero_notMem_chars hradix hmax _, fun i hi => ?_⟩
      (length_chars_le hradix (lt_pow_turns hradix value.toNat_lt))
    rw [Nat.zero_add] at hlen
    rcases Nat.lt_or_eq_of_le hi with hlt | rfl
    · have := hat i hlt
      rw [Nat.zero_add] at this
      rw [Function.update_of_ne (by omega), this]
    · rw [← hlen, Function.update_self, hlen, List.getD_eq_default _ _ le_rfl]

end Os391
