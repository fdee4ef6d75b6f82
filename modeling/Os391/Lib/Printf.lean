/-
`printf` of `lib.c`: where it reads its format, and what it prints for the numbers.
-/
import Os391.Lib.Console
import Os391.Lib.Itoa

namespace Os391

open Bytes Itoa

namespace Printf

/-- Where `printf` is: at the `while`, or at `format_char_switch` with `alternate`. -/
inductive Phase
  | text
  | conversion (alternate : Bool)
  deriving DecidableEq

/-- The pointers into the format and to the next argument, and the screen. -/
structure State where
  phase : Phase
  buf : Nat
  esp : Nat
  con : Console

/-- The words behind the format on the stack, the strings that pointers among them point at, and what a `conv_buf` holds
before it is written, by the place of its conversion in the format. -/
structure Args where
  words : Nat → UInt32
  strings : UInt32 → CString
  convBuf : Nat → Buf

/-- The buffer from an index on. -/
def view (s : Buf) (p : Nat) : Buf := fun i => s (p + i)

/-- A buffer written through the pointer to an index. -/
def put (s : Buf) (p : Nat) (t : Buf) : Buf := fun i => if p ≤ i then t (i - p) else s i

/-- What `%x` prints. -/
def hex (convBuf : Buf) (v : UInt32) : List UInt8 := text (itoa v convBuf 16)

/-- The loop that fills the gap before the digits of `%#x`. -/
def fillGap (convBuf : Buf) (i : Nat) : Buf :=
  (While.final (fun x : Nat × Buf => x.1 < 8) (fun x => (x.1 + 1, Function.update x.2 x.1 48)) turns (i, convBuf)).2

/-- What `%#x` prints. -/
def alternateHex (convBuf : Buf) (v : UInt32) : List UInt8 :=
  let convBuf := put convBuf 8 (itoa v (view convBuf 8) 16)
  let startingIndex := Itoa.strlen (view convBuf 8)
  let convBuf := fillGap convBuf startingIndex
  text (view convBuf startingIndex)

/-- What `%u` prints. -/
def unsigned (convBuf : Buf) (v : UInt32) : List UInt8 := text (itoa v convBuf 10)

/-- What `%d` prints. -/
def signed (convBuf : Buf) (value : UInt32) : List UInt8 :=
  if value.toBitVec.toInt < 0 then
    let convBuf := Function.update convBuf 0 45
    text (put convBuf 1 (itoa (-value) (view convBuf 1) 10))
  else text (itoa value convBuf 10)

variable (format : Buf) (a : Args)

/-- The character behind a `%`. -/
def convert (alternate : Bool) (s : State) : State :=
  let v := a.words s.esp
  let convBuf := a.convBuf s.buf
  match Char.ofNat (format s.buf).toNat with
  | '%' => { s with phase := .text, buf := s.buf + 1, con := s.con.putc 37 }
  | '#' => { s with phase := .conversion true, buf := s.buf + 1 }
  | 'x' =>
    let out := if alternate = false then hex convBuf v else alternateHex convBuf v
    { s with phase := .text, buf := s.buf + 1, esp := s.esp + 1, con := s.con.puts out }
  | 'u' => { s with phase := .text, buf := s.buf + 1, esp := s.esp + 1, con := s.con.puts (unsigned convBuf v) }
  | 'd' => { s with phase := .text, buf := s.buf + 1, esp := s.esp + 1, con := s.con.puts (signed convBuf v) }
  | 'c' => { s with phase := .text, buf := s.buf + 1, esp := s.esp + 1, con := s.con.putc v.toUInt8 }
  | 's' => { s with phase := .text, buf := s.buf + 1, esp := s.esp + 1, con := s.con.puts (a.strings v).bytes }
  | _ => { s with phase := .text, buf := s.buf + 1 }

/-- From one character of the format to the next. -/
def turn (s : State) : State :=
  match s.phase with
  | .text =>
    if format s.buf = 37 then { s with phase := .conversion false, buf := s.buf + 1 }
    else { s with buf := s.buf + 1, con := s.con.putc (format s.buf) }
  | .conversion alternate => convert format a alternate s

/-- The condition of the `while`; it is not tested within a conversion. -/
def goes (s : State) : Bool :=
  match s.phase with
  | .text => format s.buf ≠ 0
  | .conversion _ => true

/-- The start of `printf`. -/
def start (con : Console) : State := ⟨.text, 0, 0, con⟩

/-- `printf`, for a number of turns. -/
def printf (turns : Nat) (con : Console) : State := While.final (goes format) (turn format a) turns (start con)

/-- The indices of the format that `printf` looks at. -/
def examined (turns : Nat) (con : Console) : List Nat :=
  (While.tested (goes format) (turn format a) turns (start con)).map fun s => s.buf

/-- `return (buf - format)`, an `int32_t`. -/
def returned (s : State) : Int := (BitVec.ofNat 32 s.buf).toInt

/-! ## Where the format is read -/

/-- The phase behind a character of the format. -/
def scan : Phase → UInt8 → Phase
  | .text, b => if b = 37 then .conversion false else .text
  | .conversion _, b => if b = 35 then .conversion true else .text

variable {format : Buf} {a : Args}

theorem convert_buf (alternate : Bool) (s : State) : (convert format a alternate s).buf = s.buf + 1 := by
  unfold convert
  dsimp only
  split <;> rfl

theorem turn_buf (s : State) : (turn format a s).buf = s.buf + 1 := by
  unfold turn
  split
  · split_ifs <;> rfl
  · exact convert_buf _ s

theorem toNat_char (b : UInt8) : (Char.ofNat b.toNat).toNat = b.toNat := by
  have hall : ∀ i : Fin 256, (Char.ofNat i).toNat = i := by decide +kernel
  exact hall ⟨b.toNat, b.toNat_lt⟩

theorem convert_phase (alternate : Bool) (s : State) :
    (convert format a alternate s).phase = scan (.conversion alternate) (format s.buf) := by
  by_cases hb : format s.buf = 35
  · simp only [convert, scan, hb]
    rfl
  · rw [scan, if_neg hb]
    unfold convert
    dsimp only
    split
    case h_2 h =>
      have h35 := congrArg Char.toNat h
      rw [toNat_char] at h35
      exact absurd (UInt8.toNat_inj.1 h35) hb
    all_goals rfl

theorem turn_phase (s : State) : (turn format a s).phase = scan s.phase (format s.buf) := by
  unfold turn
  split
  next h =>
    rw [h, scan]
    split_ifs with hb
    · rfl
    · rfl
  next h => rw [h, convert_phase]

/-- The phase behind a format. -/
def endPhase (str : List UInt8) : Phase := str.foldl scan .text

section

variable {str : List UInt8} (h : IsString format str)
include h

theorem goes_inside {s : State} (hs : s.buf < str.length) : goes format s = true := by
  unfold goes
  split
  · have hne : format s.buf ≠ 0 := by
      rw [h.2 _ hs.le, List.getD_eq_getElem _ _ hs]
      exact fun h0 => h.1 (h0 ▸ List.getElem_mem _)
    simpa using hne
  · rfl

/-- One turn a character, up to the terminator. -/
theorem printf_at (con : Console) : ∀ {k : Nat}, k ≤ str.length →
    (printf format a k con).buf = k ∧ (printf format a k con).phase = endPhase (str.take k)
  | 0, _ => ⟨rfl, rfl⟩
  | k + 1, hk => by
    obtain ⟨hbuf, hphase⟩ := printf_at con (k := k) (by omega)
    have hgoes : goes format (printf format a k con) = true := goes_inside h (by omega)
    have hturn : printf format a (k + 1) con = turn format a (printf format a k con) :=
      While.final_succ_of_true hgoes
    have hchar : format k = str[k] := by rw [h.2 _ (by omega), List.getD_eq_getElem _ _ hk]
    rw [hturn, turn_buf, turn_phase, hbuf, hphase, hchar]
    refine ⟨rfl, ?_⟩
    rw [endPhase, endPhase, List.take_add_one, List.getElem?_eq_getElem hk, Option.toList_some, List.foldl_append]
    rfl

theorem printf_at_end (con : Console) :
    (printf format a str.length con).buf = str.length ∧ (printf format a str.length con).phase = endPhase str := by
  have hend := printf_at (a := a) h con le_rfl
  rwa [List.take_length] at hend

/-- A format that does not end within a conversion: `printf` stops at the terminator. -/
theorem printf_ends (hclosed : endPhase str = .text) (con : Console) :
    While.Ends (goes format) (turn format a) str.length (start con) ∧ ∀ p ∈ examined format a str.length con, p ≤ str.length := by
  obtain ⟨hbuf, hphase⟩ := printf_at_end (a := a) h con
  constructor
  · show goes format (printf format a str.length con) = false
    have hnul : format str.length = 0 := by rw [h.2 _ le_rfl, List.getD_eq_default _ _ le_rfl]
    rw [goes, hphase, hclosed, hbuf, hnul]
    rfl
  · intro p hp
    obtain ⟨s, hs, rfl⟩ := List.mem_map.1 hp
    obtain ⟨k, hk, rfl⟩ := While.mem_tested.1 hs
    exact (printf_at (a := a) h con hk).1.le.trans hk

/-- A format that ends within one: `printf` looks behind the terminator before it can stop. -/
theorem examined_behind (hopen : endPhase str ≠ .text) {con : Console} {n : Nat}
    (hends : While.Ends (goes format) (turn format a) n (start con)) : str.length + 1 ∈ examined format a n con := by
  obtain ⟨hbuf, hphase⟩ := printf_at_end (a := a) h con
  have hgoes : goes format (printf format a str.length con) = true := by
    unfold goes
    split
    next htext => exact absurd (hphase.symm.trans htext) hopen
    next => rfl
  have hlong : str.length < n := by
    by_contra hle
    have hstay : printf format a str.length con = printf format a n con := While.final_of_ends hends (by omega)
    rw [hstay] at hgoes
    rw [While.Ends] at hends
    exact absurd (hends.symm.trans hgoes) (by decide)
  have hturn : printf format a (str.length + 1) con = turn format a (printf format a str.length con) :=
    While.final_succ_of_true hgoes
  refine List.mem_map.2 ⟨printf format a (str.length + 1) con, While.mem_tested.2 ⟨_, hlong, rfl⟩, ?_⟩
  rw [hturn, turn_buf, hbuf]

end

theorem returned_eq_iff {s : State} {n : Nat} (hbuf : s.buf = n) : returned s = n ↔ n < 2 ^ 31 := by
  rw [returned, hbuf, BitVec.toInt_eq_toNat_cond, BitVec.toNat_ofNat]
  split_ifs <;> omega

/-- `printf` stays within its format and returns the length exactly when the format does not end within a conversion and
the length fits in the result. -/
theorem printf_format_iff {str : List UInt8} (h : IsString format str) (a : Args) (con : Console) :
    (∃ n, While.Ends (goes format) (turn format a) n (start con) ∧ (∀ p ∈ examined format a n con, p ≤ str.length) ∧
      returned (printf format a n con) = str.length) ↔
      endPhase str = .text ∧ str.length < 2 ^ 31 := by
  constructor
  · rintro ⟨n, hends, hinside, hreturned⟩
    have hclosed : endPhase str = .text := by
      by_contra hopen
      have := hinside _ (examined_behind h hopen hends)
      omega
    have hsame : printf format a n con = printf format a str.length con :=
      While.final_eq_of_ends hends (printf_ends h hclosed con).1
    rw [hsame, returned_eq_iff (printf_at_end h con).1] at hreturned
    exact ⟨hclosed, hreturned⟩
  · rintro ⟨hclosed, hlen⟩
    obtain ⟨hends, hinside⟩ := printf_ends (a := a) h hclosed con
    exact ⟨_, hends, hinside, (returned_eq_iff (printf_at_end h con).1).2 hlen⟩

/-- A console and arguments for a run. -/
def console : Console := ⟨fun _ => 0, 0, 0⟩

def zeroArgs : Args := ⟨fun _ => 0, fun _ => ⟨[], by simp⟩, fun _ _ => 0⟩

/-- `%u` and a new line. -/
theorem printf_format_iff_number :
    ∃ n, While.Ends (goes fun i => [37, 117, 10, 0].getD i 65) (turn (fun i => [37, 117, 10, 0].getD i 65) zeroArgs) n
        (start console) ∧
      (∀ p ∈ examined (fun i => [37, 117, 10, 0].getD i 65) zeroArgs n console, p ≤ 3) ∧
      returned (printf (fun i => [37, 117, 10, 0].getD i 65) zeroArgs n console) = 3 :=
  (printf_format_iff (show IsString _ [37, 117, 10] from ⟨by decide, by decide⟩) zeroArgs console).2
    ⟨by decide, by decide⟩

/-- A `%` alone, with an `A` behind its terminator: `printf` looks at the `A`. -/
theorem examined_behind_percent :
    ¬ ∃ n, While.Ends (goes fun i => [37, 0, 65].getD i 0) (turn (fun i => [37, 0, 65].getD i 0) zeroArgs) n
        (start console) ∧
      (∀ p ∈ examined (fun i => [37, 0, 65].getD i 0) zeroArgs n console, p ≤ 1) ∧
      returned (printf (fun i => [37, 0, 65].getD i 0) zeroArgs n console) = 1 := by
  rintro ⟨n, hends, hinside, -⟩
  have hstring : IsString (fun i => [37, 0, 65].getD i 0) [37] := ⟨by decide, by decide⟩
  exact absurd (hinside _ (examined_behind hstring (by decide) hends)) (by decide)

/-! ## What the numbers are printed as -/

/-- The signed decimal numeral of a number. -/
def SignedNumeral (v : Int) (ds : List UInt8) : Prop :=
  if v < 0 then ∃ abs, ds = 45 :: abs ∧ Numeral 10 v.natAbs abs else Numeral 10 v.natAbs ds

theorem text_itoa {radix : UInt32} (hradix : 2 ≤ radix.toNat) (hmax : radix.toNat ≤ 36) (v : UInt32) (convBuf : Buf) :
    text (itoa v convBuf radix) = numeral radix.toNat v.toNat :=
  text_isString (itoa_isString hradix hmax v convBuf)
    (length_numeral_le hradix (by decide) (lt_pow_turns hradix v.toNat_lt))

theorem hex_numeral (convBuf : Buf) (v : UInt32) : Numeral 16 v.toNat (hex convBuf v) := by
  rw [hex, text_itoa (by decide) (by decide)]
  exact numeral_spec (by decide) (by decide) _

theorem unsigned_numeral (convBuf : Buf) (v : UInt32) : Numeral 10 v.toNat (unsigned convBuf v) := by
  rw [unsigned, text_itoa (by decide) (by decide)]
  exact numeral_spec (by decide) (by decide) _

/-- A character in front of a string. -/
theorem put_one_isString {s t : Buf} {b : UInt8} {str : List UInt8} (ht : IsString t str) (hb : s 0 = b) (hne : b ≠ 0) :
    IsString (put s 1 t) (b :: str) := by
  refine ⟨fun h0 => ?_, fun i hi => ?_⟩
  · rcases List.mem_cons.1 h0 with h0 | h0
    · exact hne h0.symm
    · exact ht.1 h0
  · cases i with
    | zero => exact hb
    | succ i =>
      rw [List.length_cons] at hi
      rw [put, if_pos (by omega), Nat.add_sub_cancel, ht.2 _ (by omega), List.getD_cons_succ]

theorem toInt_eq (v : UInt32) : v.toBitVec.toInt = if v.toNat < 2 ^ 31 then (v.toNat : Int) else v.toNat - 2 ^ 32 := by
  have htoNat : v.toBitVec.toNat = v.toNat := rfl
  rw [BitVec.toInt_eq_toNat_cond, htoNat]
  split_ifs <;> omega

theorem signed_numeral (convBuf : Buf) (v : UInt32) : SignedNumeral v.toBitVec.toInt (signed convBuf v) := by
  have hv := v.toNat_lt
  have hint := toInt_eq v
  unfold SignedNumeral signed
  split_ifs with hneg
  · have habs : (-v).toNat = v.toBitVec.toInt.natAbs := by
      rw [UInt32.toNat_neg]
      show (2 ^ 32 - v.toNat) % 2 ^ 32 = _
      split_ifs at hint <;> omega
    have hitoa : IsString (itoa (-v) (view (Function.update convBuf 0 45) 1) 10) (numeral 10 (-v).toNat) :=
      itoa_isString (by decide) (by decide) (-v) _
    have hstring := put_one_isString hitoa (Function.update_self 0 (45 : UInt8) convBuf) (by decide)
    have hlen : (numeral 10 (-v).toNat).length + 1 ≤ 32 :=
      Nat.succ_le_succ (length_numeral_le (by decide) (by decide) ((-v).toNat_lt.trans_le (by decide)))
    refine ⟨numeral 10 (-v).toNat, text_isString hstring (hlen.trans (by decide)), ?_⟩
    rw [habs]
    exact numeral_spec (by decide) (by decide) _
  · have habs : v.toNat = v.toBitVec.toInt.natAbs := by
      split_ifs at hint <;> omega
    rw [text_itoa (by decide) (by decide), ← habs]
    exact numeral_spec (by decide) (by decide) _

/-! ## `%#x` -/

theorem fillGap_from : ∀ {t i : Nat} (convBuf : Buf), i ≤ 8 → 8 ≤ t + i →
    (While.final (fun x : Nat × Buf => x.1 < 8) (fun x => (x.1 + 1, Function.update x.2 x.1 48)) t (i, convBuf)).2 =
      fun k => if i ≤ k ∧ k < 8 then 48 else convBuf k
  | 0, i, convBuf, hi, ht => by
    funext k
    rw [if_neg (by omega)]
    rfl
  | t + 1, i, convBuf, hi, ht => by
    rcases Nat.lt_or_ge i 8 with hlt | hge
    · rw [While.final_succ t (by simpa using hlt), fillGap_from _ hlt (by omega)]
      funext k
      rw [Function.update_apply]
      split_ifs <;> first | rfl | omega
    · rw [While.final_of_false (by simpa using hge)]
      funext k
      rw [if_neg (by omega)]

theorem fillGap_eq (convBuf : Buf) {i : Nat} (hi : i ≤ 8) :
    fillGap convBuf i = fun k => if i ≤ k ∧ k < 8 then 48 else convBuf k :=
  fillGap_from convBuf hi (le_trans (by decide) (Nat.le_add_right turns i))

theorem evaluate_zeros (radix : Nat) (ds : List UInt8) : ∀ k, evaluate radix (List.replicate k 48 ++ ds) = evaluate radix ds
  | 0 => rfl
  | k + 1 => by
    have ih := evaluate_zeros radix ds k
    rw [List.replicate_succ, List.cons_append, evaluate, List.foldl_cons]
    exact ih

theorem view_put (s t : Buf) (p : Nat) : view (put s p t) p = t := by
  funext i
  rw [view, put, if_pos (Nat.le_add_right p i), Nat.add_sub_cancel_left]

/-- `%#x` prints the numeral behind as many zeros as make eight digits. -/
theorem alternateHex_eq (convBuf : Buf) (v : UInt32) :
    alternateHex convBuf v = List.replicate (8 - (numeral 16 v.toNat).length) 48 ++ numeral 16 v.toNat := by
  have hitoa : IsString (itoa v (view convBuf 8) 16) (numeral 16 v.toNat) := itoa_isString (by decide) (by decide) v _
  have hlen : (numeral 16 v.toNat).length ≤ 8 :=
    length_numeral_le (by decide) (by decide) (v.toNat_lt.trans_le (by decide))
  have hstrlen : Itoa.strlen (itoa v (view convBuf 8) 16) = (numeral 16 v.toNat).length :=
    strlen_isString hitoa (hlen.trans (by decide))
  unfold alternateHex
  dsimp only
  rw [view_put, hstrlen, fillGap_eq _ hlen]
  obtain ⟨hnul, hat⟩ := hitoa
  generalize numeral 16 v.toNat = ds at hlen hnul hat
  refine text_isString ⟨?_, fun i hi => ?_⟩ ?_
  · rw [List.mem_append, List.mem_replicate]
    rintro (⟨-, h0⟩ | h0)
    · cases h0
    · exact hnul h0
  · rw [List.length_append, List.length_replicate] at hi
    show (if ds.length ≤ ds.length + i ∧ ds.length + i < 8 then 48 else put convBuf 8 _ (ds.length + i)) = _
    rcases Nat.lt_or_ge i (8 - ds.length) with hgap | hdigit
    · rw [if_pos (by omega), List.getD_append _ _ _ _ (by simpa using hgap), List.getD_replicate _ hgap]
    · rw [if_neg (by omega), put, if_pos (by omega), hat _ (by omega), List.getD_append_right _ _ _ _ (by simpa using hdigit),
        List.length_replicate, show i - (8 - ds.length) = ds.length + i - 8 by omega]
  · rw [List.length_append, List.length_replicate]
    exact le_trans (by omega) (show 8 ≤ turns by decide)

theorem alternateHex_spec (convBuf : Buf) (v : UInt32) :
    (alternateHex convBuf v).length = 8 ∧
      (∀ b ∈ alternateHex convBuf v, (48 ≤ b.toNat ∧ b.toNat ≤ 57) ∨ (65 ≤ b.toNat ∧ b.toNat ≤ 70)) ∧
      evaluate 16 (alternateHex convBuf v) = v.toNat := by
  have hnumeral : Numeral 16 v.toNat (numeral 16 v.toNat) := numeral_spec (by decide) (by decide) _
  have hlen : (numeral 16 v.toNat).length ≤ 8 :=
    length_numeral_le (by decide) (by decide) (v.toNat_lt.trans_le (by decide))
  rw [alternateHex_eq]
  refine ⟨?_, fun b hb => ?_, ?_⟩
  · rw [List.length_append, List.length_replicate]
    omega
  · rcases List.mem_append.1 hb with hb | hb
    · rw [List.eq_of_mem_replicate hb]
      decide
    · obtain ⟨hrange, hvalue⟩ := hnumeral.digits b hb
      unfold digitValue at hvalue
      split_ifs at hvalue <;> omega
  · rw [evaluate_zeros, hnumeral.value]

/-! ## The conversions -/

theorem turn_percent {format : Buf} {a : Args} {s : State} (htext : s.phase = .text) (hpercent : format s.buf = 37) :
    turn format a s = { s with phase := .conversion false, buf := s.buf + 1 } := by
  unfold turn
  rw [htext]
  exact if_pos hpercent

theorem turn_sharp {format : Buf} {a : Args} {s : State} {alternate : Bool} (h : s.phase = .conversion alternate)
    (hsharp : format s.buf = 35) : turn format a s = { s with phase := .conversion true, buf := s.buf + 1 } := by
  simp only [turn, h, convert, hsharp]
  rfl

/-- `itoa` leaves the canonical numeral for every radix, and the conversions print the numerals of their arguments,
wherever in a format they stand. -/
theorem itoa_printf_spec :
    (∀ value radix : UInt32, 2 ≤ radix.toNat → radix.toNat ≤ 36 → ∀ buf,
      ∃ ds, IsString (itoa value buf radix) ds ∧ Numeral radix.toNat value.toNat ds) ∧
      ∀ (format : Buf) (a : Args) (s : State) (v : UInt32), s.phase = .text → format s.buf = 37 → a.words s.esp = v →
        (format (s.buf + 1) = 117 → ∃ ds, Numeral 10 v.toNat ds ∧
          turn format a (turn format a s) = ⟨.text, s.buf + 2, s.esp + 1, s.con.puts ds⟩) ∧
        (format (s.buf + 1) = 120 → ∃ ds, Numeral 16 v.toNat ds ∧
          turn format a (turn format a s) = ⟨.text, s.buf + 2, s.esp + 1, s.con.puts ds⟩) ∧
        (format (s.buf + 1) = 100 → ∃ ds, SignedNumeral v.toBitVec.toInt ds ∧
          turn format a (turn format a s) = ⟨.text, s.buf + 2, s.esp + 1, s.con.puts ds⟩) ∧
        (format (s.buf + 1) = 35 → format (s.buf + 2) = 120 → ∃ ds, ds.length = 8 ∧
          (∀ b ∈ ds, (48 ≤ b.toNat ∧ b.toNat ≤ 57) ∨ (65 ≤ b.toNat ∧ b.toNat ≤ 70)) ∧ evaluate 16 ds = v.toNat ∧
          turn format a (turn format a (turn format a s)) = ⟨.text, s.buf + 3, s.esp + 1, s.con.puts ds⟩) := by
  refine ⟨fun value radix hradix hmax buf => ⟨_, itoa_isString hradix hmax value buf, numeral_spec hradix hmax _⟩, ?_⟩
  intro format a s v htext hpercent hv
  rw [turn_percent htext hpercent]
  refine ⟨fun hu => ?_, fun hx => ?_, fun hd => ?_, fun hsharp hx => ?_⟩
  · refine ⟨_, unsigned_numeral (a.convBuf (s.buf + 1)) v, ?_⟩
    simp only [turn, convert, hu, hv]
    rfl
  · refine ⟨_, hex_numeral (a.convBuf (s.buf + 1)) v, ?_⟩
    simp only [turn, convert, hx, hv]
    rfl
  · refine ⟨_, signed_numeral (a.convBuf (s.buf + 1)) v, ?_⟩
    simp only [turn, convert, hd, hv]
    rfl
  · obtain ⟨hlen, hdigits, hvalue⟩ := alternateHex_spec (a.convBuf (s.buf + 2)) v
    refine ⟨_, hlen, hdigits, hvalue, ?_⟩
    have hturn : turn format a ⟨.conversion false, s.buf + 1, s.esp, s.con⟩ =
        ⟨.conversion true, s.buf + 2, s.esp, s.con⟩ := turn_sharp rfl hsharp
    rw [hturn]
    simp only [turn, convert, hx, hv]
    rfl

/-- The number without a positive counterpart. -/
theorem itoa_printf_spec_min :
    (∃ ds, IsString (itoa 0x80000000 (fun _ => 65) 2) ds ∧ Numeral 2 (2 ^ 31) ds) ∧
      ∃ ds, SignedNumeral (-2147483648) ds ∧
        turn (fun i => [37, 100, 0].getD i 0) ⟨fun _ => 0x80000000, zeroArgs.strings, zeroArgs.convBuf⟩
            (turn (fun i => [37, 100, 0].getD i 0) ⟨fun _ => 0x80000000, zeroArgs.strings, zeroArgs.convBuf⟩
              (start console)) = ⟨.text, 2, 1, console.puts ds⟩ :=
  ⟨itoa_printf_spec.1 0x80000000 2 (by decide) (by decide) _,
    (itoa_printf_spec.2 _ _ (start console) 0x80000000 rfl rfl rfl).2.2.1 rfl⟩

example : signed (fun _ => 0) 0x80000000 = ascii "-2147483648".toList := by decide +kernel

end Printf

end Os391
