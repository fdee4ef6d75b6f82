/-
`grep`: the lines of a file that hold a string, searched in a buffer that is read into behind what is left of the last
line.
-/
import Os391.Base.Chunks
import Os391.Lib.Itoa

namespace Os391

open Bytes Chunks

namespace Grep

/-! ## ece391support.c -/

/-- More turns than a loop over the buffer takes. -/
def turns : Nat := 1026

/-- `ece391_strlen`. -/
def ece391Strlen (s : Buf) : Nat := While.final (fun len => s len ≠ 0) (· + 1) turns 0

/-- `ece391_strcpy`, from one place in a buffer to another. -/
def ece391Strcpy : Nat → Nat → Nat → Buf → Buf
  | 0, _, _, data => data
  | k + 1, dst, src, data =>
    let c := data src
    let data := Function.update data dst c
    if c ≠ 0 then ece391Strcpy k (dst + 1) (src + 1) data else data

/-- `ece391_strncmp` from an index on. -/
def ece391Strncmp (s1 s2 : Buf) : Nat → Nat → Int
  | _, 0 => 0
  | i, n + 1 =>
    if s1 i = s2 i then
      if s1 i = 0 ∨ n = 0 then 0 else ece391Strncmp s1 s2 (i + 1) n
    else (s1 i).toNat - (s2 i).toNat

/-- What `ece391_fdputs` writes. -/
def ece391Fdputs (s : Buf) : List UInt8 := (List.range (ece391Strlen s)).map s

/-! ## System calls -/

/-- The system calls of `do_one_file`: `none` and `false` stand for -1. -/
structure Calls (σ : Type) where
  ece391Open : CString → σ → Option Int × σ
  ece391Read : Int → Nat → σ → Option (List UInt8) × σ
  ece391Close : Int → σ → Bool × σ

/-! ## do_one_file -/

/-- `BUFSIZE`. -/
def bufsize : Nat := 1024

/-- The variables of the loop over the lines, and what is written. -/
structure Pass where
  data : Buf
  last : Nat
  lineStart : Nat
  out : List UInt8

/-- The loop that looks for `line_end`. -/
def findEnd (v : Pass) : Nat := While.final (fun e => e < v.last && v.data e ≠ 10) (· + 1) turns v.lineStart

/-- The string stands here: `char` is signed, the bytes of the buffer are not. -/
def hit (s : CString) (data : Buf) (check : Nat) : Bool :=
  int8 (s.get 0) = (data check).toNat && ece391Strncmp (fun i => data (check + i)) s.get 0 s.strlen = 0

/-- The search of a line. -/
def search (s fname : CString) (data : Buf) (lineStart lineEnd : Nat) : List UInt8 :=
  match (List.range' lineStart (lineEnd - lineStart)).find? (hit s data) with
  | some _ => fname.bytes ++ ascii ":".toList ++ ece391Fdputs (fun i => data (lineStart + i)) ++ ascii "\n".toList
  | none => []

/-- The loop over the lines. -/
def lines (s fname : CString) (cnt : Nat) : Nat → Pass → Option Pass
  | 0, _ => none
  | k + 1, v =>
    let lineEnd := findEnd v
    let data := Function.update v.data lineEnd 0
    -- at `last` this byte is not one of the file
    if v.data lineEnd ≠ 10 ∧ cnt ≠ 0 ∧ v.lineStart ≠ 0 then
      some { v with data := ece391Strcpy turns 0 v.lineStart data, last := v.last - v.lineStart }
    else
      let v := { v with
        data := data, lineStart := lineEnd + 1, out := v.out ++ search s fname data v.lineStart lineEnd }
      if v.last ≤ v.lineStart then some { v with last := 0 } else lines s fname cnt k v

/-- What `do_one_file` keeps from one read to the next. -/
structure Scan (σ : Type) where
  data : Buf
  last : Nat
  out : List UInt8
  calls : σ

variable {σ : Type}

/-- A message. -/
def Scan.puts (g : Scan σ) (text : String) : Scan σ := { g with out := g.out ++ ascii text.toList }

/-- The bytes of a read, behind what is left. -/
def Scan.filled (g : Scan σ) (bytes : List UInt8) : Pass where
  data i := if g.last ≤ i ∧ i < g.last + bytes.length then bytes.getD (i - g.last) 0 else g.data i
  last := g.last + bytes.length
  lineStart := 0
  out := g.out

/-- The loop over the reads; `false` when one fails. -/
def reads (calls : Calls σ) (s fname : CString) (fd : Int) : Nat → Scan σ → Option (Bool × Scan σ)
  | 0, _ => none
  | k + 1, g =>
    match calls.ece391Read fd (bufsize - g.last) g.calls with
    | (none, st) => some (false, Scan.puts { g with calls := st } "file read failed\n")
    | (some bytes, st) =>
      let cnt := bytes.length
      (lines s fname cnt turns (g.filled bytes)).bind fun v =>
        let g : Scan σ := ⟨v.data, v.last, v.out, st⟩
        if cnt = 0 then some (true, g) else reads calls s fname fd k g

/-- `do_one_file`, with the first content of its buffer; `none` when so many reads are too few. -/
def doOneFile (calls : Calls σ) (s fname : CString) (data : Buf) (st : σ) (k : Nat) : Option (Int × Scan σ) :=
  match calls.ece391Open fname st with
  | (none, st) => some (-1, Scan.puts ⟨data, 0, [], st⟩ "file open failed\n")
  | (some fd, st) =>
    (reads calls s fname fd k ⟨data, 0, [], st⟩).map fun r =>
      if r.1 then
        match calls.ece391Close fd r.2.calls with
        | (false, st) => (-1, Scan.puts { r.2 with calls := st } "file close failed\n")
        | (true, st) => (0, { r.2 with calls := st })
      else (-1, r.2)

/-! ## Strings in the buffer -/

theorem strncmp_eq_zero {s1 s2 : Buf} : ∀ {n i : Nat}, (∀ j, i ≤ j → j < i + n → s2 j ≠ 0) →
    (ece391Strncmp s1 s2 i n = 0 ↔ ∀ j, i ≤ j → j < i + n → s1 j = s2 j)
  | 0, i, _ => iff_of_true rfl fun j hj hlt => absurd hlt (by omega)
  | n + 1, i, h => by
    unfold ece391Strncmp
    by_cases heq : s1 i = s2 i
    · have hne : s1 i ≠ 0 := heq ▸ h i le_rfl (by omega)
      rw [if_pos heq]
      by_cases hn : n = 0
      · rw [if_pos (Or.inr hn)]
        refine iff_of_true rfl fun j hj hlt => ?_
        obtain rfl : j = i := by omega
        exact heq
      · rw [if_neg (not_or.2 ⟨hne, hn⟩), strncmp_eq_zero fun j hj hlt => h j (by omega) (by omega)]
        refine ⟨fun hall j hj hlt => ?_, fun hall j hj hlt => hall j (by omega) (by omega)⟩
        rcases Nat.eq_or_lt_of_le hj with rfl | hj
        · exact heq
        · exact hall j hj (by omega)
    · rw [if_neg heq]
      refine iff_of_false (fun h0 => heq (UInt8.toNat_inj.1 (by omega))) fun hall => heq (hall i le_rfl (by omega))

/-- A character is the byte of the buffer that has its bits exactly when it is ASCII. -/
theorem int8_eq_toNat (b : UInt8) : int8 b = b.toNat ↔ b.toNat < 128 := by
  have hlt := b.toNat_lt
  unfold int8
  split_ifs with h
  · exact iff_of_true rfl h
  · exact iff_of_false (by omega) h

variable {s fname : CString} {data : Buf} {line : List UInt8} {start : Nat}

theorem get_ne_zero {i : Nat} (hi : i < s.bytes.length) : s.get i ≠ 0 := by
  rw [CString.get, List.getD_eq_getElem _ _ hi]
  exact fun h0 => s.noNul (h0 ▸ List.getElem_mem hi)

/-- The string stands in a line from an index on. -/
theorem forall_get_iff_prefix (h : IsString (fun i => data (start + i)) line) {i : Nat} (hi : i < line.length) :
    (∀ j, 0 ≤ j → j < 0 + s.strlen → data (start + i + j) = s.get j) ↔ s.bytes <+: line.drop i := by
  have hget : ∀ j, i + j ≤ line.length → data (start + i + j) = line.getD (i + j) 0 := fun j hj => by
    rw [Nat.add_assoc]
    exact h.2 (i + j) hj
  rw [Nat.zero_add, CString.strlen]
  constructor
  · intro hall
    have hlen : s.bytes.length ≤ line.length - i := by
      by_contra hlt
      have hend := hall (line.length - i) (Nat.zero_le _) (by omega)
      rw [hget _ (by omega), List.getD_eq_default _ _ (by omega)] at hend
      exact get_ne_zero (by omega) hend.symm
    rw [List.prefix_iff_eq_take]
    refine List.ext_getElem (by simp [hlen]) fun j hj hj' => ?_
    have hj2 := hall j (Nat.zero_le _) hj
    rw [hget _ (by omega), CString.get, List.getD_eq_getElem _ _ (by omega), List.getD_eq_getElem _ _ hj] at hj2
    rw [List.getElem_take, List.getElem_drop, hj2]
  · rintro ⟨t, ht⟩ j - hj
    have hlen := congrArg List.length ht
    rw [List.length_append, List.length_drop] at hlen
    rw [hget _ (by omega), CString.get, ← List.getD_append _ t _ _ hj, ht]
    simp only [List.getD_eq_getElem?_getD, List.getElem?_drop]

theorem hit_iff (hs : s.bytes ≠ []) (h : IsString (fun i => data (start + i)) line) {i : Nat} (hi : i < line.length) :
    hit s data (start + i) = true ↔ (s.get 0).toNat < 128 ∧ s.bytes <+: line.drop i := by
  have hpos : 0 < s.strlen := List.length_pos_iff.2 hs
  rw [← forall_get_iff_prefix h hi, hit, Bool.and_eq_true, decide_eq_true_eq, decide_eq_true_eq,
    strncmp_eq_zero fun j _ hj => get_ne_zero (by rwa [Nat.zero_add] at hj)]
  refine and_congr_left fun hall => ?_
  rw [← hall 0 le_rfl (by omega)]
  exact int8_eq_toNat _

/-- What is printed for a line. -/
def shown (fname : CString) (line : List UInt8) : List UInt8 :=
  fname.bytes ++ ascii ":".toList ++ line ++ ascii "\n".toList

/-- What the search of a line prints: nothing when the string does not begin with an ASCII character. -/
def printed (s fname : CString) (line : List UInt8) : List UInt8 :=
  if (s.get 0).toNat < 128 ∧ s.bytes <:+: line then shown fname line else []

theorem infix_iff_drop (hs : s.bytes ≠ []) (line : List UInt8) :
    s.bytes <:+: line ↔ ∃ i, i < line.length ∧ s.bytes <+: line.drop i := by
  constructor
  · rintro ⟨a, b, rfl⟩
    have hpos : 0 < s.bytes.length := List.length_pos_iff.2 hs
    refine ⟨a.length, by simp only [List.length_append]; omega, ?_⟩
    rw [List.append_assoc, List.drop_left]
    exact List.prefix_append _ _
  · rintro ⟨i, -, hprefix⟩
    exact hprefix.isInfix.trans (List.drop_suffix i line).isInfix

theorem fdputs_isString {s : Buf} (h : IsString s line) (hlen : line.length ≤ turns) : ece391Fdputs s = line := by
  have hstrlen : ece391Strlen s = line.length := strlen_from h (Nat.zero_le _) hlen
  refine List.ext_getElem (by simp [ece391Fdputs, hstrlen]) fun i hi hi' => ?_
  simp only [ece391Fdputs, List.getElem_map, List.getElem_range]
  rw [h.2 i hi'.le, List.getD_eq_getElem _ _ hi']

theorem search_eq (fname : CString) (hs : s.bytes ≠ []) (h : IsString (fun i => data (start + i)) line) (hlen : line.length ≤ turns) :
    search s fname data start (start + line.length) = printed s fname line := by
  have hany : ((List.range' start line.length).find? (hit s data)).isSome = true ↔
      (s.get 0).toNat < 128 ∧ s.bytes <:+: line := by
    rw [List.find?_isSome, infix_iff_drop hs]
    constructor
    · rintro ⟨check, hmem, hhit⟩
      obtain ⟨i, hi, rfl⟩ := List.mem_range'.1 hmem
      rw [Nat.one_mul] at hhit
      obtain ⟨hascii, hprefix⟩ := (hit_iff hs h hi).1 hhit
      exact ⟨hascii, i, hi, hprefix⟩
    · rintro ⟨hascii, i, hi, hprefix⟩
      exact ⟨start + i, List.mem_range'.2 ⟨i, hi, by rw [Nat.one_mul]⟩, (hit_iff hs h hi).2 ⟨hascii, hprefix⟩⟩
  unfold search printed shown
  rw [Nat.add_sub_cancel_left, fdputs_isString h hlen]
  rcases hfind : (List.range' start line.length).find? (hit s data) with _ | check
  · rw [hfind] at hany
    rw [if_neg fun hc => by simpa using hany.2 hc]
  · rw [hfind] at hany
    rw [if_pos (hany.1 rfl)]

/-- A string copied down: its terminator comes with it, and nothing behind that changes. -/
theorem strcpy_spec : ∀ {k dst src : Nat} {data : Buf} {line : List UInt8}, dst < src → line.length < k →
    IsString (fun i => data (src + i)) line →
      (∀ i < line.length, ece391Strcpy k dst src data (dst + i) = line.getD i 0) ∧
        ∀ i, i < dst ∨ dst + line.length < i → ece391Strcpy k dst src data i = data i
  | 0, _, _, _, _, _, hk, _ => absurd hk (Nat.not_lt_zero _)
  | k + 1, dst, src, data, [], _, _, h => by
    have hnul : data src = 0 := h.2 0 le_rfl
    unfold ece391Strcpy
    refine ⟨fun i hi => absurd hi (Nat.not_lt_zero _), fun i hi => ?_⟩
    rw [hnul, if_neg (fun hne => hne rfl), Function.update_of_ne (by simp at hi; omega)]
  | k + 1, dst, src, data, c :: line, hlt, hk, h => by
    have hc : data src = c := h.2 0 (Nat.zero_le _)
    have hne : c ≠ 0 := fun h0 => h.1 (h0 ▸ List.mem_cons_self)
    have hrest : IsString (fun i => Function.update data dst (data src) (src + 1 + i)) line := by
      refine ⟨fun h0 => h.1 (List.mem_cons_of_mem _ h0), fun i hi => ?_⟩
      have hi' := h.2 (i + 1) (Nat.succ_le_succ hi)
      rw [List.getD_cons_succ] at hi'
      show Function.update data dst (data src) (src + 1 + i) = line.getD i 0
      rw [Function.update_of_ne (by omega), Nat.add_assoc, Nat.add_comm 1 i]
      exact hi'
    obtain ⟨hcopied, hkept⟩ :=
      strcpy_spec (show dst + 1 < src + 1 from Nat.succ_lt_succ hlt) (Nat.lt_of_succ_lt_succ hk) hrest
    unfold ece391Strcpy
    simp only [hc] at hcopied hkept ⊢
    rw [if_pos hne]
    refine ⟨fun i hi => ?_, fun i hi => ?_⟩
    · cases i with
      | zero => exact (hkept dst (Or.inl (by omega))).trans (Function.update_self _ _ _)
      | succ i =>
        rw [show dst + (i + 1) = dst + 1 + i by omega, hcopied i (Nat.lt_of_succ_lt_succ hi), List.getD_cons_succ]
    · rw [List.length_cons] at hi
      rw [hkept i (by omega), Function.update_of_ne (by omega)]

/-! ## The loop over the lines -/

/-- The buffer from `line_start` up to `last`. -/
structure Content (v : Pass) (text : List UInt8) : Prop where
  last : v.last = v.lineStart + text.length
  le : v.last ≤ bufsize
  bytes : ∀ i < text.length, v.data (v.lineStart + i) = text.getD i 0
  noNul : 0 ∉ text

variable {v : Pass} {rest : List UInt8}

theorem Content.findEnd (h : Content v (line ++ rest)) (hline : 10 ∉ line) (hrest : rest = [] ∨ ∃ rest', rest = 10 :: rest') :
    Grep.findEnd v = v.lineStart + line.length := by
  have hlast := h.last
  have hle := h.le
  rw [List.length_append] at hlast
  refine While.final_count ?_ (Nat.le_add_right _ _) (fun j hj hlt => ?_) (by unfold turns bufsize at *; omega)
  · rcases hrest with rfl | ⟨rest', rfl⟩
    · rw [List.length_nil] at hlast
      rw [decide_eq_false (by omega), Bool.false_and]
    · have hend := h.bytes line.length (by simp)
      rw [List.getD_append_right _ _ _ _ le_rfl, Nat.sub_self, List.getD_cons_zero] at hend
      rw [hend]
      simp
  · obtain ⟨i, rfl⟩ := Nat.exists_eq_add_of_le hj
    have hi : i < line.length := by omega
    have hbyte := h.bytes i (by rw [List.length_append]; omega)
    rw [List.getD_append _ _ _ _ hi, List.getD_eq_getElem _ _ hi] at hbyte
    rw [hbyte, Bool.and_eq_true, decide_eq_true_eq, decide_eq_true_eq]
    exact ⟨by omega, fun h10 => hline (h10 ▸ List.getElem_mem hi)⟩

/-- The line, with a terminator at its end. -/
theorem Content.isString (h : Content v (line ++ rest)) :
    IsString (fun i => Function.update v.data (v.lineStart + line.length) 0 (v.lineStart + i)) line := by
  refine ⟨fun h0 => h.noNul (List.mem_append_left _ h0), fun i hi => ?_⟩
  dsimp only
  rcases Nat.lt_or_eq_of_le hi with hlt | rfl
  · have hbyte := h.bytes i (by rw [List.length_append]; omega)
    rw [List.getD_append _ _ _ _ hlt] at hbyte
    rw [Function.update_of_ne (by omega), hbyte]
  · rw [Function.update_self, List.getD_eq_default _ _ le_rfl]

/-- The variables after a line that is searched. -/
def searched (s fname : CString) (line : List UInt8) (v : Pass) : Pass :=
  { v with
    data := Function.update v.data (v.lineStart + line.length) 0
    lineStart := v.lineStart + line.length + 1
    out := v.out ++ printed s fname line }

theorem Content.searched (h : Content v (line ++ 10 :: rest)) : Content (searched s fname line v) rest := by
  have hlast := h.last
  rw [List.length_append, List.length_cons] at hlast
  refine ⟨?_, h.le, fun i hi => ?_, fun h0 => h.noNul (List.mem_append_right _ (List.mem_cons_of_mem _ h0))⟩
  · show v.last = v.lineStart + line.length + 1 + rest.length
    omega
  · have hbyte := h.bytes (line.length + 1 + i) (by rw [List.length_append, List.length_cons]; omega)
    rw [List.getD_append_right _ _ _ _ (by omega), show line.length + 1 + i - line.length = i + 1 by omega,
      List.getD_cons_succ] at hbyte
    show Function.update v.data _ 0 (v.lineStart + line.length + 1 + i) = _
    rw [Function.update_of_ne (by omega), ← hbyte]
    exact congrArg v.data (by omega)

/-- One line of several. -/
theorem lines_line (hs : s.bytes ≠ []) (h : Content v (line ++ 10 :: rest)) (hline : 10 ∉ line) (cnt k : Nat) :
    lines s fname cnt (k + 1) v =
      if rest = [] then some { searched s fname line v with last := 0 }
      else lines s fname cnt k (searched s fname line v) := by
  have hend := h.findEnd hline (Or.inr ⟨rest, rfl⟩)
  have hlast := h.last
  have hle := h.le
  rw [List.length_append, List.length_cons] at hlast
  have hnl : v.data (v.lineStart + line.length) = 10 := by
    have hbyte := h.bytes line.length (by simp)
    rwa [List.getD_append_right _ _ _ _ le_rfl, Nat.sub_self, List.getD_cons_zero] at hbyte
  have hsearch := search_eq fname hs h.isString (by unfold turns bufsize at *; omega)
  rw [lines]
  simp only [hend, hnl, ne_eq, not_true_eq_false, false_and, if_false, hsearch]
  refine if_congr ?_ rfl rfl
  rw [← List.length_eq_zero_iff]
  omega

/-- What stands behind the last line. -/
theorem lines_end (hs : s.bytes ≠ []) (h : Content v line) (hline : 10 ∉ line) (cnt k : Nat) :
    lines s fname cnt (k + 1) v =
      if v.data v.last ≠ 10 ∧ cnt ≠ 0 ∧ v.lineStart ≠ 0 then
        some { v with
          data := ece391Strcpy turns 0 v.lineStart (Function.update v.data v.last 0), last := line.length }
      else some { searched s fname line v with last := 0 } := by
  have happend : Content v (line ++ []) := by rwa [List.append_nil]
  have hend := happend.findEnd hline (Or.inl rfl)
  have hlast := h.last
  have hle := h.le
  have hsearch := search_eq fname hs happend.isString (by unfold turns bufsize at *; omega)
  rw [lines]
  simp only [hend, hsearch, if_pos (show v.last ≤ v.lineStart + line.length + 1 by omega),
    show v.last - v.lineStart = line.length by omega]
  by_cases hcopy : v.data v.last ≠ 10 ∧ cnt ≠ 0 ∧ v.lineStart ≠ 0
  · rw [if_pos hcopy, if_pos (by rwa [← hlast]), ← hlast]
  · rw [if_neg hcopy, if_neg (by rwa [← hlast])]
    rfl

theorem printed_nil (hs : s.bytes ≠ []) (fname : CString) : printed s fname [] = [] :=
  if_neg fun h => hs (List.infix_nil.1 h.2)

/-- What a pass over lines and the part of a line behind them does: the part is searched like a line, or it is copied
down. -/
structure Passed (s fname : CString) (ls : List (List UInt8)) (part : List UInt8) (v v' : Pass) (copied : Prop) : Prop where
  beyond : ∀ i, v.last < i → v'.data i = v.data i
  whole : part = [] → ls ≠ [] → v'.data v.last = v.data v.last
  cut : part ≠ [] → v'.data v.last = 0
  searched : ¬ copied → v'.last = 0 ∧ v'.out = v.out ++ (ls ++ [part]).flatMap (printed s fname)
  copied : copied → v'.last = part.length ∧ (∀ i < part.length, v'.data i = part.getD i 0) ∧
    v'.out = v.out ++ ls.flatMap (printed s fname)

/-- The part is copied. -/
def Copies (cnt : Nat) (ls : List (List UInt8)) (part : List UInt8) (v : Pass) : Prop :=
  part ≠ [] ∧ v.data v.last ≠ 10 ∧ cnt ≠ 0 ∧ (v.lineStart ≠ 0 ∨ ls ≠ [])

/-- A part with no line before it in the pass. -/
theorem lines_part (hs : s.bytes ≠ []) {part : List UInt8} (h : Content v part) (hpart : 10 ∉ part)
    (hne : part ≠ [] ∨ v.lineStart = 0) (cnt k : Nat) :
    ∃ v', lines s fname cnt (k + 1) v = some v' ∧ Passed s fname [] part v v' (Copies cnt [] part v) := by
  have hlast := h.last
  have hle := h.le
  rw [lines_end hs h hpart]
  by_cases hcopy : v.data v.last ≠ 10 ∧ cnt ≠ 0 ∧ v.lineStart ≠ 0
  · have hpart0 : part ≠ [] := hne.resolve_right hcopy.2.2
    have hcopies : Copies cnt [] part v := ⟨hpart0, hcopy.1, hcopy.2.1, Or.inl hcopy.2.2⟩
    have hstring : Content v (part ++ []) := by rwa [List.append_nil]
    have hpos := Nat.pos_of_ne_zero hcopy.2.2
    obtain ⟨hcopied, hkept⟩ := strcpy_spec hpos (show part.length < turns by unfold turns bufsize at *; omega)
      (hlast ▸ hstring.isString)
    rw [if_pos hcopy]
    refine ⟨_, rfl, fun i hi => ?_, fun h0 => absurd h0 hpart0, fun _ => ?_, fun hnot => absurd hcopies hnot,
      fun _ => ⟨rfl, fun i hi => ?_, ?_⟩⟩
    · exact (hkept i (Or.inr (by omega))).trans (Function.update_of_ne (by omega) _ _)
    · exact (hkept v.last (Or.inr (by omega))).trans (Function.update_self _ _ _)
    · have hbyte := hcopied i hi
      rwa [Nat.zero_add] at hbyte
    · exact (List.append_nil _).symm
  · have hcopies : ¬ Copies cnt [] part v := fun h =>
      hcopy ⟨h.2.1, h.2.2.1, h.2.2.2.resolve_right fun hnil => hnil rfl⟩
    rw [if_neg hcopy]
    refine ⟨_, rfl, fun i hi => ?_, fun _ hnil => absurd rfl hnil, fun _ => ?_, fun _ => ⟨rfl, ?_⟩,
      fun h => absurd h hcopies⟩
    · exact Function.update_of_ne (by omega) _ _
    · show Function.update v.data (v.lineStart + part.length) 0 v.last = 0
      rw [hlast, Function.update_self]
    · rw [List.nil_append, List.flatMap_singleton]
      rfl

theorem lines_spec (fname : CString) (hs : s.bytes ≠ []) {part : List UInt8} (hpart : 10 ∉ part) (cnt : Nat) :
    ∀ {ls : List (List UInt8)} {k : Nat} {v : Pass}, (∀ l ∈ ls, 10 ∉ l) → Content v (unlines 10 ls ++ part) →
      unlines 10 ls ++ part ≠ [] ∨ v.lineStart = 0 → ls.length < k →
        ∃ v', lines s fname cnt k v = some v' ∧ Passed s fname ls part v v' (Copies cnt ls part v)
  | _, 0, _, _, _, _, hk => absurd hk (Nat.not_lt_zero _)
  | [], k + 1, _, _, h, hne, _ => lines_part hs h hpart hne cnt k
  | l :: ls, k + 1, v, hls, h, _, hk => by
    rw [unlines_cons, List.append_assoc, List.cons_append] at h
    have hlast := h.last
    rw [List.length_append, List.length_cons] at hlast
    have hdata : ∀ i, v.last ≤ i → (searched s fname l v).data i = v.data i := fun i hi =>
      Function.update_of_ne (by omega) _ _
    have hout : (searched s fname l v).out = v.out ++ printed s fname l := rfl
    rw [lines_line hs h (hls l List.mem_cons_self)]
    by_cases hrest : unlines 10 ls ++ part = []
    · obtain ⟨hnil, hpart0⟩ := List.append_eq_nil_iff.1 hrest
      cases ls with
      | cons l' ls => simp [unlines_cons] at hnil
      | nil =>
        rw [if_pos hrest]
        refine ⟨_, rfl, fun i hi => hdata i hi.le, fun _ _ => hdata _ le_rfl, fun h0 => absurd hpart0 h0,
          fun _ => ⟨rfl, ?_⟩, fun hcopies => absurd hpart0 hcopies.1⟩
        rw [hpart0, List.flatMap_append, List.flatMap_singleton, List.flatMap_singleton, printed_nil hs, List.append_nil]
        exact hout
    · obtain ⟨v', hv', hpassed⟩ := lines_spec fname hs hpart cnt (fun l' hl' => hls l' (List.mem_cons_of_mem _ hl'))
        (h.searched (s := s)) (Or.inl hrest) (Nat.lt_of_succ_lt_succ hk)
      have hcopies : Copies cnt ls part (searched s fname l v) ↔ Copies cnt (l :: ls) part v := by
        refine and_congr_right fun _ => and_congr ?_ (and_congr_right fun _ => ?_)
        · rw [show (searched s fname l v).last = v.last from rfl, hdata _ le_rfl]
        · exact iff_of_true (Or.inl (Nat.succ_ne_zero _)) (Or.inr (List.cons_ne_nil _ _))
      rw [if_neg hrest]
      refine ⟨v', hv', fun i hi => (hpassed.beyond i hi).trans (hdata i hi.le), fun h0 _ => ?_, hpassed.cut,
        fun hnot => ?_, fun hcopied => ?_⟩
      · have hls0 : ls ≠ [] := fun hnil => hrest (by rw [hnil, h0]; rfl)
        exact (hpassed.whole h0 hls0).trans (hdata _ le_rfl)
      · obtain ⟨hlast', hout'⟩ := hpassed.searched fun hc => hnot (hcopies.1 hc)
        exact ⟨hlast', by rw [hout', hout, List.cons_append, List.flatMap_cons, List.append_assoc]⟩
      · obtain ⟨hlast', hbytes, hout'⟩ := hpassed.copied (hcopies.2 hcopied)
        exact ⟨hlast', hbytes, by rw [hout', hout, List.flatMap_cons, List.append_assoc]⟩

/-! ## The loop over the reads -/

/-- `read` returns the next bytes of the file, as many as are asked for and left. -/
def Reads (calls : Calls σ) (fd : Int) (left : σ → List UInt8) : Prop :=
  ∀ n st, ∃ st', calls.ece391Read fd n st = (some ((left st).take n), st') ∧ left st' = (left st).drop n

/-- Before a read: the part of a line is in the buffer, the text behind it is left of the file. -/
structure Ready (left : σ → List UInt8) (part text : List UInt8) (g : Scan σ) : Prop where
  last : g.last = part.length
  bytes : ∀ i < part.length, g.data i = part.getD i 0
  left : left g.calls = text
  noLine : 10 ∉ part
  noNul : 0 ∉ part ++ text
  short : ∀ line, line <:+: part ++ text → 10 ∉ line → line.length < bufsize

/-- The part behind the lines is searched like them. -/
def Searched (s fname : CString) (left : σ → List UInt8) (text : List UInt8) (ls : List (List UInt8)) (part : List UInt8)
    (g g' : Scan σ) : Prop :=
  Ready left [] text g' ∧ g'.out = g.out ++ (ls ++ [part]).flatMap (printed s fname)

/-- The part behind the lines stays in the buffer. -/
def Kept (s fname : CString) (left : σ → List UInt8) (text : List UInt8) (ls : List (List UInt8)) (part : List UInt8)
    (g g' : Scan σ) : Prop :=
  Ready left part text g' ∧ g'.out = g.out ++ ls.flatMap (printed s fname)

/-- What a turn does. The byte behind a full buffer decides about the part. -/
structure Turned (s fname : CString) (left : σ → List UInt8) (part text : List UInt8) (ls : List (List UInt8))
    (part' text' : List UInt8) (g g' : Scan σ) : Prop where
  read : part ++ text = unlines 10 ls ++ (part' ++ text')
  chunk : part ++ text.take (bufsize - part.length) = unlines 10 ls ++ part'
  rest : text' = text.drop (bufsize - part.length)
  lines : ∀ l ∈ ls, 10 ∉ l
  tail : 10 ∉ part'
  next : Searched s fname left text' ls part' g g' ∨ Kept s fname left text' ls part' g g' ∧ text ≠ []
  room : text.length < bufsize - part.length ∨ part' = [] → g'.data bufsize = g.data bufsize
  full : bufsize - part.length ≤ text.length → part' ≠ [] → g'.data bufsize = 0 ∧
    (g.data bufsize = 10 → Searched s fname left text' ls part' g g') ∧
    (g.data bufsize ≠ 10 → Kept s fname left text' ls part' g g')

theorem Ready.length_lt {left : σ → List UInt8} {part text : List UInt8} {g : Scan σ} (h : Ready left part text g) :
    part.length < bufsize :=
  h.short part (List.prefix_append _ _).isInfix h.noLine

/-- The buffer after a read. -/
theorem Ready.content {left : σ → List UInt8} {part text : List UInt8} {g : Scan σ} (h : Ready left part text g)
    {bytes : List UInt8} (hbytes : bytes = text.take (bufsize - part.length)) :
    Content (g.filled bytes) (part ++ bytes) := by
  have hlast := h.last
  have hlt := h.length_lt
  have hlen : bytes.length ≤ bufsize - part.length := by
    rw [hbytes]
    exact List.length_take_le _ _
  refine ⟨?_, ?_, fun i hi => ?_, fun h0 => h.noNul ?_⟩
  · show g.last + bytes.length = 0 + (part ++ bytes).length
    rw [List.length_append, hlast, Nat.zero_add]
  · show g.last + bytes.length ≤ bufsize
    omega
  · rw [List.length_append] at hi
    show (if g.last ≤ 0 + i ∧ 0 + i < g.last + bytes.length then bytes.getD (0 + i - g.last) 0 else g.data (0 + i)) = _
    rw [Nat.zero_add]
    by_cases hi' : i < part.length
    · rw [if_neg (by omega), h.bytes i hi', List.getD_append _ _ _ _ hi']
    · rw [if_pos (by omega), List.getD_append_right _ _ _ _ (by omega), hlast]
  · rw [List.mem_append] at h0 ⊢
    exact h0.imp_right fun hmem => List.mem_of_mem_take (hbytes ▸ hmem)

/-- What is left of the text is ready. -/
theorem Ready.of_suffix {left : σ → List UInt8} {part text part' text' : List UInt8} {g g' : Scan σ}
    (h : Ready left part text g) (hsuffix : part' ++ text' <:+ part ++ text) (hpart' : 10 ∉ part')
    (hlast : g'.last = part'.length) (hbytes : ∀ i < part'.length, g'.data i = part'.getD i 0)
    (hleft : left g'.calls = text') : Ready left part' text' g' :=
  ⟨hlast, hbytes, hleft, hpart', fun h0 => h.noNul (hsuffix.subset h0), fun line hline =>
    h.short line (hline.trans hsuffix.isInfix)⟩

/-- A pass over the buffer, seen from the text. -/
theorem Ready.turned {left : σ → List UInt8} {part text : List UInt8} {g : Scan σ} (h : Ready left part text g)
    {bytes text' : List UInt8} {ls : List (List UInt8)} {part' : List UInt8} {v' : Pass} {st' : σ}
    (hbytes : bytes = text.take (bufsize - part.length)) (htext' : text' = text.drop (bufsize - part.length))
    (hchunk : part ++ bytes = unlines 10 ls ++ part') (hls : ∀ l ∈ ls, 10 ∉ l) (hpart' : 10 ∉ part')
    (hpassed : Passed s fname ls part' (g.filled bytes) v' (Copies bytes.length ls part' (g.filled bytes)))
    (hleft : left st' = text') :
    Turned s fname left part text ls part' text' g ⟨v'.data, v'.last, v'.out, st'⟩ := by
  have hlt := h.length_lt
  have hcnt : bytes.length = min (bufsize - part.length) text.length := by rw [hbytes, List.length_take]
  have hlast : (g.filled bytes).last = part.length + bytes.length := by rw [← h.last]; rfl
  have hlen : part.length + bytes.length = (unlines 10 ls ++ part').length := by rw [← hchunk, List.length_append]
  have hdata : ∀ i, part.length + bytes.length ≤ i → (g.filled bytes).data i = g.data i := fun i hi =>
    if_neg (by rw [h.last]; omega)
  have htext : part ++ text = unlines 10 ls ++ (part' ++ text') := by
    rw [← List.append_assoc, ← hchunk, List.append_assoc, hbytes, htext', List.take_append_drop]
  have hkeep : part' ++ text' <:+ part ++ text := htext ▸ List.suffix_append _ _
  have hgone : text' <:+ part ++ text := (List.suffix_append _ _).trans hkeep
  have hsearched : ¬ Copies bytes.length ls part' (g.filled bytes) →
      Searched s fname left text' ls part' g ⟨v'.data, v'.last, v'.out, st'⟩ := fun hnot =>
    ⟨h.of_suffix hgone List.not_mem_nil (hpassed.searched hnot).1 (fun i hi => absurd hi (Nat.not_lt_zero _)) hleft,
      (hpassed.searched hnot).2⟩
  have hkept : Copies bytes.length ls part' (g.filled bytes) →
      Kept s fname left text' ls part' g ⟨v'.data, v'.last, v'.out, st'⟩ := fun hcopies =>
    ⟨h.of_suffix hkeep hpart' (hpassed.copied hcopies).1 (hpassed.copied hcopies).2.1 hleft, (hpassed.copied hcopies).2.2⟩
  refine ⟨htext, hbytes ▸ hchunk, htext', hls, hpart', ?_, fun hroom => ?_, fun hfull hpart0 => ?_⟩
  · by_cases hcopies : Copies bytes.length ls part' (g.filled bytes)
    · refine Or.inr ⟨hkept hcopies, fun hnil => hcopies.2.2.1 ?_⟩
      rw [hcnt, hnil, List.length_nil, Nat.min_zero]
    · exact Or.inl (hsearched hcopies)
  · rcases Nat.lt_or_ge (part.length + bytes.length) bufsize with hlt' | hge
    · exact (hpassed.beyond bufsize (by rwa [hlast])).trans (hdata _ hlt'.le)
    · -- a full buffer that ends with a line
      have hend : part.length + bytes.length = bufsize := by omega
      have hpart0 : part' = [] := hroom.resolve_left (by omega)
      have hlines : ls ≠ [] := by
        rintro rfl
        rw [hpart0] at hlen
        exact absurd hlen (by rw [hend]; decide)
      have hkeeps := hpassed.whole hpart0 hlines
      rw [hlast, hend] at hkeeps
      exact hkeeps.trans (hdata _ hend.le)
  · -- a full buffer that ends within a line, which is not its first one
    have hend : part.length + bytes.length = bufsize := by omega
    have hlines : ls ≠ [] := by
      rintro rfl
      have hshort := h.short part' ((List.prefix_append _ _).isInfix.trans hkeep.isInfix) hpart'
      exact absurd hshort (by rw [← hend, hlen]; exact lt_irrefl _)
    have hcut := hpassed.cut hpart0
    rw [hlast, hend] at hcut
    have hnl : (g.filled bytes).data (g.filled bytes).last = g.data bufsize := by
      rw [hlast, hend]
      exact hdata _ hend.le
    refine ⟨hcut, fun h10 => hsearched fun hcopies => hcopies.2.1 (hnl.trans h10), fun h10 => hkept ?_⟩
    exact ⟨hpart0, fun hnot => h10 (hnl.symm.trans hnot), by omega, Or.inr hlines⟩

theorem reads_succ {calls : Calls σ} {fd : Int} {left : σ → List UInt8} (fname : CString) (hs : s.bytes ≠ [])
    (hcalls : Reads calls fd left) {part text : List UInt8} {g : Scan σ} (h : Ready left part text g) (k : Nat) :
    ∃ g' ls part' text', Turned s fname left part text ls part' text' g g' ∧
      reads calls s fname fd (k + 1) g = if text = [] then some (true, g') else reads calls s fname fd k g' := by
  obtain ⟨st', hread, hleft⟩ := hcalls (bufsize - g.last) g.calls
  rw [h.left, h.last] at hread hleft
  have hlt := h.length_lt
  have hcontent := h.content rfl
  obtain ⟨ls, part', hchunk, hls, hpart'⟩ := exists_unlines 10 (part ++ text.take (bufsize - part.length))
  rw [hchunk] at hcontent
  have hle := hcontent.le
  have hlen := hcontent.last
  rw [List.length_append] at hlen
  have hturns : ls.length < turns := by
    have hcount := length_le_unlines 10 ls
    have hzero : (g.filled (text.take (bufsize - part.length))).lineStart = 0 := rfl
    unfold turns bufsize at *
    omega
  obtain ⟨v', hlines, hpassed⟩ := lines_spec fname hs hpart' (text.take (bufsize - part.length)).length hls hcontent
    (Or.inr rfl) hturns
  refine ⟨⟨v'.data, v'.last, v'.out, st'⟩, ls, part', _, h.turned rfl rfl hchunk hls hpart' hpassed hleft, ?_⟩
  rw [reads, h.last, hread]
  simp only [hlines, Option.bind_some, List.length_eq_zero_iff, List.take_eq_nil_iff]
  exact if_congr ⟨fun hor => hor.resolve_left (by omega), Or.inr⟩ rfl rfl

section

variable {calls : Calls σ} {fd : Int} {left : σ → List UInt8} {part text : List UInt8} {g : Scan σ}

/-- After the last byte the part of a line that is left is searched. -/
theorem reads_end (fname : CString) (hs : s.bytes ≠ []) (hcalls : Reads calls fd left) (h : Ready left part [] g)
    (k : Nat) :
    ∃ g', reads calls s fname fd (k + 1) g = some (true, g') ∧ g'.out = g.out ++ printed s fname part := by
  obtain ⟨g', ls, part', text', hturned, hreads⟩ := reads_succ fname hs hcalls h k
  rw [if_pos rfl] at hreads
  refine ⟨g', hreads, ?_⟩
  obtain ⟨-, hout⟩ := hturned.next.resolve_right fun hkept => hkept.2 rfl
  have hsplit : ls ++ [part'] = [part] := by
    have hchunk := congrArg (List.splitOn 10) hturned.chunk
    rwa [List.take_nil, List.append_nil, splitOn_unlines_append _ hturned.lines, List.splitOn_eq_singleton hturned.tail,
      List.splitOn_eq_singleton h.noLine, eq_comm] at hchunk
  rw [hout, hsplit, List.flatMap_singleton]

theorem Turned.length_lt {ls : List (List UInt8)} {part' text' : List UInt8} {g' : Scan σ}
    (h : Turned s fname left part text ls part' text' g g') (hpart : part.length < bufsize) (htext : text ≠ []) :
    text'.length < text.length := by
  have hpos := List.length_pos_iff.2 htext
  rw [h.rest, List.length_drop]
  omega

theorem Turned.rest_nil {ls : List (List UInt8)} {part' text' : List UInt8} {g' : Scan σ}
    (h : Turned s fname left part text ls part' text' g g') (hlt : text.length < bufsize - part.length) : text' = [] := by
  rw [h.rest]
  exact List.drop_eq_nil_of_le hlt.le

theorem flatMap_splitOn_append (hs : s.bytes ≠ []) {text' : List UInt8} (hpart : 10 ∉ part) (h : part = [] ∨ text' = []) :
    ((part ++ text').splitOn 10).flatMap (printed s fname) =
      printed s fname part ++ (text'.splitOn 10).flatMap (printed s fname) := by
  rcases h with rfl | rfl
  · rw [printed_nil hs]
    rfl
  · rw [List.append_nil, List.splitOn_eq_singleton hpart, List.splitOn_nil, List.flatMap_singleton, List.flatMap_singleton,
      printed_nil hs, List.append_nil]

/-- When the byte behind the buffer is not a newline, the lines are searched as they are. -/
theorem reads_lines (hs : s.bytes ≠ []) (hcalls : Reads calls fd left) :
    ∀ {k : Nat} {part text : List UInt8} {g : Scan σ}, text.length < k → Ready left part text g → g.data bufsize ≠ 10 →
      ∃ g', reads calls s fname fd k g = some (true, g') ∧
        g'.out = g.out ++ ((part ++ text).splitOn 10).flatMap (printed s fname)
  | 0, _, _, _, hk, _, _ => absurd hk (Nat.not_lt_zero _)
  | k + 1, part, text, g, hk, h, hend => by
    by_cases htext : text = []
    · subst htext
      rw [List.append_nil, List.splitOn_eq_singleton h.noLine, List.flatMap_singleton]
      exact reads_end fname hs hcalls h k
    · obtain ⟨g1, ls, part', text', hturned, hreads⟩ := reads_succ fname hs hcalls h k
      have hk' : text'.length < k := lt_of_lt_of_le (hturned.length_lt h.length_lt htext) (Nat.le_of_lt_succ hk)
      rw [hreads, if_neg htext, hturned.read, splitOn_unlines_append _ hturned.lines, List.flatMap_append,
        ← List.append_assoc]
      by_cases hcut : bufsize - part.length ≤ text.length ∧ part' ≠ []
      · obtain ⟨hnul, -, hkept⟩ := hturned.full hcut.1 hcut.2
        obtain ⟨hready, hout⟩ := hkept hend
        rw [← hout]
        exact reads_lines hs hcalls hk' hready (by rw [hnul]; decide)
      · have hor : text.length < bufsize - part.length ∨ part' = [] := by
          by_contra hnot
          rw [not_or, not_lt] at hnot
          exact hcut hnot
        have hend' : g1.data bufsize ≠ 10 := by rwa [hturned.room hor]
        rcases hturned.next with ⟨hready, hout⟩ | ⟨⟨hready, hout⟩, -⟩
        · obtain ⟨g', hrun, hout'⟩ := reads_lines hs hcalls hk' hready hend'
          refine ⟨g', hrun, ?_⟩
          rw [hout', hout, List.flatMap_append, List.flatMap_singleton, List.nil_append,
            flatMap_splitOn_append hs hturned.tail (hor.symm.imp_right hturned.rest_nil)]
          simp only [List.append_assoc]
        · rw [← hout]
          exact reads_lines hs hcalls hk' hready hend'

theorem seen_nil_flatMap (hs : s.bytes ≠ []) (fname : CString) :
    ∀ n : Nat, (seen 10 bufsize n []).flatMap (printed s fname) = []
  | 0 => by rw [seen, List.splitOn_nil, List.flatMap_singleton, printed_nil hs]
  | n + 1 => by
    have hbehind : behind (10 : UInt8) [] = [] := rfl
    rw [seen, List.take_nil, List.drop_nil, if_pos hbehind, List.splitOn_nil, List.flatMap_append, List.flatMap_singleton,
      printed_nil hs, List.nil_append, seen_nil_flatMap hs fname n]

/-- When it is one, the end of the first full buffer that does not end with a line is taken for the end of a line. -/
theorem reads_seen (hs : s.bytes ≠ []) (hcalls : Reads calls fd left) :
    ∀ {k n : Nat} {text : List UInt8} {g : Scan σ}, text.length < k → text.length ≤ bufsize * n → Ready left [] text g →
      g.data bufsize = 10 → ∃ g', reads calls s fname fd k g = some (true, g') ∧
        g'.out = g.out ++ (seen 10 bufsize n text).flatMap (printed s fname)
  | 0, _, _, _, hk, _, _, _ => absurd hk (Nat.not_lt_zero _)
  | k + 1, n, text, g, hk, hn, h, hend => by
    by_cases htext : text = []
    · subst htext
      rw [seen_nil_flatMap hs, ← printed_nil hs fname]
      exact reads_end fname hs hcalls h k
    obtain ⟨g1, ls, part', text', hturned, hreads⟩ := reads_succ fname hs hcalls h k
    have hk' : text'.length < k := lt_of_lt_of_le (hturned.length_lt h.length_lt htext) (Nat.le_of_lt_succ hk)
    have hchunk : text.take bufsize = unlines 10 ls ++ part' := hturned.chunk
    have hrest : text' = text.drop bufsize := hturned.rest
    cases n with
    | zero => exact absurd (List.eq_nil_of_length_eq_zero (Nat.le_zero.1 hn)) htext
    | succ n =>
      have hn' : text'.length ≤ bufsize * n := by
        rw [hrest, List.length_drop]
        rw [Nat.mul_succ] at hn
        omega
      rw [hreads, if_neg htext, seen, hchunk, behind_unlines hturned.tail, splitOn_unlines_append _ hturned.lines,
        List.splitOn_eq_singleton hturned.tail, List.flatMap_append, ← List.append_assoc, ← hrest]
      by_cases hpart0 : part' = []
      · -- the chunk ends with a line
        have hend' : g1.data bufsize = 10 := by rwa [hturned.room (Or.inr hpart0)]
        have hready : Ready left [] text' g1 ∧ g1.out = g.out ++ (ls ++ [part']).flatMap (printed s fname) := by
          rcases hturned.next with hsearched | ⟨⟨hready, hout⟩, -⟩
          · exact hsearched
          · subst hpart0
            refine ⟨hready, ?_⟩
            rw [hout, List.flatMap_append, List.flatMap_singleton, printed_nil hs, List.append_nil]
        rw [if_pos hpart0, ← hready.2]
        exact reads_seen hs hcalls hk' hn' hready.1 hend'
      rw [if_neg hpart0]
      rcases Nat.lt_or_ge text.length bufsize with hroom | hfull
      · -- the last chunk
        obtain rfl := hturned.rest_nil hroom
        obtain ⟨k, rfl⟩ : ∃ k', k = k' + 1 := ⟨k - 1, by omega⟩
        rw [List.splitOn_nil, List.flatMap_singleton, printed_nil hs, List.append_nil]
        rcases hturned.next with ⟨hready, hout⟩ | ⟨⟨hready, hout⟩, -⟩
        · obtain ⟨g', hrun, hout'⟩ := reads_end fname hs hcalls hready k
          exact ⟨g', hrun, by rw [hout', hout, printed_nil hs, List.append_nil]⟩
        · obtain ⟨g', hrun, hout'⟩ := reads_end fname hs hcalls hready k
          refine ⟨g', hrun, ?_⟩
          rw [hout', hout, List.flatMap_append, List.flatMap_singleton, List.append_assoc]
      · -- the part of a line at the end of a full buffer
        obtain ⟨hnul, hsearched, -⟩ := hturned.full hfull hpart0
        obtain ⟨hready, hout⟩ := hsearched hend
        rw [← hout]
        exact reads_lines hs hcalls hk' hready (by rw [hnul]; decide)

/-! ## What is printed for a file -/

/-- The file can be opened, read to its end and closed. -/
def Serves (calls : Calls σ) (left : σ → List UInt8) (fname : CString) (file : List UInt8) (st : σ) : Prop :=
  ∃ fd st', calls.ece391Open fname st = (some fd, st') ∧ left st' = file ∧ Reads calls fd left ∧
    ∀ st, (calls.ece391Close fd st).1 = true

/-- A line for each line of the file that holds the string. -/
def found (s fname : CString) (file : List UInt8) : List UInt8 :=
  (file.splitOn 10).flatMap fun line => if s.bytes <:+: line then shown fname line else []

theorem doOneFile_out {file : List UInt8} {st : σ} (hs : s.bytes ≠ []) (hcalls : Serves calls left fname file st)
    (hnul : 0 ∉ file) (hshort : ∀ line ∈ file.splitOn 10, line.length < bufsize) (data : Buf) {k : Nat}
    (hk : file.length < k) :
    ∃ g, doOneFile calls s fname data st k = some (0, g) ∧
      g.out = (if data bufsize = 10 then seen 10 bufsize file.length file else file.splitOn 10).flatMap (printed s fname) := by
  obtain ⟨fd, st', hopen, hleft, hreads, hclose⟩ := hcalls
  have hready : Ready left [] file (⟨data, 0, [], st'⟩ : Scan σ) := by
    refine ⟨rfl, fun i hi => absurd hi (Nat.not_lt_zero _), hleft, List.not_mem_nil, hnul, fun line hline hnl => ?_⟩
    obtain ⟨l, hl, hinfix⟩ := exists_line hline hnl
    exact lt_of_le_of_lt hinfix.length_le (hshort l hl)
  have hrun : ∃ g, reads calls s fname fd k ⟨data, 0, [], st'⟩ = some (true, g) ∧
      g.out = (if data bufsize = 10 then seen 10 bufsize file.length file else file.splitOn 10).flatMap
        (printed s fname) := by
    by_cases hend : data bufsize = 10
    · rw [if_pos hend]
      exact reads_seen hs hreads hk (Nat.le_mul_of_pos_left _ (by decide)) hready hend
    · rw [if_neg hend]
      exact reads_lines hs hreads hk hready hend
  obtain ⟨g, hg, hout⟩ := hrun
  have hclosed := hclose g.calls
  unfold doOneFile
  simp only [hopen, hg, Option.map_some, if_true]
  rcases hc : calls.ece391Close fd g.calls with ⟨b, st''⟩
  rw [hc] at hclosed
  obtain rfl : b = true := hclosed
  exact ⟨_, rfl, hout⟩

theorem length_shown (fname : CString) (line : List UInt8) :
    (shown fname line).length = fname.bytes.length + line.length + 2 := by
  simp [shown, ascii]
  omega

/-- A line cut in two is printed as it should be exactly when the string is not in it. -/
theorem printed_append_iff (hascii : (s.get 0).toNat < 128) {p q : List UInt8} (hp : p ≠ []) (hq : q ≠ []) :
    printed s fname p ++ printed s fname q = printed s fname (p ++ q) ↔ ¬ s.bytes <:+: p ++ q := by
  have hpos := List.length_pos_iff.2 hp
  have hpos' := List.length_pos_iff.2 hq
  by_cases h : s.bytes <:+: p ++ q
  · refine iff_of_false (fun heq => ?_) (fun hnot => hnot h)
    have hlen := congrArg List.length heq
    rw [List.length_append, show printed s fname (p ++ q) = shown fname (p ++ q) from if_pos ⟨hascii, h⟩, printed,
      printed] at hlen
    split_ifs at hlen <;> simp only [length_shown, List.length_append, List.length_nil] at hlen <;> omega
  · have hnot : ∀ {l : List UInt8}, l <:+: p ++ q → printed s fname l = [] := fun hl => if_neg fun hc => h (hc.2.trans hl)
    rw [hnot (List.prefix_append p q).isInfix, hnot (List.suffix_append p q).isInfix, hnot List.infix_rfl]
    exact iff_of_true rfl h

theorem found_eq_nil_iff (s fname : CString) (file : List UInt8) :
    found s fname file = [] ↔ ∀ line ∈ file.splitOn 10, ¬ s.bytes <:+: line := by
  rw [found, List.flatMap_eq_nil_iff]
  refine forall₂_congr fun line _ => ?_
  by_cases h : s.bytes <:+: line
  · rw [if_pos h]
    refine iff_of_false (fun hnil => ?_) (fun hnot => hnot h)
    have hlen := congrArg List.length hnil
    rw [length_shown] at hlen
    exact absurd hlen (by simp)
  · rw [if_neg h]
    exact iff_of_true rfl h

/-- What is printed is what is found when no line holds the string, or when it begins with an ASCII character and is not
in the line that is cut. -/
theorem printed_eq_found_iff (hs : s.bytes ≠ []) (fname : CString) (file : List UInt8) (data : Buf) :
    (if data bufsize = 10 then seen 10 bufsize file.length file else file.splitOn 10).flatMap (printed s fname) =
        found s fname file ↔
      (∀ line ∈ file.splitOn 10, ¬ s.bytes <:+: line) ∨
        (s.get 0).toNat < 128 ∧
          (data bufsize = 10 → ∀ line ∈ cutLine 10 bufsize file.length file, ¬ s.bytes <:+: line) := by
  rw [← found_eq_nil_iff s fname]
  by_cases hascii : (s.get 0).toNat < 128
  · have hfound : found s fname file = (file.splitOn 10).flatMap (printed s fname) :=
      List.flatMap_congr fun line _ => if_congr (and_iff_right hascii).symm rfl rfl
    by_cases hend : data bufsize = 10
    · rw [if_pos hend, hfound, seen_flatMap_iff (Q := fun line => ¬ s.bytes <:+: line) (printed_nil hs fname)
        (fun p q hp hq => printed_append_iff hascii hp hq) (Nat.le_mul_of_pos_left _ (by decide)), ← hfound]
      refine ⟨fun hcut => Or.inr ⟨hascii, fun _ => hcut⟩, fun hor => ?_⟩
      rcases hor with hnone | ⟨-, hcut⟩
      · exact fun line hline => (found_eq_nil_iff s fname file).1 hnone line (mem_of_cutLine hline)
      · exact hcut hend
    · rw [if_neg hend, hfound]
      exact iff_of_true rfl (Or.inr ⟨hascii, fun h => absurd h hend⟩)
  · have hnone : ∀ line, printed s fname line = [] := fun line => if_neg fun h => hascii h.1
    rw [List.flatMap_eq_nil_iff.2 fun line _ => hnone line, eq_comm]
    exact ⟨Or.inl, fun hor => hor.resolve_right fun h => hascii h.1⟩

/-- The same of a run with so many reads. -/
theorem doOneFile_found_iff {file : List UInt8} {st : σ} (hs : s.bytes ≠ []) (hcalls : Serves calls left fname file st)
    (hnul : 0 ∉ file) (hshort : ∀ line ∈ file.splitOn 10, line.length < bufsize) (data : Buf) {k : Nat}
    (hk : file.length < k) :
    (∃ g, doOneFile calls s fname data st k = some (0, g) ∧ g.out = found s fname file) ↔
      (∀ line ∈ file.splitOn 10, ¬ s.bytes <:+: line) ∨
        (s.get 0).toNat < 128 ∧
          (data bufsize = 10 → ∀ line ∈ cutLine 10 bufsize file.length file, ¬ s.bytes <:+: line) := by
  obtain ⟨g, hg, hout⟩ := doOneFile_out hs hcalls hnul hshort data hk
  rw [← printed_eq_found_iff hs fname, ← hout]
  constructor
  · rintro ⟨g', hg', hfound⟩
    obtain rfl : g = g' := by
      rw [hg] at hg'
      exact (Prod.mk.inj (Option.some.inj hg')).2
    exact hfound
  · exact fun hfound => ⟨g, hg, hfound⟩

/-- `do_one_file` prints each line that holds the string exactly when there is none, or when the string begins with an
ASCII character and, if the byte behind the buffer is a newline at first, is not in the line that lies across the end of
the first full buffer that does not end with a line. -/
theorem doOneFile_iff {file : List UInt8} {st : σ} (hs : s.bytes ≠ []) (hcalls : Serves calls left fname file st)
    (hnul : 0 ∉ file) (hshort : ∀ line ∈ file.splitOn 10, line.length < bufsize) (data : Buf) :
    (∀ k, file.length < k → ∃ g, doOneFile calls s fname data st k = some (0, g) ∧ g.out = found s fname file) ↔
      (∀ line ∈ file.splitOn 10, ¬ s.bytes <:+: line) ∨
        (s.get 0).toNat < 128 ∧
          (data bufsize = 10 → ∀ line ∈ cutLine 10 bufsize file.length file, ¬ s.bytes <:+: line) :=
  ⟨fun hall => (doOneFile_found_iff hs hcalls hnul hshort data (Nat.lt_succ_self _)).1 (hall _ (Nat.lt_succ_self _)),
    fun h _ hk => (doOneFile_found_iff hs hcalls hnul hshort data hk).2 h⟩

end

/-! ## A file of bytes -/

/-- Calls that serve a file. -/
def fileCalls : Calls (List UInt8) where
  ece391Open _ file := (some 2, file)
  ece391Read _ n file := (some (file.take n), file.drop n)
  ece391Close _ file := (true, file)

theorem fileCalls_serves (fname : CString) (file : List UInt8) : Serves fileCalls id fname file file :=
  ⟨2, file, rfl, rfl, fun n st => ⟨st.drop n, rfl, rfl⟩, fun _ => rfl⟩

/-- The string `ab`. -/
def ab : CString := ⟨ascii "ab".toList, by decide⟩

/-- The file name `f`. -/
def f : CString := ⟨ascii "f".toList, by decide⟩

/-- Two lines. -/
def twoLines : List UInt8 := ascii "cab\nba".toList

/-- They are searched with newlines in the buffer. -/
theorem doOneFile_iff_ab :
    (∀ k, twoLines.length < k →
      ∃ g, doOneFile fileCalls ab f (fun _ => 10) twoLines k = some (0, g) ∧ g.out = found ab f twoLines) ↔
      (∀ line ∈ twoLines.splitOn 10, ¬ ab.bytes <:+: line) ∨
        (ab.get 0).toNat < 128 ∧
          ((10 : UInt8) = 10 → ∀ line ∈ cutLine 10 bufsize twoLines.length twoLines, ¬ ab.bytes <:+: line) :=
  doOneFile_iff (show ab.bytes ≠ [] by decide) (fileCalls_serves f twoLines) (by decide) (by decide) fun _ => 10

/-- A line of which the first chunk holds all but the last character. -/
def across : List UInt8 := List.replicate 1000 10 ++ List.replicate 23 120 ++ ascii "ab".toList

/-- A string of one character that is not ASCII. -/
def accent : CString := ⟨[0xE9], by decide⟩

/-- `ab` is not found across the end of a chunk when the byte behind the buffer is a newline at first, and `accent` is
not found in a file that holds nothing else. -/
theorem not_found :
    (¬ ∀ k, across.length < k →
      ∃ g, doOneFile fileCalls ab f (fun _ => 10) across k = some (0, g) ∧ g.out = found ab f across) ∧
      ¬ ∀ k, accent.bytes.length < k →
        ∃ g, doOneFile fileCalls accent f (fun _ => 0) accent.bytes k = some (0, g) ∧
          g.out = found accent f accent.bytes := by
  constructor
  · intro hall
    have hfound := hall _ (Nat.lt_succ_self _)
    rw [doOneFile_found_iff (by decide) (fileCalls_serves f across) (by decide +kernel) (by decide +kernel) _
      (Nat.lt_succ_self _)] at hfound
    revert hfound
    decide +kernel
  · intro hall
    have hfound := hall _ (Nat.lt_succ_self _)
    rw [doOneFile_found_iff (by decide) (fileCalls_serves f accent.bytes) (by decide) (by decide) _
      (Nat.lt_succ_self _)] at hfound
    revert hfound
    decide

end Grep

end Os391
