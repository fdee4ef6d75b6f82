/-
What `parse_cmd` makes of a command line. The scanner puts the first word in `cmd_name` and every later
character that is no space in `arg_name`, one after the other, and checks neither length.
-/
import Os391.Process.Spec

namespace Os391

open Bytes

/-! ## Stores -/

/-- The two arrays of the block that the scanner fills. -/
inductive WordField
  | cmdName
  | argName
  deriving DecidableEq

/-- A character stored by the scanner: the array, the index in it and the character. -/
structure WordStore where
  field : WordField
  index : Nat
  byte : UInt8
  deriving DecidableEq

/-- Where a store goes, from the start of `cmd_name`. -/
def WordStore.offset (w : WordStore) : Nat :=
  match w.field with
  | .cmdName => w.index
  | .argName => 40 + w.index

@[simp] theorem WordStore.offset_cmdName (k : Nat) (b : UInt8) : (⟨.cmdName, k, b⟩ : WordStore).offset = k := rfl

@[simp] theorem WordStore.offset_argName (k : Nat) (b : UInt8) : (⟨.argName, k, b⟩ : WordStore).offset = 40 + k := rfl

/-- The stores of the scanner from index `i` on, `n` characters, when it has found `cmdSize` characters of
the command and `argSize` of the argument. -/
def parseStores (input : Buf) : Nat → Nat → Nat → Nat → Bool → List WordStore
  | _, 0, _, _, _ => []
  | i, n + 1, cmdSize, argSize, switchFlag =>
    let next := switchFlag || decide (input (i + 1) = 32)
    if input i = 32 then parseStores input (i + 1) n cmdSize argSize next
    else if switchFlag then
      ⟨.argName, argSize, input i⟩ :: parseStores input (i + 1) n cmdSize (argSize + 1) next
    else ⟨.cmdName, cmdSize, input i⟩ :: parseStores input (i + 1) n (cmdSize + 1) argSize next

/-- The scanner makes its stores one after the other; the size of the argument is the number of those
that go to `arg_name`. -/
theorem parseLoop_eq (input : Buf) : ∀ (n i : Nat) (st : Parse),
    ∃ c f, parseLoop input i n st =
      ((parseStores input i n st.cmdSize st.argSize st.switchFlag).foldlM
        (fun p w => Pcb.storeByte p w.offset w.byte) st.pcb).map fun p =>
          ⟨p, c, st.argSize + (parseStores input i n st.cmdSize st.argSize st.switchFlag).countP
            (·.field = .argName), f⟩
  | 0, _, st => ⟨st.cmdSize, st.switchFlag, rfl⟩
  | n + 1, i, ⟨p, c, a, f⟩ => by
    unfold parseLoop parseStores parseStep
    simp only
    by_cases hsp : input i = 32
    · obtain ⟨c', f', h⟩ := parseLoop_eq input n (i + 1) ⟨p, c, a, f || decide (input (i + 1) = 32)⟩
      refine ⟨c', f', ?_⟩
      rw [if_pos hsp, ← h]
      cases f <;> by_cases hn : input (i + 1) = 32 <;> simp [hsp, hn]
    rw [if_neg hsp]
    cases f with
    | false =>
      simp only [Bool.false_eq_true, if_false, Bool.false_or, List.foldlM_cons, WordStore.offset_cmdName]
      rcases hq : p.storeByte c (input i) with _ | q
      · exact ⟨0, false, by simp [hsp]⟩
      · obtain ⟨c', f', h⟩ := parseLoop_eq input n (i + 1) ⟨q, c + 1, a, decide (input (i + 1) = 32)⟩
        refine ⟨c', f', ?_⟩
        rw [List.countP_cons_of_neg (by simp)]
        simp only [bind, Option.bind_some, ← h]
        by_cases hn : input (i + 1) = 32 <;> simp [hsp, hn]
    | true =>
      simp only [if_true, Bool.true_or, List.foldlM_cons, WordStore.offset_argName]
      rcases hq : p.storeByte (40 + a) (input i) with _ | q
      · exact ⟨0, false, by simp [hsp]⟩
      · obtain ⟨c', f', h⟩ := parseLoop_eq input n (i + 1) ⟨q, c, a + 1, true⟩
        refine ⟨c', f', ?_⟩
        rw [List.countP_cons_of_pos (by simp), ← Nat.add_assoc, Nat.add_right_comm]
        simp only [bind, Option.bind_some, ← h]
        simp [hsp]

/-! ## Words -/

/-- A character of a word. -/
def inWord (b : UInt8) : Bool := b ≠ 32

/-- The text without one leading space. -/
def dropSpace (text : List UInt8) : List UInt8 := if text.head? = some 32 then text.tail else text

/-- The command of a text: its first word. -/
def commandOf (text : List UInt8) : List UInt8 := (dropSpace text).takeWhile inWord

/-- The argument of a text: what follows the first word, less its spaces. -/
def argumentOf (text : List UInt8) : List UInt8 := ((dropSpace text).dropWhile inWord).filter inWord

/-- Characters stored one after the other in one array. -/
def storesAt (field : WordField) : Nat → List UInt8 → List WordStore
  | _, [] => []
  | k, b :: bs => ⟨field, k, b⟩ :: storesAt field (k + 1) bs

/-- The characters the scanner reads from index `i` on. -/
def textAt (input : Buf) (i n : Nat) : List UInt8 := (List.range' i n).map input

theorem textAt_succ (input : Buf) (i n : Nat) : textAt input i (n + 1) = input i :: textAt input (i + 1) n := rfl

/-- After the first word all characters that are no spaces go to the argument. -/
theorem parseStores_argument (input : Buf) : ∀ (n i c a : Nat),
    parseStores input i n c a true = storesAt .argName a ((textAt input i n).filter inWord)
  | 0, _, _, _ => rfl
  | n + 1, i, c, a => by
    unfold parseStores
    rw [textAt_succ]
    simp only [Bool.true_or, if_true]
    by_cases hsp : input i = 32
    · rw [if_pos hsp, List.filter_cons_of_neg (by simp [inWord, hsp])]
      exact parseStores_argument input n (i + 1) c a
    · rw [if_neg hsp, List.filter_cons_of_pos (by simp [inWord, hsp]), storesAt]
      rw [parseStores_argument input n (i + 1) c (a + 1)]

/-- At a space the command is over. -/
theorem parseStores_space (input : Buf) {n i : Nat} (c : Nat) (h : n = 0 ∨ input i = 32) :
    parseStores input i n c 0 true = storesAt .cmdName c ((textAt input i n).takeWhile inWord) ++
      storesAt .argName 0 (((textAt input i n).dropWhile inWord).filter inWord) := by
  rw [parseStores_argument]
  cases n with
  | zero => rfl
  | succ n =>
    have hout : ¬ inWord (input i) = true := by simp [inWord, h.resolve_left (Nat.succ_ne_zero n)]
    rw [textAt_succ, List.takeWhile_cons_of_neg hout, List.dropWhile_cons_of_neg hout]
    rfl

/-- From the start of a word on. -/
theorem parseStores_word (input : Buf) : ∀ (n i c : Nat), (n = 0 ∨ input i ≠ 32) →
    parseStores input i n c 0 false = storesAt .cmdName c ((textAt input i n).takeWhile inWord) ++
      storesAt .argName 0 (((textAt input i n).dropWhile inWord).filter inWord)
  | 0, _, _, _ => rfl
  | n + 1, i, c, h => by
    have hsp : input i ≠ 32 := h.resolve_left (Nat.succ_ne_zero n)
    have hin : inWord (input i) = true := by simp [inWord, hsp]
    unfold parseStores
    rw [textAt_succ, if_neg hsp, List.takeWhile_cons_of_pos hin, List.dropWhile_cons_of_pos hin, storesAt]
    simp only [Bool.false_eq_true, if_false, Bool.false_or, List.cons_append]
    congr 1
    by_cases hnext : input (i + 1) = 32
    · rw [decide_eq_true hnext]
      exact parseStores_space input (c + 1) (Or.inr hnext)
    · rw [decide_eq_false hnext]
      exact parseStores_word input n (i + 1) (c + 1) (Or.inr hnext)

/-- The stores of the scanner: the command to `cmd_name` and the argument to `arg_name`, each from index 0. -/
theorem parseStores_eq (input : Buf) (i n : Nat) : parseStores input i n 0 0 false =
    storesAt .cmdName 0 (commandOf (textAt input i n)) ++ storesAt .argName 0 (argumentOf (textAt input i n)) := by
  unfold commandOf argumentOf dropSpace
  cases n with
  | zero => rfl
  | succ n =>
    by_cases hsp : input i = 32
    · have hhead : (textAt input i (n + 1)).head? = some 32 := by rw [textAt_succ, hsp]; rfl
      rw [if_pos hhead, textAt_succ, List.tail_cons]
      unfold parseStores
      rw [if_pos hsp]
      simp only [Bool.false_or]
      by_cases hnext : input (i + 1) = 32
      · rw [decide_eq_true hnext]
        exact parseStores_space input 0 (Or.inr hnext)
      · rw [decide_eq_false hnext]
        exact parseStores_word input n (i + 1) 0 (Or.inr hnext)
    · have hhead : (textAt input i (n + 1)).head? ≠ some 32 := by
        rw [textAt_succ]
        simpa using hsp
      rw [if_neg hhead]
      exact parseStores_word input (n + 1) i 0 (Or.inr hsp)

theorem storesAt_bound {field : WordField} : ∀ {bs : List UInt8} {k : Nat},
    (∀ w ∈ storesAt field k bs, w.index < 40) ↔ bs.length ≤ 40 - k
  | [], k => by simp [storesAt]
  | b :: bs, k => by
    rw [storesAt, List.forall_mem_cons, storesAt_bound, List.length_cons]
    show k < 40 ∧ _ ↔ _
    omega

theorem storesAt_countP (field : WordField) : ∀ (bs : List UInt8) (k : Nat),
    (storesAt field k bs).countP (·.field = .argName) = if field = .argName then bs.length else 0
  | [], _ => by simp [storesAt]
  | b :: bs, k => by
    rw [storesAt, List.countP_cons, storesAt_countP field bs (k + 1)]
    cases field <;> simp

/-! ## parse_cmd -/

/-- An array of the block with characters put from index `k` on. -/
def putWord (f : Fin 40 → UInt8) (k : Nat) (bs : List UInt8) : Fin 40 → UInt8 := fun j =>
  if k ≤ j.val then (bs[j.val - k]?).getD (f j) else f j

theorem putWord_nil (f : Fin 40 → UInt8) (k : Nat) : putWord f k [] = f := by
  funext j
  simp [putWord]

theorem putWord_cons (f : Fin 40 → UInt8) {k : Nat} (hk : k < 40) (b : UInt8) (bs : List UInt8) :
    putWord (Function.update f ⟨k, hk⟩ b) (k + 1) bs = putWord f k (b :: bs) := by
  funext j
  unfold putWord
  rcases lt_trichotomy j.val k with hj | rfl | hj
  · have hne : j ≠ ⟨k, hk⟩ := fun he => by simp [he] at hj
    rw [if_neg (by omega), if_neg (by omega), Function.update_of_ne hne]
  · rw [if_neg (by omega), if_pos (le_refl _), Nat.sub_self, Function.update_self]
    rfl
  · have hne : j ≠ ⟨k, hk⟩ := fun he => by simp [he] at hj
    rw [if_pos (by omega), if_pos (by omega), Function.update_of_ne hne,
      show j.val - k = j.val - (k + 1) + 1 by omega, List.getElem?_cons_succ]

/-- The stores made in a block. -/
def storeAll (ws : List WordStore) (p : Pcb) : Option Pcb :=
  ws.foldlM (fun p w => Pcb.storeByte p w.offset w.byte) p

theorem storeAll_cmdName : ∀ (bs : List UInt8) (k : Nat) (p : Pcb), k + bs.length ≤ 40 →
    storeAll (storesAt .cmdName k bs) p = some { p with cmdName := putWord p.cmdName k bs }
  | [], k, p, _ => by rw [putWord_nil]; rfl
  | b :: bs, k, p, h => by
    rw [List.length_cons] at h
    have hstore : p.storeByte k b = some { p with cmdName := Function.update p.cmdName ⟨k, by omega⟩ b } :=
      dif_pos (by omega)
    rw [storeAll, storesAt, List.foldlM_cons, WordStore.offset_cmdName, hstore]
    show storeAll (storesAt .cmdName (k + 1) bs) _ = _
    rw [storeAll_cmdName bs (k + 1) _ (by omega), putWord_cons]

theorem storeAll_argName : ∀ (bs : List UInt8) (k : Nat) (p : Pcb), k + bs.length ≤ 40 →
    storeAll (storesAt .argName k bs) p = some { p with argName := putWord p.argName k bs }
  | [], k, p, _ => by rw [putWord_nil]; rfl
  | b :: bs, k, p, h => by
    rw [List.length_cons] at h
    have hstore : p.storeByte (40 + k) b = some { p with argName := Function.update p.argName ⟨k, by omega⟩ b } := by
      rw [Pcb.storeByte, dif_neg (by omega), dif_pos (by omega)]
      simp only [Nat.add_sub_cancel_left]
    rw [storeAll, storesAt, List.foldlM_cons, WordStore.offset_argName, hstore]
    show storeAll (storesAt .argName (k + 1) bs) _ = _
    rw [storeAll_argName bs (k + 1) _ (by omega), putWord_cons]

/-- The part of a command line that the scanner reads. Its length is kept in one byte, and a leading space
makes it start at the number of all spaces. -/
def scanned (input : CString) : List UInt8 :=
  let text := input.bytes.take (input.strlen % 256)
  if input.bytes.head? = some 32 then text.drop (text.countP (· = 32)) else text

/-- A line of less than 256 characters is scanned from the index that its first character decides. -/
theorem scanned_short {line : CString} (hlen : line.strlen < 256) : scanned line =
    if line.bytes.head? = some 32 then line.bytes.drop (line.bytes.countP (· = 32)) else line.bytes := by
  unfold scanned
  simp only
  rw [Nat.mod_eq_of_lt hlen, CString.strlen, List.take_length]

/-- Without a leading space it is scanned as it is. -/
theorem scanned_line {line : CString} (hlead : line.bytes.head? ≠ some 32) (hlen : line.strlen < 256) :
    scanned line = line.bytes := by
  rw [scanned_short hlen, if_neg hlead]

/-- All stores of characters that `parse_cmd` makes for a command line. -/
def commandStores (input : CString) : List WordStore :=
  let inputLength := input.strlen % 256
  let start := if input.get 0 = 32 then (List.range inputLength).countP fun i => input.get i = 32 else 0
  parseStores input.get start (inputLength - start) 0 0 false

/-- The block before the scan: both arrays cleared. -/
def Pcb.clearWords (p : Pcb) : Pcb := { p with cmdName := fun _ => 0, argName := fun _ => 0 }

/-- `parse_cmd` clears the arrays, makes its stores and notes the size of the argument. -/
theorem parseCmd_stores (input : CString) (p : Pcb) : parseCmd input p =
    (storeAll (commandStores input) p.clearWords).map fun q =>
      { q with dataArgSize := UInt8.ofNat ((commandStores input).countP (·.field = .argName)) } := by
  unfold parseCmd commandStores
  simp only
  obtain ⟨c, f, h⟩ := parseLoop_eq input.get
    (input.strlen % 256 - if input.get 0 = 32 then
      (List.range (input.strlen % 256)).countP fun i => input.get i = 32 else 0)
    (if input.get 0 = 32 then (List.range (input.strlen % 256)).countP fun i => input.get i = 32 else 0)
    ⟨p.clearWords, 0, 0, false⟩
  rw [show ({ p with cmdName := fun _ => 0, argName := fun _ => 0 } : Pcb) = p.clearWords from rfl, h, Option.map_map]
  simp only [Nat.zero_add]
  rfl

theorem textAt_bytes (input : CString) {n : Nat} (i : Nat) (h : n ≤ input.strlen) :
    textAt input.get i (n - i) = (input.bytes.take n).drop i := by
  apply List.ext_getElem
  · have : (input.bytes.take n).length = n := by rw [List.length_take]; exact Nat.min_eq_left h
    simp [textAt, this]
  · intro j h1 h2
    have hj : i + j < input.bytes.length := by
      simp [textAt] at h1
      exact lt_of_lt_of_le (by omega) h
    simp [textAt, CString.get, List.getElem?_eq_getElem hj]

theorem get_zero_iff (input : CString) : input.get 0 = 32 ↔ input.bytes.head? = some 32 := by
  unfold CString.get
  rcases input.bytes with _ | ⟨b, bs⟩ <;> simp

/-- The stores of `parse_cmd`, in terms of the text it scans. -/
theorem commandStores_eq (input : CString) : commandStores input =
    storesAt .cmdName 0 (commandOf (scanned input)) ++ storesAt .argName 0 (argumentOf (scanned input)) := by
  have hlen : input.strlen % 256 ≤ input.strlen := Nat.mod_le _ _
  have hcount : ((List.range (input.strlen % 256)).countP fun i => input.get i = 32) =
      (input.bytes.take (input.strlen % 256)).countP (· = 32) := by
    have htext := textAt_bytes input 0 hlen
    rw [List.drop_zero] at htext
    rw [← htext, textAt, List.countP_map, List.range_eq_range']
    rfl
  unfold commandStores
  simp only
  rw [parseStores_eq, textAt_bytes input _ hlen]
  unfold scanned
  simp only
  by_cases h0 : input.get 0 = 32
  · rw [if_pos h0, if_pos ((get_zero_iff input).1 h0), hcount]
  · rw [if_neg h0, if_neg fun h => h0 ((get_zero_iff input).2 h), List.drop_zero]

/-! ## Lines that fit -/

/-- The first word of the scanned text fits in `cmd_name`, and what follows it, less the spaces, in
`arg_name`. -/
def Fits (input : CString) : Prop :=
  (commandOf (scanned input)).length ≤ 40 ∧ (argumentOf (scanned input)).length ≤ 40

instance (input : CString) : Decidable (Fits input) := inferInstanceAs (Decidable (_ ∧ _))

/-- `parse_cmd` of a line that fits. -/
theorem parseCmd_fits {input : CString} (h : Fits input) (p : Pcb) : parseCmd input p = some { p with
    cmdName := putWord (fun _ => 0) 0 (commandOf (scanned input))
    argName := putWord (fun _ => 0) 0 (argumentOf (scanned input))
    dataArgSize := UInt8.ofNat (argumentOf (scanned input)).length } := by
  have hcmd := storeAll_cmdName (commandOf (scanned input)) 0 p.clearWords (by rw [Nat.zero_add]; exact h.1)
  have harg := storeAll_argName (argumentOf (scanned input)) 0
    { p.clearWords with cmdName := putWord p.clearWords.cmdName 0 (commandOf (scanned input)) }
    (by rw [Nat.zero_add]; exact h.2)
  rw [parseCmd_stores, commandStores_eq, List.countP_append, storesAt_countP, storesAt_countP, storeAll,
    List.foldlM_append]
  rw [storeAll] at hcmd harg
  simp only [hcmd, bind, Option.bind_some, harg]
  simp [Pcb.clearWords]

/-- The characters go to the first 40 places of their arrays, and nothing else in the block changes but
the size of the argument. -/
structure InBounds (input : CString) : Prop where
  stores : ∀ w ∈ commandStores input, w.index < 40
  block : ∀ p : Pcb, ∃ cmdName argName dataArgSize, parseCmd input p = some { p with
    cmdName := cmdName, argName := argName, dataArgSize := dataArgSize }

/-- `parse_cmd` stays inside its arrays exactly for the lines that fit. -/
theorem parseCmd_inBounds_iff (input : CString) : InBounds input ↔ Fits input := by
  have hbound : (∀ w ∈ commandStores input, w.index < 40) ↔ Fits input := by
    rw [commandStores_eq, List.forall_mem_append, storesAt_bound, storesAt_bound]
    rfl
  constructor
  · rintro ⟨h, -⟩
    exact hbound.1 h
  · intro h
    exact ⟨hbound.2 h, fun p => ⟨_, _, _, parseCmd_fits h p⟩⟩

/-- A word of 41 characters. -/
def longWord : CString := ⟨List.replicate 41 97, by decide⟩

/-- The last character of a command of 41 characters is stored at index 40 of `cmd_name`, which is the first
byte of `arg_name`. -/
theorem parseCmd_overruns :
    ⟨.cmdName, 40, 97⟩ ∈ commandStores longWord ∧ ¬ InBounds longWord ∧
      (parseCmd longWord .zero).map (·.argName 0) = some 97 := by
  have hmem : ⟨.cmdName, 40, 97⟩ ∈ commandStores longWord := by decide +kernel
  refine ⟨hmem, ?_, by decide +kernel⟩
  intro h
  exact absurd (h.stores _ hmem) (lt_irrefl 40)

end Os391
