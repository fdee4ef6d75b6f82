/-
The arguments a program gets. The kernel joins the argument words without the spaces between them and
cuts what does not fit; the emulation keeps one space between words and refuses a buffer that is too small.
-/
import Mathlib.Data.List.GetD
import Mathlib.Data.List.TakeWhile
import Os391.Lib.Emulate
import Os391.Process.Getargs

namespace Os391

open Bytes

namespace Emulate

/-! ## The emulation -/

/-- Words with one space between them. -/
def joined (ws : List (List UInt8)) : List UInt8 := List.intercalate [32] ws

theorem joined_length : ∀ ws : List (List UInt8), (joined ws).length = ws.flatten.length + (ws.length - 1)
  | [] => rfl
  | [w] => by simp [joined]
  | w :: v :: ws => by
    have ih := joined_length (v :: ws)
    unfold joined at ih ⊢
    rw [List.intercalate_cons_cons, List.length_append, ih]
    simp
    omega

theorem strcpy_before {buf : Buf} {pos j : Nat} (w : List UInt8) (h : j < pos) : strcpy buf pos w j = buf j :=
  copy_outside (by omega)

theorem strcpy_inside {buf : Buf} {pos i : Nat} {w : List UInt8} (h : i ≤ w.length) :
    strcpy buf pos w (pos + i) = w.getD i 0 := by
  rw [strcpy, copy, if_pos (by omega), Nat.add_sub_cancel_left]

/-- What `ece391_getargs` leaves when the words and the terminator fit. -/
theorem getargsLoop_fits : ∀ {ws : List (List UInt8)} (buf : Buf) (pos : Nat) {nbytes : Int},
    ((joined ws).length : Int) < nbytes →
    ∃ buf', getargsLoop ws buf pos nbytes = (0, buf') ∧ (∀ j, j < pos → buf' j = buf j) ∧
      ∀ i, i ≤ (joined ws).length → buf' (pos + i) = (joined ws).getD i 0
  | [], buf, pos, nbytes, h => by
    have h0 : 0 < nbytes := h
    refine ⟨Function.update buf pos 0, ?_, ?_, ?_⟩
    · rw [getargsLoop, getargsEnd, if_neg (by omega)]
    · intro j hj
      exact Function.update_of_ne (by omega) _ _
    · intro i hi
      obtain rfl : i = 0 := Nat.le_zero.1 hi
      exact Function.update_self ..
  | [w], buf, pos, nbytes, h => by
    have hw : joined [w] = w := List.intercalate_singleton
    rw [hw] at h ⊢
    refine ⟨Function.update (strcpy buf pos w) (pos + w.length) 0, ?_, ?_, ?_⟩
    · rw [getargsLoop, if_neg (by omega), List.isEmpty_nil]
      simp only [if_true]
      rw [getargsEnd, if_neg (by omega)]
    · intro j hj
      rw [Function.update_of_ne (by omega), strcpy_before w hj]
    · intro i hi
      rcases Nat.eq_or_lt_of_le hi with rfl | hlt
      · rw [Function.update_self, List.getD_eq_default _ _ (le_refl _)]
      · rw [Function.update_of_ne (by omega), strcpy_inside hi]
  | w :: v :: ws, buf, pos, nbytes, h => by
    have hw : joined (w :: v :: ws) = w ++ 32 :: joined (v :: ws) := by simp [joined]
    rw [hw, List.length_append, List.length_cons] at h
    push_cast at h
    have hrest : ((joined (v :: ws)).length : Int) < nbytes - w.length - 1 := by omega
    obtain ⟨buf', h1, h2, h3⟩ := getargsLoop_fits (Function.update (strcpy buf pos w) (pos + w.length) 32)
      (pos + w.length + 1) hrest
    refine ⟨buf', ?_, ?_, ?_⟩
    · rw [getargsLoop, if_neg (by omega)]
      simp only [List.isEmpty_cons, Bool.false_eq_true, if_false]
      rw [if_neg (by omega), h1]
    · intro j hj
      rw [h2 j (by omega), Function.update_of_ne (by omega), strcpy_before w hj]
    · intro i hi
      rw [hw, List.length_append, List.length_cons] at hi
      rw [hw]
      rcases lt_trichotomy i w.length with hlt | rfl | hgt
      · rw [h2 _ (by omega), Function.update_of_ne (by omega), strcpy_inside (by omega), List.getD_append _ _ _ _ hlt]
      · rw [h2 _ (by omega), Function.update_self, List.getD_append_right _ _ _ _ (le_refl _), Nat.sub_self]
        rfl
      · obtain ⟨k, rfl⟩ : ∃ k, i = w.length + 1 + k := ⟨i - (w.length + 1), by omega⟩
        rw [List.getD_append_right _ _ _ _ (by omega), show w.length + 1 + k - w.length = k + 1 by omega,
          show pos + (w.length + 1 + k) = pos + w.length + 1 + k by omega, h3 k (by omega)]
        rfl

/-- Otherwise it returns -1. -/
theorem getargsLoop_short : ∀ {ws : List (List UInt8)} (buf : Buf) (pos : Nat) {nbytes : Int},
    nbytes ≤ ((joined ws).length : Int) → (getargsLoop ws buf pos nbytes).1 = -1
  | [], buf, pos, nbytes, h => by
    unfold getargsLoop getargsEnd
    have h0 : nbytes ≤ 0 := h
    rw [if_pos (by omega)]
  | [w], buf, pos, nbytes, h => by
    have h' : nbytes ≤ (w.length : Int) := by simpa [joined] using h
    unfold getargsLoop
    split
    · rfl
    · simp only [List.isEmpty_nil, if_true, getargsEnd]
      rw [if_pos (by omega)]
  | w :: v :: ws, buf, pos, nbytes, h => by
    have hlen : ((joined (w :: v :: ws)).length : Int) = w.length + 1 + (joined (v :: ws)).length := by
      simp [joined]
      ring
    rw [hlen] at h
    unfold getargsLoop
    split
    · rfl
    · simp only [List.isEmpty_cons, Bool.false_eq_true, if_false]
      split
      · rfl
      · exact getargsLoop_short _ _ (by omega)

theorem mem_joined : ∀ {ws : List (List UInt8)} {b : UInt8}, b ∈ joined ws → b = 32 ∨ b ∈ ws.flatten
  | [], _, h => by cases h
  | [w], b, h => by
    right
    simpa [joined] using h
  | w :: v :: ws, b, h => by
    have hw : joined (w :: v :: ws) = w ++ 32 :: joined (v :: ws) := by simp [joined]
    rw [hw] at h
    rcases List.mem_append.1 h with h | h
    · exact Or.inr (List.mem_append.2 (Or.inl h))
    · rcases List.mem_cons.1 h with h | h
      · exact Or.inl h
      · exact (mem_joined h).imp id fun h => List.mem_append.2 (Or.inr h)

/-- Only one word at most stays as it is. -/
theorem joined_eq_flatten_iff {ws : List (List UInt8)} : joined ws = ws.flatten ↔ ws.length ≤ 1 := by
  constructor
  · intro h
    have hlen := joined_length ws
    rw [h] at hlen
    omega
  · intro h
    match ws, h with
    | [], _ => rfl
    | [w], _ => simp [joined]

/-- Between two words there is a space. -/
theorem space_mem_joined (w v : List UInt8) (ws : List (List UInt8)) : 32 ∈ joined (w :: v :: ws) := by
  simp [joined]

/-- The string `ece391_getargs` leaves when the words and the terminator fit. -/
theorem ece391Getargs_string {argv : List (List UInt8)} (ebuf : Buf) {nbytes : Int} (h0 : 0 ∉ argv.tail.flatten)
    (h : ((joined argv.tail).length : Int) < nbytes) :
    ∃ buf', ece391Getargs argv ebuf nbytes = (0, buf') ∧ IsString buf' (joined argv.tail) := by
  obtain ⟨buf', h1, -, h3⟩ := getargsLoop_fits ebuf 0 h
  refine ⟨buf', h1, ?_, ?_⟩
  · intro hm
    rcases mem_joined hm with h | h
    · exact absurd h (by decide)
    · exact h0 h
  · intro i hi
    have := h3 i hi
    rwa [Nat.zero_add] at this

/-! ## The words of a line -/

/-- On a text without newlines the emulation ends words where the kernel does. -/
theorem takeWhile_splits : ∀ {text : List UInt8}, 10 ∉ text →
    text.takeWhile (!splits ·) = text.takeWhile inWord ∧ text.dropWhile (!splits ·) = text.dropWhile inWord
  | [], _ => ⟨rfl, rfl⟩
  | b :: text, h => by
    have hb : b ≠ 10 := fun hb => h (hb ▸ List.mem_cons_self ..)
    have ht : 10 ∉ text := fun ht => h (List.mem_cons_of_mem _ ht)
    have hsame : (!splits b) = inWord b := by simp [splits, inWord, hb]
    obtain ⟨h1, h2⟩ := takeWhile_splits ht
    rw [List.takeWhile_cons, List.dropWhile_cons, List.takeWhile_cons, List.dropWhile_cons, hsame, h1, h2]
    exact ⟨rfl, rfl⟩

theorem filter_dropWhile_space : ∀ text : List UInt8, (text.dropWhile (· = 32)).filter inWord = text.filter inWord
  | [] => rfl
  | b :: text => by
    by_cases hb : b = 32
    · rw [List.dropWhile_cons_of_pos (by simpa using hb), filter_dropWhile_space text,
        List.filter_cons_of_neg (by simp [inWord, hb])]
    · rw [List.dropWhile_cons_of_neg (by simpa using hb)]

theorem filter_eq_word_append : ∀ text : List UInt8,
    text.filter inWord = text.takeWhile inWord ++ (text.dropWhile inWord).tail.filter inWord
  | [] => rfl
  | b :: text => by
    by_cases hb : inWord b = true
    · rw [List.filter_cons_of_pos hb, List.takeWhile_cons_of_pos hb, List.dropWhile_cons_of_pos hb,
        filter_eq_word_append text]
      rfl
    · rw [List.filter_cons_of_neg hb, List.takeWhile_cons_of_neg hb, List.dropWhile_cons_of_neg hb]
      rfl

/-- One turn of the splitting loop on a text without newlines. -/
theorem splitArgs_succ {fuel : Nat} {scan : List UInt8} (h : 10 ∉ scan) :
    splitArgs (fuel + 1) scan = if (scan.dropWhile (· = 32)).isEmpty then [] else
      (scan.dropWhile (· = 32)).takeWhile inWord ::
        splitArgs fuel ((scan.dropWhile (· = 32)).dropWhile inWord).tail := by
  have hs : 10 ∉ scan.dropWhile (· = 32) := fun hm => h ((List.dropWhile_sublist _).mem hm)
  obtain ⟨h1, h2⟩ := takeWhile_splits hs
  rw [splitArgs]
  simp only [h1, h2]
  generalize scan.dropWhile (· = 32) = text at hs
  rcases text with _ | ⟨b, rest⟩
  · rfl
  · have hb : b ≠ 10 := fun hb => hs (hb ▸ List.mem_cons_self ..)
    simp only [if_neg hb]
    rfl

/-- What follows a word is shorter than the text, with one character to spare. -/
theorem rest_length {fuel : Nat} {scan : List UInt8} {b : UInt8} {text : List UInt8} (h : (b :: text).Sublist scan)
    (hf : scan.length < fuel + 1) : ((b :: text).dropWhile inWord).tail.length < fuel := by
  have h1 := (List.dropWhile_sublist inWord (l := b :: text)).length_le
  have h2 := h.length_le
  rw [List.length_cons] at h1 h2
  rw [List.length_tail]
  omega

/-- The words are what is left of the text without its spaces. -/
theorem splitArgs_flatten : ∀ {fuel : Nat} {scan : List UInt8}, 10 ∉ scan → scan.length < fuel →
    (splitArgs fuel scan).flatten = scan.filter inWord
  | 0, _, _, hf => by omega
  | fuel + 1, scan, h, hf => by
    have hsub := List.dropWhile_sublist (l := scan) (fun b => decide (b = 32))
    rw [splitArgs_succ h, ← filter_dropWhile_space scan]
    generalize scan.dropWhile (fun b => decide (b = 32)) = text at hsub ⊢
    rcases text with _ | ⟨b, text⟩
    · rfl
    · have hrest : ((b :: text).dropWhile inWord).tail.Sublist (b :: text) :=
        (List.tail_sublist _).trans (List.dropWhile_sublist _)
      have hlen := rest_length hsub hf
      rw [List.isEmpty_cons, if_neg (by decide), List.flatten_cons,
        splitArgs_flatten (fun hm => h (hsub.mem (hrest.mem hm))) hlen]
      exact (filter_eq_word_append _).symm

/-- A text of spaces has no words. -/
theorem splitArgs_eq_nil_iff {fuel : Nat} {scan : List UInt8} (h : 10 ∉ scan) (hf : scan.length < fuel) :
    splitArgs fuel scan = [] ↔ ∀ b ∈ scan, b = 32 := by
  obtain ⟨fuel, rfl⟩ : ∃ n, fuel = n + 1 := ⟨fuel - 1, by omega⟩
  rw [splitArgs_succ h]
  constructor
  · intro h0
    by_cases he : (scan.dropWhile (· = 32)).isEmpty = true
    · intro b hb
      simpa using List.dropWhile_eq_nil_iff.1 (List.isEmpty_iff.1 he) b hb
    · rw [if_neg he] at h0
      cases h0
  · intro hall
    rw [if_pos]
    exact List.isEmpty_iff.2 (List.dropWhile_eq_nil_iff.2 fun b hb => by simpa using hall b hb)

/-- There is at most one word when nothing but spaces follows the first one. -/
theorem splitArgs_length_le_one {fuel : Nat} {scan : List UInt8} (h : 10 ∉ scan) (hf : scan.length < fuel) :
    (splitArgs fuel scan).length ≤ 1 ↔ ∀ b ∈ (scan.dropWhile (· = 32)).dropWhile inWord, b = 32 := by
  obtain ⟨fuel, rfl⟩ : ∃ n, fuel = n + 1 := ⟨fuel - 1, by omega⟩
  have hsub := List.dropWhile_sublist (l := scan) (fun b => decide (b = 32))
  rw [splitArgs_succ h]
  generalize scan.dropWhile (fun b => decide (b = 32)) = text at hsub ⊢
  rcases text with _ | ⟨b, text⟩
  · simp
  · have hrest : ((b :: text).dropWhile inWord).tail.Sublist (b :: text) :=
      (List.tail_sublist _).trans (List.dropWhile_sublist _)
    have hnil := splitArgs_eq_nil_iff (fun hm => h (hsub.mem (hrest.mem hm))) (rest_length hsub hf)
    have hhead := List.head?_dropWhile_not inWord (b :: text)
    rw [List.isEmpty_cons, if_neg (by decide), List.length_cons, Nat.succ_le_succ_iff, Nat.le_zero,
      List.length_eq_zero_iff, hnil]
    generalize (b :: text).dropWhile inWord = rest at hhead ⊢
    rcases rest with _ | ⟨c, rest⟩
    · simp
    · have hc : c = 32 := by simpa [inWord] using hhead
      simp [hc]

/-- A newline where a word would start ends the arguments. -/
theorem splitArgs_newline (fuel : Nat) (scan : List UInt8) : splitArgs fuel (10 :: scan) = [] := by
  cases fuel <;> rfl

theorem splitArgs_ne_nil {fuel : Nat} {b : UInt8} {scan : List UInt8} (h32 : b ≠ 32) (h10 : b ≠ 10) :
    splitArgs (fuel + 1) (b :: scan) ≠ [] := by
  have hd : (b :: scan).dropWhile (fun b => decide (b = 32)) = b :: scan :=
    List.dropWhile_cons_of_neg (by simpa using h32)
  rw [splitArgs, hd]
  simp only [if_neg h10]
  exact List.cons_ne_nil _ _

theorem splits_eq_false {w : List UInt8} (h32 : 32 ∉ w) (h10 : 10 ∉ w) : ∀ b ∈ w, splits b = false := by
  intro b hb
  have h1 : b ≠ 32 := fun h => h32 (h ▸ hb)
  have h2 : b ≠ 10 := fun h => h10 (h ▸ hb)
  simp [splits, h1, h2]

/-- A word is taken off where a space, a newline or the end follows it. -/
theorem splitArgs_append {fuel : Nat} {w text : List UInt8} (hne : w ≠ []) (hw : ∀ b ∈ w, splits b = false)
    (ht : ∀ b ∈ text.head?, splits b = true) : splitArgs (fuel + 1) (w ++ text) = w :: splitArgs fuel text.tail := by
  have hpos : ∀ b ∈ w, (!splits b) = true := fun b hb => by rw [hw b hb]; rfl
  have hstop : text.takeWhile (!splits ·) = [] ∧ text.dropWhile (!splits ·) = text := by
    rcases text with _ | ⟨b, text⟩
    · exact ⟨rfl, rfl⟩
    · have hb : ¬ (!splits b) = true := by rw [ht b rfl]; decide
      exact ⟨List.takeWhile_cons_of_neg hb, List.dropWhile_cons_of_neg hb⟩
  obtain ⟨b, w', rfl⟩ := List.exists_cons_of_ne_nil hne
  have hb := hw b (List.mem_cons_self ..)
  simp only [splits, Bool.or_eq_false_iff, decide_eq_false_iff_not] at hb
  have hd : (b :: w' ++ text).dropWhile (fun b => decide (b = 32)) = b :: w' ++ text :=
    List.dropWhile_cons_of_neg (by simpa using hb.1)
  rw [splitArgs, hd]
  simp only [List.cons_append, if_neg hb.2]
  rw [← List.cons_append, List.takeWhile_append_of_pos hpos, List.dropWhile_append_of_pos hpos, hstop.1, hstop.2,
    List.append_nil]

/-- The words are made of the characters between the spaces and newlines. -/
theorem mem_splitArgs : ∀ {fuel : Nat} {scan w : List UInt8}, w ∈ splitArgs fuel scan →
    ∀ b ∈ w, b ∈ scan ∧ b ≠ 32 ∧ b ≠ 10
  | 0, _, _, h => by cases h
  | fuel + 1, scan, w, h => by
    have hsub := List.dropWhile_sublist (l := scan) (fun b => decide (b = 32))
    rw [splitArgs] at h
    generalize scan.dropWhile (fun b => decide (b = 32)) = text at hsub h
    rcases text with _ | ⟨c, text⟩
    · cases h
    · simp only at h
      split at h
      · cases h
      · intro b hb
        rcases List.mem_cons.1 h with rfl | h
        · have hs := List.mem_takeWhile_imp hb
          refine ⟨hsub.mem ((List.takeWhile_sublist _).mem hb), ?_⟩
          simpa [splits] using hs
        · obtain ⟨h1, h2⟩ := mem_splitArgs h b hb
          exact ⟨hsub.mem ((List.dropWhile_sublist _).mem (List.mem_of_mem_tail h1)), h2⟩

/-- A word more than the text has does not give the text back. -/
theorem joined_cons_ne {fuel : Nat} {scan w : List UInt8} (h : 10 ∉ scan) (hf : scan.length < fuel) (hw : w ≠ []) :
    joined (w :: splitArgs fuel scan) ≠ scan.filter inWord := by
  intro heq
  have hlen := joined_length (w :: splitArgs fuel scan)
  rw [heq, List.flatten_cons, splitArgs_flatten h hf, List.length_append] at hlen
  have hpos := List.length_pos_iff.2 hw
  omega

end Emulate

/-! ## The argument of a line -/

/-- Nothing but spaces follows the second word of a text: it has at most one argument. -/
def OneArgument (text : List UInt8) : Prop :=
  ∀ b ∈ ((text.dropWhile inWord).dropWhile (· = 32)).dropWhile inWord, b = 32

instance (text : List UInt8) : Decidable (OneArgument text) := inferInstanceAs (Decidable (∀ b ∈ _, _))

/-- What a command word has behind its first newline. -/
def behindNewline (cmd : List UInt8) : List UInt8 := (cmd.dropWhile (· ≠ 10)).tail

theorem behindNewline_eq_nil {cmd : List UInt8} (h : 10 ∉ cmd) : behindNewline cmd = [] := by
  have hall : ∀ b ∈ cmd, decide (b ≠ 10) = true := fun b hb => decide_eq_true fun h10 => h (h10 ▸ hb)
  rw [behindNewline, List.dropWhile_eq_nil_iff.2 hall, List.tail_nil]

/-- The two splittings of a text give the same argument. No newline follows the command word. If the command
word has none before its last character, there is at most one argument. Otherwise the emulation takes what the
command word has up to its next newline for an argument, and stops there if no word starts behind it. -/
def SplitAlike (text : List UInt8) : Prop :=
  10 ∉ argumentOf text ∧
    if behindNewline (commandOf text) = [] then OneArgument text
    else argumentOf text = (behindNewline (commandOf text)).takeWhile (· ≠ 10) ∧
      ((behindNewline (commandOf text)).head? = some 10 ∨
        [10, 10] <+: (behindNewline (commandOf text)).dropWhile (· ≠ 10))

instance (text : List UInt8) : Decidable (SplitAlike text) := inferInstanceAs (Decidable (_ ∧ ite ..))

/-- Without newlines only the number of arguments matters. -/
theorem splitAlike_iff {text : List UInt8} (h : 10 ∉ text) : SplitAlike text ↔ OneArgument text := by
  have hsub : (dropSpace text).Sublist text := by
    unfold dropSpace
    split
    · exact List.tail_sublist _
    · exact List.Sublist.refl _
  have harg : 10 ∉ argumentOf text := fun hm =>
    h ((List.filter_sublist.trans ((List.dropWhile_sublist _).trans hsub)).mem hm)
  have hcmd : behindNewline (commandOf text) = [] :=
    behindNewline_eq_nil fun hm => h (((List.takeWhile_sublist _).trans hsub).mem hm)
  rw [SplitAlike, if_pos hcmd, and_iff_right harg]

namespace Emulate

/-- On a text without newlines the two give the same exactly when there is one argument at most. -/
theorem joined_splitArgs_iff {fuel : Nat} {scan : List UInt8} (h : 10 ∉ scan) (hf : scan.length < fuel) :
    joined (splitArgs fuel scan) = scan.filter inWord ↔ ∀ b ∈ (scan.dropWhile (· = 32)).dropWhile inWord, b = 32 := by
  rw [← splitArgs_flatten h hf, joined_eq_flatten_iff, splitArgs_length_le_one h hf]

/-- A word `w` behind a newline in the command word, the rest `d` of the command word from the next newline on,
and what follows it: the emulation gives what the kernel gives only if it stops at `d`. -/
theorem joined_word_iff {fuel : Nat} {w d rest : List UInt8} (hf : (w ++ (d ++ rest)).length < fuel + 1) (hne : w ≠ [])
    (hw : ∀ b ∈ w, splits b = false) (hd : 32 ∉ d) (hdhead : ∀ b ∈ d.head?, b = 10) (hrest : 10 ∉ rest)
    (hhead : ∀ b ∈ rest.head?, b = 32) :
    joined (splitArgs (fuel + 1) (w ++ (d ++ rest))) = rest.filter inWord ↔ rest.filter inWord = w ∧ [10, 10] <+: d := by
  have hpos := List.length_pos_iff.2 hne
  rw [List.length_append, List.length_append] at hf
  have hstop : ∀ b ∈ (d ++ rest).head?, splits b = true := by
    intro b hb
    rcases d with _ | ⟨e, d⟩
    · rw [hhead b hb]; rfl
    · rw [hdhead b hb]; rfl
  rw [splitArgs_append hne hw hstop]
  rcases d with _ | ⟨e, _ | ⟨e', d⟩⟩
  · -- the arguments go on behind the space
    have htail : rest.filter inWord = rest.tail.filter inWord := by
      rcases rest with _ | ⟨b, rest⟩
      · rfl
      · rw [hhead b rfl]; rfl
    rw [List.nil_append, htail]
    have hlt : rest.tail.length < fuel := by
      rw [List.length_tail]
      omega
    exact iff_of_false (joined_cons_ne (fun h => hrest (List.mem_of_mem_tail h)) hlt hne) (by simp)
  · rw [List.length_singleton] at hf
    rw [List.singleton_append, List.tail_cons]
    exact iff_of_false (joined_cons_ne hrest (by omega) hne) (by simp)
  · obtain rfl : e = 10 := hdhead e rfl
    rw [List.cons_append, List.tail_cons]
    by_cases he : e' = 10
    · subst he
      rw [List.cons_append, splitArgs_newline]
      have hw1 : joined [w] = w := List.intercalate_singleton
      rw [hw1]
      exact ⟨fun h => ⟨h.symm, by simp⟩, fun h => h.1.symm⟩
    · -- another word follows, and a space before it
      refine iff_of_false ?_ (by simp [Ne.symm he])
      obtain ⟨fuel, rfl⟩ : ∃ n, fuel = n + 1 := ⟨fuel - 1, by simp only [List.length_cons] at hf; omega⟩
      have he32 : e' ≠ 32 := fun h => hd (h ▸ List.mem_cons_of_mem _ (List.mem_cons_self ..))
      obtain ⟨v, ws, hws⟩ := List.exists_cons_of_ne_nil (@splitArgs_ne_nil fuel e' (d ++ rest) he32 he)
      rw [List.cons_append, hws]
      intro h
      have hmem := space_mem_joined w v ws
      rw [h, List.mem_filter] at hmem
      exact absurd hmem.2 (by decide)

/-- The emulation's arguments behind a newline in the command word: `q` is the rest of the command word, and
`rest` what follows it. -/
theorem joined_behind_iff {fuel : Nat} {q rest : List UInt8} (hf : (q ++ rest).length < fuel) (hq : 32 ∉ q) (hne : q ≠ [])
    (hrest : 10 ∉ rest) (hhead : ∀ b ∈ rest.head?, b = 32) :
    joined (splitArgs fuel (q ++ rest)) = rest.filter inWord ↔
      rest.filter inWord = q.takeWhile (· ≠ 10) ∧ (q.head? = some 10 ∨ [10, 10] <+: q.dropWhile (· ≠ 10)) := by
  obtain ⟨fuel, rfl⟩ : ∃ n, fuel = n + 1 := ⟨fuel - 1, by omega⟩
  obtain ⟨c, q, rfl⟩ := List.exists_cons_of_ne_nil hne
  by_cases hc : c = 10
  · subst hc
    rw [List.cons_append, splitArgs_newline, List.takeWhile_cons_of_neg (by decide), List.head?_cons]
    exact ⟨fun h => ⟨h.symm, Or.inl rfl⟩, fun h => h.1.symm⟩
  · have hc32 : c ≠ 32 := fun h => hq (h ▸ List.mem_cons_self ..)
    have hw := splits_eq_false (fun h => hq ((List.takeWhile_sublist _).mem h))
      (fun h : 10 ∈ (c :: q).takeWhile (· ≠ 10) => absurd (List.mem_takeWhile_imp h) (by decide))
    have hwne : (c :: q).takeWhile (· ≠ 10) ≠ [] := by
      rw [List.takeWhile_cons_of_pos (by simpa using hc)]
      exact List.cons_ne_nil _ _
    have hd32 : 32 ∉ (c :: q).dropWhile (· ≠ 10) := fun h => hq ((List.dropWhile_sublist _).mem h)
    have hdhead := List.head?_dropWhile_not (fun b : UInt8 => decide (b ≠ 10)) (c :: q)
    have hq' := List.takeWhile_append_dropWhile (p := fun b : UInt8 => decide (b ≠ 10)) (l := c :: q)
    rw [List.head?_cons, Option.some.injEq, or_iff_right hc]
    generalize (c :: q).takeWhile (· ≠ 10) = w at hw hwne hq' ⊢
    generalize (c :: q).dropWhile (· ≠ 10) = d at hd32 hdhead hq' ⊢
    rw [← hq', List.append_assoc] at hf ⊢
    refine joined_word_iff hf hwne hw hd32 ?_ hrest hhead
    intro b hb
    rw [Option.mem_def.1 hb] at hdhead
    simpa using hdhead

/-- The argument words the emulation makes of a line. -/
def argWords (text : List UInt8) : List (List UInt8) :=
  match text.dropWhile (!splits ·) with
  | [] => []
  | _ :: scan => splitArgs (scan.length + 1) scan

theorem mem_argWords {text w : List UInt8} (h : w ∈ argWords text) : ∀ b ∈ w, b ∈ text ∧ b ≠ 32 ∧ b ≠ 10 := by
  have hsub := List.dropWhile_sublist (l := text) (!splits ·)
  unfold argWords at h
  generalize text.dropWhile (!splits ·) = scan at hsub h
  rcases scan with _ | ⟨c, scan⟩
  · cases h
  · intro b hb
    obtain ⟨h1, h2⟩ := mem_splitArgs h b hb
    exact ⟨hsub.mem (List.mem_cons_of_mem _ h1), h2⟩

/-- What is not split at is passed over. -/
theorem argWords_append {w text : List UInt8} (hw : ∀ b ∈ w, splits b = false) {b : UInt8} (hb : splits b = true) :
    argWords (w ++ b :: text) = splitArgs (text.length + 1) text := by
  have hpos : ∀ b ∈ w, (!splits b) = true := fun b hb => by rw [hw b hb]; rfl
  unfold argWords
  rw [List.dropWhile_append_of_pos hpos, List.dropWhile_cons_of_neg (by rw [hb]; decide)]

/-- The emulation's argument words together, for a command word and what follows it. -/
theorem joined_argWords_iff {cmd rest : List UInt8} (hcmd : 32 ∉ cmd) (hrest : 10 ∉ rest)
    (hhead : ∀ b ∈ rest.head?, b = 32) :
    joined (argWords (cmd ++ rest)) = rest.filter inWord ↔
      if behindNewline cmd = [] then ∀ b ∈ (rest.dropWhile (· = 32)).dropWhile inWord, b = 32
      else rest.filter inWord = (behindNewline cmd).takeWhile (· ≠ 10) ∧
        ((behindNewline cmd).head? = some 10 ∨ [10, 10] <+: (behindNewline cmd).dropWhile (· ≠ 10)) := by
  by_cases h10 : 10 ∈ cmd
  · obtain ⟨w, q, rfl, hw10⟩ := List.eq_append_cons_of_mem h10
    have hw := splits_eq_false (fun h => hcmd (List.mem_append_left _ h)) hw10
    have hq : 32 ∉ q := fun h => hcmd (List.mem_append_right _ (List.mem_cons_of_mem _ h))
    have hbehind : behindNewline (w ++ 10 :: q) = q := by
      have hpos : ∀ b ∈ w, decide (b ≠ 10) = true := fun b hb => decide_eq_true fun h => hw10 (h ▸ hb)
      unfold behindNewline
      rw [List.dropWhile_append_of_pos hpos, List.dropWhile_cons_of_neg (by decide), List.tail_cons]
    rw [hbehind, List.append_assoc, List.cons_append, argWords_append hw rfl]
    split
    case isTrue hnil =>
      subst hnil
      exact joined_splitArgs_iff hrest (Nat.lt_succ_self _)
    case isFalse hne => exact joined_behind_iff (Nat.lt_succ_self _) hq hne hrest hhead
  · have hw := splits_eq_false hcmd h10
    rw [if_pos (behindNewline_eq_nil h10)]
    rcases rest with _ | ⟨b, scan⟩
    · have hnil : argWords (cmd ++ []) = [] := by
        unfold argWords
        rw [List.append_nil, List.dropWhile_eq_nil_iff.2 fun b hb => by rw [hw b hb]; rfl]
      rw [hnil]
      simp [joined]
    · obtain rfl : b = 32 := hhead b rfl
      rw [argWords_append hw rfl, List.filter_cons_of_neg (by decide), List.dropWhile_cons_of_pos (by decide)]
      exact joined_splitArgs_iff (fun h => hrest (List.mem_cons_of_mem _ h)) (Nat.lt_succ_self _)

/-- The arguments the emulation makes of a line without a leading space are the kernel's exactly for the lines
that are split alike. -/
theorem joined_argWords_line {text : List UInt8} (hlead : text.head? ≠ some 32) :
    joined (argWords text) = argumentOf text ↔ SplitAlike text := by
  have hcmd : commandOf text = text.takeWhile inWord := by rw [commandOf, dropSpace, if_neg hlead]
  have harg : argumentOf text = (text.dropWhile inWord).filter inWord := by rw [argumentOf, dropSpace, if_neg hlead]
  by_cases h10 : 10 ∈ argumentOf text
  · refine iff_of_false ?_ fun h => h.1 h10
    intro h
    rw [← h] at h10
    rcases mem_joined h10 with h | h
    · exact absurd h (by decide)
    · obtain ⟨w, hw, hb⟩ := List.mem_flatten.1 h
      exact (mem_argWords hw _ hb).2.2 rfl
  · have hrest : 10 ∉ text.dropWhile inWord := fun h => h10 (harg ▸ List.mem_filter.2 ⟨h, rfl⟩)
    have hc32 : 32 ∉ text.takeWhile inWord := fun h => absurd (List.mem_takeWhile_imp h) (by decide)
    have hhead : ∀ b ∈ (text.dropWhile inWord).head?, b = 32 := by
      intro b hb
      have h := List.head?_dropWhile_not inWord text
      rw [Option.mem_def.1 hb] at h
      simpa [inWord] using h
    have h := joined_argWords_iff hc32 hrest hhead
    rw [List.takeWhile_append_dropWhile] at h
    rw [SplitAlike, and_iff_right h10, hcmd, harg]
    exact h

theorem ece391Execute_words {line : CString} (hlen : line.strlen ≤ 127) :
    ∃ argv, ece391Execute line = some argv ∧ argv.tail = argWords line.bytes := by
  unfold ece391Execute argWords
  rw [if_neg (by omega)]
  rcases line.bytes.dropWhile (!splits ·) with _ | ⟨_, scan⟩
  · exact ⟨_, rfl, rfl⟩
  · exact ⟨_, rfl, rfl⟩

end Emulate

namespace Kernel

variable {img : Image}

/-- A program that was entered has the argument of its command line in `pcblock`. -/
theorem execute_argument {line : CString} {r : Regs} {s s' : Kernel} {eip : UInt32} (hfit : Fits line)
    (h : execute img (some line) r s = some (.enter eip, s')) :
    s'.pcblock.argName = putWord (fun _ => 0) 0 (argumentOf (scanned line)) ∧
      s'.pcblock.dataArgSize = UInt8.ofNat (argumentOf (scanned line)).length := by
  obtain ⟨n, q, inode, d, fpos, -, hq, -, rfl⟩ := execute_entered h
  rw [words, parseCmd_fits hfit] at hq
  cases hq
  cases fpos <;> exact ⟨rfl, rfl⟩

/-- Two ways to get arguments agree: the same return code and the same string in the buffer. -/
structure SameArguments (k e : Int × Buf) : Prop where
  ret : k.1 = e.1
  str : ∀ str, IsString k.2 str ↔ IsString e.2 str

/-- What `getargs` leaves of `arg` is what `ece391_getargs` leaves exactly when its words joined are `arg`, and
there is room for the terminator too. -/
theorem sameArguments_iff {kbuf : Buf} {arg : List UInt8} {argv : List (List UInt8)} {nbytes : Int} (ebuf : Buf)
    (hstr : IsString kbuf (arg.take nbytes.toNat)) (h0 : 0 ∉ argv.tail.flatten) :
    SameArguments (0, kbuf) (Emulate.ece391Getargs argv ebuf nbytes) ↔
      Emulate.joined argv.tail = arg ∧ (arg.length : Int) < nbytes := by
  constructor
  · intro h
    by_cases hroom : ((Emulate.joined argv.tail).length : Int) < nbytes
    · obtain ⟨buf', h1, h2⟩ := Emulate.ece391Getargs_string ebuf h0 hroom
      rw [h1] at h
      have heq := ((h.str _).1 hstr).unique h2
      -- the joined words are shorter than the buffer, so nothing was cut off
      have hcut := congrArg List.length heq
      rw [List.length_take] at hcut
      rw [List.take_of_length_le (by omega)] at heq
      rw [← heq] at hroom
      exact ⟨heq.symm, hroom⟩
    · -- the emulation refuses the buffer
      have h1 := Emulate.getargsLoop_short ebuf 0 (not_lt.1 hroom)
      have h2 : (0 : Int) = -1 := h.ret.trans h1
      exact absurd h2 (by decide)
  · rintro ⟨hsame, hroom⟩
    obtain ⟨buf', h1, h2⟩ := Emulate.ece391Getargs_string ebuf h0 (by rw [hsame]; exact hroom)
    rw [hsame] at h2
    rw [List.take_of_length_le (by omega)] at hstr
    rw [h1]
    refine ⟨rfl, fun str => ?_⟩
    constructor
    · intro h
      rwa [h.unique hstr]
    · intro h
      rwa [h.unique h2]

/-- A program that was entered gets the arguments it gets under the emulation exactly when its line is split
alike, which is so for a line without newlines when it has at most one argument, and the argument fits in the
buffer with its terminator. -/
theorem arguments_agree_iff (img : Image) (line : CString) (r : Regs) (s s' : Kernel) (eip : UInt32)
    (hexec : execute img (some line) r s = some (.enter eip, s')) (hlead : line.bytes.head? ≠ some 32)
    (hlen : line.strlen ≤ 127) (hcmd : (commandOf line.bytes).length ≤ 40)
    (harg : (argumentOf line.bytes).length ≤ 40) (buf nbytes : Int) (hbuf : buf ≠ 0) (hn : 1 ≤ nbytes) (ebuf : Buf) :
    (∃ v s'' argv, getargs buf nbytes s' = some (v, s'') ∧ Emulate.ece391Execute line = some argv ∧
      SameArguments (v, s''.userView buf) (Emulate.ece391Getargs argv ebuf nbytes)) ↔
    SplitAlike line.bytes ∧ ((argumentOf line.bytes).length : Int) < nbytes := by
  have hscan := scanned_line hlead (by omega)
  have hfit : Fits line := by
    unfold Fits
    rw [hscan]
    exact ⟨hcmd, harg⟩
  obtain ⟨hname, hsize⟩ := execute_argument hfit hexec
  rw [hscan] at hname hsize
  have h0 : 0 ∉ argumentOf line.bytes := by
    intro hm
    unfold argumentOf dropSpace at hm
    rw [if_neg hlead] at hm
    exact line.noNul ((List.filter_sublist.trans (List.dropWhile_sublist _)).mem hm)
  obtain ⟨s'', hget, hstr⟩ := getargs_string hbuf hn harg h0 hname hsize
  obtain ⟨argv, hargv, hwords⟩ := Emulate.ece391Execute_words hlen
  have hargv0 : 0 ∉ argv.tail.flatten := by
    rw [hwords]
    intro h
    obtain ⟨w, hw, hb⟩ := List.mem_flatten.1 h
    exact line.noNul (Emulate.mem_argWords hw _ hb).1
  rw [← Emulate.joined_argWords_line hlead, ← hwords, ← sameArguments_iff ebuf hstr hargv0]
  constructor
  · rintro ⟨v, s1, argv', h1, h2, h3⟩
    obtain ⟨rfl, rfl⟩ := Prod.mk.inj (Option.some.inj (hget.symm.trans h1))
    obtain rfl := Option.some.inj (hargv.symm.trans h2)
    exact h3
  · intro h
    exact ⟨0, s'', argv, hget, hargv, h⟩

/-- The line `fish a b`. -/
def fishTwo : CString := ⟨ascii ['f', 'i', 's', 'h', ' ', 'a', ' ', 'b'], by decide⟩

/-- The line `fish  ab `, with one argument. -/
def fishOne : CString := ⟨ascii ['f', 'i', 's', 'h', ' ', ' ', 'a', 'b', ' '], by decide⟩

/-- The program started by a line in the first shell. -/
def fishStarted (line : CString) : Kernel := ((execute .sample (some line) ⟨0, 0⟩ firstShell).getD (.handled, boot)).2

/-- With one argument and room for it both give the same. -/
theorem arguments_agree_fish :
    execute .sample (some fishOne) ⟨0, 0⟩ firstShell = some (.enter 0, fishStarted fishOne) ∧
      ∃ v s'' argv, getargs 1 3 (fishStarted fishOne) = some (v, s'') ∧
        Emulate.ece391Execute fishOne = some argv ∧
        SameArguments (v, s''.userView 1) (Emulate.ece391Getargs argv (fun _ => 0) 3) := by
  have hexec : execute .sample (some fishOne) ⟨0, 0⟩ firstShell = some (.enter 0, fishStarted fishOne) :=
    eq_some_of_fst _ (by decide +kernel)
  refine ⟨hexec, ?_⟩
  exact (arguments_agree_iff .sample fishOne ⟨0, 0⟩ firstShell (fishStarted fishOne) 0 hexec (by decide)
    (by decide) (by decide) (by decide) 1 3 (by decide) (by decide) (fun _ => 0)).2
    ⟨(splitAlike_iff (by decide)).2 (by decide +kernel), by decide +kernel⟩

/-- Of the two arguments of `fish a b` the kernel makes `ab`, the emulation `a b`. -/
theorem arguments_differ_fish :
    execute .sample (some fishTwo) ⟨0, 0⟩ firstShell = some (.enter 0, fishStarted fishTwo) ∧
      ∃ s'' argv, getargs 1 100 (fishStarted fishTwo) = some (0, s'') ∧ Emulate.ece391Execute fishTwo = some argv ∧
        IsString (s''.userView 1) (ascii ['a', 'b']) ∧
        (Emulate.ece391Getargs argv (fun _ => 0) 100).1 = 0 ∧
        IsString (Emulate.ece391Getargs argv (fun _ => 0) 100).2 (ascii ['a', ' ', 'b']) ∧
        ¬ SameArguments (0, s''.userView 1) (Emulate.ece391Getargs argv (fun _ => 0) 100) := by
  have hexec : execute .sample (some fishTwo) ⟨0, 0⟩ firstShell = some (.enter 0, fishStarted fishTwo) :=
    eq_some_of_fst _ (by decide +kernel)
  obtain ⟨hname, hsize⟩ := execute_argument (by decide) hexec
  obtain ⟨s'', hget, hstr⟩ := @getargs_string _ (ascii ['a', 'b']) 1 100 (by decide) (by decide) (by decide) (by decide)
    hname hsize
  have hemu : IsString (Emulate.ece391Getargs [ascii ['.', '/', 'f', 'i', 's', 'h'], ascii ['a'], ascii ['b']]
      (fun _ => 0) 100).2 (ascii ['a', ' ', 'b']) := ⟨by decide, by decide +kernel⟩
  refine ⟨hexec, s'', _, hget, by decide +kernel, hstr, by decide +kernel, hemu, ?_⟩
  intro h
  have heq := ((h.str _).1 hstr).unique hemu
  exact absurd heq (by decide)

end Kernel

end Os391
