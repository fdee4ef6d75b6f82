/-
Commands of a word and an argument. `parse_cmd` takes them apart whatever was in the block before, and
whatever spaces stand behind the words; spaces in front are only skipped where all spaces are in front.
-/
import Mathlib.Data.List.TakeWhile
import Os391.Files.Frame
import Os391.Process.Command

namespace Os391

open Bytes

/-! ## A word and an argument -/

theorem inWord_of_not_mem {w : List UInt8} (h : 32 ∉ w) : ∀ b ∈ w, inWord b = true := by
  intro b hb
  have hne : b ≠ 32 := by
    rintro rfl
    exact h hb
  simp [inWord, hne]

theorem filter_spaces (n : Nat) : (List.replicate n (32 : UInt8)).filter inWord = [] := by
  simp [inWord]

/-- The first word of a line that starts with one. -/
theorem commandOf_word {w rest : List UInt8} (hne : w ≠ []) (hw : 32 ∉ w) (hrest : ∀ b ∈ rest.head?, b = 32) :
    commandOf (w ++ rest) = w ∧ argumentOf (w ++ rest) = rest.filter inWord := by
  have hin := inWord_of_not_mem hw
  have hhead : (w ++ rest).head? ≠ some 32 := by
    rintro h
    obtain ⟨b, w, rfl⟩ := List.exists_cons_of_ne_nil hne
    have hb : b = 32 := Option.some.inj h
    exact hw (hb ▸ List.mem_cons_self ..)
  have hstop : rest.takeWhile inWord = [] ∧ rest.dropWhile inWord = rest := by
    cases rest with
    | nil => exact ⟨rfl, rfl⟩
    | cons b rest =>
      obtain rfl := hrest b rfl
      exact ⟨rfl, rfl⟩
  unfold commandOf argumentOf dropSpace
  rw [if_neg hhead, List.takeWhile_append_of_pos hin, List.dropWhile_append_of_pos hin, hstop.1, hstop.2,
    List.append_nil]
  exact ⟨rfl, rfl⟩

theorem putWord_zero (bs : List UInt8) : putWord (fun _ => 0) 0 bs = fun i : Fin 40 => bs.getD i.val 0 := by
  funext i
  rw [putWord, if_pos (Nat.zero_le _), Nat.sub_zero, List.getD_eq_getElem?_getD]

/-- A command word and at most one argument word, with spaces between and behind them: both end up at the
start of their arrays, with zeros behind them, whatever the block held before. -/
theorem parseCmd_words (input : CString) (w a : List UInt8) (m k : Nat) (p : Pcb)
    (hbytes : input.bytes = w ++ List.replicate m 32 ++ a ++ List.replicate k 32) (hlen : input.strlen < 256)
    (hne : w ≠ []) (hw : 32 ∉ w) (ha : 32 ∉ a) (hm : a ≠ [] → 0 < m) (hwl : w.length ≤ 40) (hal : a.length ≤ 40) :
    parseCmd input p = some { p with
      cmdName := fun i => w.getD i.val 0
      argName := fun i => a.getD i.val 0
      dataArgSize := UInt8.ofNat a.length } := by
  have hrest : ∀ b ∈ (List.replicate m 32 ++ a ++ List.replicate k 32).head?, b = (32 : UInt8) := by
    intro b hb
    cases m with
    | succ m => exact (Option.some.inj hb).symm
    | zero =>
      obtain rfl : a = [] := by_contra fun h => absurd (hm h) (lt_irrefl 0)
      exact List.eq_of_mem_replicate (List.mem_of_mem_head? hb)
  have hline : input.bytes = w ++ (List.replicate m 32 ++ a ++ List.replicate k 32) := by
    rw [hbytes, List.append_assoc, List.append_assoc, List.append_assoc]
  obtain ⟨hcmd, harg⟩ := commandOf_word hne hw hrest
  have hhead : input.bytes.head? ≠ some 32 := by
    rw [hline, List.head?_append_of_ne_nil _ hne]
    intro h
    exact hw (List.mem_of_mem_head? h)
  have harg' : argumentOf (w ++ (List.replicate m 32 ++ a ++ List.replicate k 32)) = a := by
    rw [harg, List.filter_append, List.filter_append, filter_spaces, filter_spaces, List.nil_append, List.append_nil,
      List.filter_eq_self.2 (inWord_of_not_mem ha)]
  have hscan : scanned input = w ++ (List.replicate m 32 ++ a ++ List.replicate k 32) := by
    rw [scanned_line hhead hlen, hline]
  have hfit : Fits input := by
    unfold Fits
    rw [hscan, hcmd, harg']
    exact ⟨hwl, hal⟩
  rw [parseCmd_fits hfit, hscan, hcmd, harg', putWord_zero, putWord_zero]

/-- `cat  frame0.txt ` in a block that held a longer command. -/
theorem parseCmd_words_cat :
    let w := ascii ['c', 'a', 't']
    let a := frame0.bytes
    ∃ input : CString, input.bytes = w ++ List.replicate 2 32 ++ a ++ List.replicate 1 32 ∧
      parseCmd input { Pcb.zero with cmdName := fun _ => 97, argName := fun _ => 98 } =
        some { Pcb.zero with cmdName := fun i => w.getD i.val 0, argName := fun i => a.getD i.val 0, dataArgSize := 10 } := by
  intro w a
  refine ⟨⟨w ++ List.replicate 2 32 ++ a ++ List.replicate 1 32, by decide +kernel⟩, rfl, ?_⟩
  exact parseCmd_words _ w a 2 1 _ rfl (by decide +kernel) (by decide +kernel) (by decide +kernel) (by decide +kernel)
    (by decide) (by decide +kernel) (by decide +kernel)

/-! ## Spaces in front -/

/-- A string with spaces put in front of it. -/
def CString.padded (s : CString) (n : Nat) : CString where
  bytes := List.replicate n 32 ++ s.bytes
  noNul := by
    intro h
    rcases List.mem_append.1 h with h | h
    · exact absurd (List.eq_of_mem_replicate h) (by decide)
    · exact s.noNul h

theorem CString.padded_strlen (s : CString) (n : Nat) : (s.padded n).strlen = n + s.strlen := by
  simp [CString.padded, CString.strlen]

/-- Together the command and the argument of a text are its characters that are no spaces. -/
theorem command_append_argument (text : List UInt8) : commandOf text ++ argumentOf text = text.filter inWord := by
  have hdrop : (dropSpace text).filter inWord = text.filter inWord := by
    unfold dropSpace
    split
    case isTrue h =>
      obtain ⟨rest, rfl⟩ := List.head?_eq_some_iff.1 h
      rfl
    case isFalse => rfl
  have htake : ((dropSpace text).takeWhile inWord).filter inWord = (dropSpace text).takeWhile inWord :=
    List.filter_eq_self.2 fun b hb => List.mem_takeWhile_imp hb
  rw [commandOf, argumentOf, ← htake, ← List.filter_append, List.takeWhile_append_dropWhile, hdrop]

/-- No part of a text behind its start has more of a command or of an argument than fits, if the text's first
word and what follows it fit. -/
theorem drop_fits {text : List UInt8} (hcmd : (text.takeWhile inWord).length ≤ 40)
    (harg : ((text.dropWhile inWord).filter inWord).length ≤ 40) (j : Nat) :
    (commandOf (text.drop j)).length ≤ 40 ∧ (argumentOf (text.drop j)).length ≤ 40 := by
  obtain ⟨w, rest, htext, hw, hrest⟩ : ∃ w rest, text = w ++ rest ∧ text.takeWhile inWord = w ∧
      text.dropWhile inWord = rest := ⟨_, _, List.takeWhile_append_dropWhile.symm, rfl, rfl⟩
  rw [hw] at hcmd
  rw [hrest] at harg
  have hin : ∀ b ∈ w, inWord b = true := by
    intro b hb
    rw [← hw] at hb
    exact List.mem_takeWhile_imp hb
  by_cases hj : j < w.length
  · -- inside the first word
    have hdrop : text.drop j = w.drop j ++ rest := by
      rw [htext, List.drop_append_of_le_length (by omega)]
    have hne : w.drop j ≠ [] := by
      intro h
      have := congrArg List.length h
      rw [List.length_drop, List.length_nil] at this
      omega
    have hw32 : 32 ∉ w.drop j := fun h => absurd (hin 32 (List.mem_of_mem_drop h)) (by decide)
    have hhead : ∀ b ∈ rest.head?, b = 32 := by
      intro b hb
      have hstop := List.head?_dropWhile_not inWord text
      rw [hrest, Option.mem_def.1 hb] at hstop
      simpa [inWord] using hstop
    obtain ⟨h1, h2⟩ := commandOf_word hne hw32 hhead
    rw [hdrop, h1, h2, List.length_drop]
    exact ⟨by omega, harg⟩
  · -- behind it, all that is left is part of the argument
    have hdrop : text.drop j = rest.drop (j - w.length) := by
      rw [htext, List.drop_append, List.drop_eq_nil_of_le (by omega), List.nil_append]
    have hsub : ((text.drop j).filter inWord).length ≤ 40 := by
      rw [hdrop]
      exact (List.Sublist.filter _ (List.drop_sublist _ _)).length_le.trans harg
    rw [← command_append_argument, List.length_append] at hsub
    exact ⟨by omega, by omega⟩

/-- A short word without a NUL can be read back from the array it was put in. -/
theorem putWord_inj {a b : List UInt8} (ha : a.length ≤ 40) (hb : b.length ≤ 40) (ha0 : 0 ∉ a) (hb0 : 0 ∉ b)
    (h : putWord (fun _ => 0) 0 a = putWord (fun _ => 0) 0 b) : a = b := by
  apply List.ext_getElem?
  intro i
  by_cases hi : i < 40
  · have hbyte := congrFun h ⟨i, hi⟩
    rw [putWord_zero, putWord_zero] at hbyte
    simp only [List.getD_eq_getElem?_getD] at hbyte
    cases hai : a[i]? with
    | none =>
      cases hbi : b[i]? with
      | none => rfl
      | some y =>
        rw [hai, hbi] at hbyte
        obtain rfl : 0 = y := hbyte
        exact absurd (List.mem_of_getElem? hbi) hb0
    | some x =>
      cases hbi : b[i]? with
      | none =>
        rw [hai, hbi] at hbyte
        obtain rfl : x = 0 := hbyte
        exact absurd (List.mem_of_getElem? hai) ha0
      | some y =>
        rw [hai, hbi] at hbyte
        exact congrArg some hbyte
  · rw [List.getElem?_eq_none (by omega), List.getElem?_eq_none (by omega)]

/-- `parse_cmd` leaves the same command and argument for two strings. -/
def SameWords (a b : CString) : Prop :=
  ∀ p, ∃ q q', parseCmd a p = some q ∧ parseCmd b p = some q' ∧ q'.cmdName = q.cmdName ∧ q'.argName = q.argName ∧
    q'.dataArgSize = q.dataArgSize

theorem scanned_noNul (s : CString) : ∀ b ∈ scanned s, b ≠ 0 := by
  intro b hb
  have hsub : b ∈ s.bytes := by
    unfold scanned at hb
    simp only at hb
    split at hb
    case isTrue => exact List.mem_of_mem_take (List.mem_of_mem_drop hb)
    case isFalse => exact List.mem_of_mem_take hb
  rintro rfl
  exact s.noNul hsub

theorem words_noNul (s : CString) : 0 ∉ commandOf (scanned s) ∧ 0 ∉ argumentOf (scanned s) := by
  have hall : 0 ∉ commandOf (scanned s) ++ argumentOf (scanned s) := by
    rw [command_append_argument]
    intro h
    exact scanned_noNul s 0 (List.mem_of_mem_filter h) rfl
  exact ⟨fun h => hall (List.mem_append_left _ h), fun h => hall (List.mem_append_right _ h)⟩

/-- Strings whose scanned texts fit give the same words when these texts have the same. -/
theorem sameWords_iff {a b : CString} (ha : Fits a) (hb : Fits b) :
    SameWords a b ↔ commandOf (scanned b) = commandOf (scanned a) ∧ argumentOf (scanned b) = argumentOf (scanned a) := by
  constructor
  · intro h
    obtain ⟨q, q', hq, hq', hcmd, harg, -⟩ := h .zero
    rw [parseCmd_fits ha] at hq
    rw [parseCmd_fits hb] at hq'
    obtain rfl := Option.some.inj hq
    obtain rfl := Option.some.inj hq'
    exact ⟨putWord_inj hb.1 ha.1 (words_noNul b).1 (words_noNul a).1 hcmd,
      putWord_inj hb.2 ha.2 (words_noNul b).2 (words_noNul a).2 harg⟩
  · rintro ⟨hcmd, harg⟩ p
    refine ⟨_, _, parseCmd_fits ha p, parseCmd_fits hb p, ?_, ?_, ?_⟩
    · rw [hcmd]
    · rw [harg]
    · rw [harg]

/-- A string of less than 256 characters whose first word and the characters that follow it, less the spaces, fit
in the arrays. -/
structure Fitting (s : CString) : Prop where
  strlen : s.strlen < 256
  command : ((s.bytes.dropWhile (· = 32)).takeWhile inWord).length ≤ 40
  argument : (((s.bytes.dropWhile (· = 32)).dropWhile inWord).filter inWord).length ≤ 40

/-- The number of spaces of a string, which is where a line with a leading one is scanned from. -/
def spaces (s : CString) : Nat := s.bytes.countP (· = 32)

theorem leading_le_spaces (s : CString) : (s.bytes.takeWhile (· = 32)).length ≤ spaces s := by
  unfold spaces
  conv_rhs => rw [← List.takeWhile_append_dropWhile (p := fun b => decide (b = 32)) (l := s.bytes)]
  rw [List.countP_append, List.countP_eq_length.2 fun b hb =>
    List.mem_takeWhile_imp (p := fun b => decide (b = 32)) hb]
  omega

/-- What is left of a fitting string from some index behind its leading spaces on has words that fit. -/
theorem Fitting.drop {s : CString} (h : Fitting s) {k : Nat} (hk : (s.bytes.takeWhile (· = 32)).length ≤ k) :
    (commandOf (s.bytes.drop k)).length ≤ 40 ∧ (argumentOf (s.bytes.drop k)).length ≤ 40 := by
  have hdrop : s.bytes.drop k = (s.bytes.dropWhile (· = 32)).drop (k - (s.bytes.takeWhile (· = 32)).length) := by
    conv_lhs => rw [← List.takeWhile_append_dropWhile (p := fun b => decide (b = 32)) (l := s.bytes)]
    rw [List.drop_append, List.drop_eq_nil_of_le hk, List.nil_append]
  rw [hdrop]
  exact drop_fits h.command h.argument _

theorem head_of_word {s : CString} {b : UInt8} {rest : List UInt8} (hhead : s.bytes.head? ≠ some 32)
    (hs : s.bytes = b :: rest) : b ≠ 32 := by
  rintro rfl
  exact hhead (by rw [hs]; rfl)

theorem Fitting.fits {s : CString} (h : Fitting s) : Fits s := by
  unfold Fits
  rw [scanned_short h.strlen]
  split
  case isTrue => exact h.drop (leading_le_spaces s)
  case isFalse hhead =>
    have hlead : s.bytes.takeWhile (· = 32) = [] := by
      rcases hs : s.bytes with _ | ⟨b, rest⟩
      · rfl
      · exact List.takeWhile_cons_of_neg (by simpa using head_of_word hhead hs)
    rw [← List.drop_zero (l := s.bytes)]
    exact h.drop (by rw [hlead]; exact le_refl _)

theorem padded_head {s : CString} {n : Nat} (hn : 0 < n) : (s.padded n).bytes.head? = some 32 := by
  obtain ⟨m, rfl⟩ : ∃ m, n = m + 1 := ⟨n - 1, by omega⟩
  rfl

/-- Of a padded string that is still short, as much is skipped as the string has spaces. -/
theorem scanned_padded_short {s : CString} {n : Nat} (hn : 0 < n) (hlen : n + s.strlen < 256) :
    scanned (s.padded n) = s.bytes.drop (spaces s) := by
  rw [scanned_short (by rw [CString.padded_strlen]; exact hlen), if_pos (padded_head hn)]
  have hcount : (s.padded n).bytes.countP (· = 32) = (List.replicate n (32 : UInt8)).length + spaces s := by
    rw [CString.padded, List.countP_append, List.countP_replicate, List.length_replicate]
    rfl
  rw [hcount]
  exact List.drop_length_add_append _

/-- Of one that is too long nothing is scanned: its length modulo 256 is at most the number of spaces put in
front. -/
theorem scanned_padded_long {s : CString} {n : Nat} (hn : 0 < n) (hs : s.strlen < 256) (hlen : 256 ≤ n + s.strlen) :
    scanned (s.padded n) = [] := by
  have htext : (s.padded n).bytes.take ((s.padded n).strlen % 256) = List.replicate ((s.padded n).strlen % 256) 32 := by
    rw [CString.padded_strlen, CString.padded, List.take_append_of_le_length (by rw [List.length_replicate]; omega),
      List.take_replicate, Nat.min_eq_left (by omega)]
  unfold scanned
  simp only
  rw [if_pos (padded_head hn), htext, List.countP_replicate]
  simp

/-- A line has the words of the empty one when it has only spaces. -/
theorem noWords_iff (line : List UInt8) :
    (commandOf [] = commandOf line ∧ argumentOf [] = argumentOf line) ↔ ∀ b ∈ line, b = 32 := by
  have hwords : (commandOf line = [] ∧ argumentOf line = []) ↔ line.filter inWord = [] := by
    rw [← command_append_argument, List.append_eq_nil_iff]
  have hfilter : line.filter inWord = [] ↔ ∀ b ∈ line, b = 32 := by
    rw [List.filter_eq_nil_iff]
    simp [inWord]
  rw [← hfilter, ← hwords]
  exact ⟨fun hw => ⟨hw.1.symm, hw.2.symm⟩, fun hw => ⟨hw.1.symm, hw.2.symm⟩⟩

/-- Skipping characters of a line that begins with a word loses some of its words. -/
theorem words_drop_ne {b : UInt8} {rest : List UInt8} {k : Nat} (hb : b ≠ 32) (hk : 0 < k) :
    ¬ (commandOf ((b :: rest).drop k) = commandOf (b :: rest) ∧
      argumentOf ((b :: rest).drop k) = argumentOf (b :: rest)) := by
  rintro ⟨hcmd, harg⟩
  have hall : ((b :: rest).drop k).filter inWord = (b :: rest).filter inWord := by
    rw [← command_append_argument, ← command_append_argument, hcmd, harg]
  have hshort : (((b :: rest).drop k).filter inWord).length ≤ (rest.filter inWord).length := by
    obtain ⟨k, rfl⟩ : ∃ j, k = j + 1 := ⟨k - 1, by omega⟩
    rw [List.drop_succ_cons]
    exact (List.Sublist.filter _ (List.drop_sublist _ _)).length_le
  rw [hall, List.filter_cons_of_pos (by simp [inWord, hb]), List.length_cons] at hshort
  omega

/-- In a padded string that is still short as many characters are skipped as there are spaces, wherever they
stand. -/
theorem sameWords_padded_short {s : CString} {n : Nat} (h : Fitting s) (hn : 0 < n) (hlen : n + s.strlen < 256) :
    SameWords s (s.padded n) ↔ 32 ∉ s.bytes ∨ s.bytes.head? = some 32 := by
  have hpad := scanned_padded_short hn hlen
  have hfit : Fits (s.padded n) := by
    unfold Fits
    rw [hpad]
    exact h.drop (leading_le_spaces s)
  rw [sameWords_iff h.fits hfit, hpad, scanned_short h.strlen]
  by_cases hhead : s.bytes.head? = some 32
  · rw [if_pos hhead]
    exact ⟨fun _ => Or.inr hhead, fun _ => ⟨rfl, rfl⟩⟩
  rw [if_neg hhead]
  by_cases h32 : 32 ∈ s.bytes
  · have hpos : 0 < spaces s := List.countP_pos_iff.2 ⟨32, h32, by decide⟩
    obtain ⟨b, rest, hs⟩ := List.exists_cons_of_ne_nil (List.ne_nil_of_mem h32)
    constructor
    · intro hwords
      rw [hs] at hwords
      exact absurd hwords (words_drop_ne (head_of_word hhead hs) hpos)
    · rintro (h' | h')
      · exact absurd h32 h'
      · exact absurd h' hhead
  · have hzero : spaces s = 0 := by
      refine List.countP_eq_zero.2 fun b hb => ?_
      have hne : b ≠ 32 := by
        rintro rfl
        exact h32 hb
      simpa using hne
    rw [hzero, List.drop_zero]
    exact ⟨fun _ => Or.inl h32, fun _ => ⟨rfl, rfl⟩⟩

/-- Of one that is too long nothing is scanned, so there must be nothing to find in the string either. -/
theorem sameWords_padded_long {s : CString} {n : Nat} (h : Fitting s) (hn : 0 < n) (hlen : 256 ≤ n + s.strlen) :
    SameWords s (s.padded n) ↔ s.bytes = [] ∨ s.bytes.head? = some 32 ∧ ∀ b ∈ s.bytes.drop (spaces s), b = 32 := by
  have hpad := scanned_padded_long hn h.strlen hlen
  have hfit : Fits (s.padded n) := by
    unfold Fits
    rw [hpad]
    exact ⟨Nat.zero_le _, Nat.zero_le _⟩
  rw [sameWords_iff h.fits hfit, hpad, noWords_iff, scanned_short h.strlen]
  by_cases hhead : s.bytes.head? = some 32
  · rw [if_pos hhead]
    refine ⟨fun hall => Or.inr ⟨hhead, hall⟩, ?_⟩
    rintro (hs | ⟨-, hall⟩)
    · rw [hs] at hhead
      cases hhead
    · exact hall
  · rw [if_neg hhead]
    constructor
    · intro hall
      left
      rcases hs : s.bytes with _ | ⟨b, rest⟩
      · rfl
      · exact absurd (hall b (by rw [hs]; exact List.mem_cons_self ..)) (head_of_word hhead hs)
    · rintro (hs | ⟨hhead', -⟩)
      · rw [hs]
        simp
      · exact absurd hhead' hhead

/-- Spaces in front of a fitting string change nothing exactly in these cases: there are none; or the whole is
short, and the string has no space or begins with one; or the whole is too long, and the string is empty, or
begins with a space and has only spaces where its scan starts. -/
theorem leading_spaces_iff (s : CString) (n : Nat) (h : Fitting s) :
    SameWords s (s.padded n) ↔ n = 0 ∨
      n + s.strlen < 256 ∧ (32 ∉ s.bytes ∨ s.bytes.head? = some 32) ∨
      256 ≤ n + s.strlen ∧ (s.bytes = [] ∨
        s.bytes.head? = some 32 ∧ ∀ b ∈ s.bytes.drop (s.bytes.countP (· = 32)), b = 32) := by
  rcases Nat.eq_zero_or_pos n with rfl | hn
  · have hzero : s.padded 0 = s := rfl
    rw [hzero, sameWords_iff h.fits h.fits]
    simp
  have hn0 : n ≠ 0 := by omega
  rcases Nat.lt_or_ge (n + s.strlen) 256 with hlen | hlen
  · rw [sameWords_padded_short h hn hlen]
    simp only [hn0, hlen, not_le.2 hlen, true_and, false_and, false_or, or_false]
  · rw [sameWords_padded_long h hn hlen]
    simp only [hn0, hlen, not_lt.2 hlen, true_and, false_and, false_or, spaces]

/-- A space in front of `ls` changes nothing. -/
theorem leading_space_ls :
    let ls : CString := ⟨ascii ['l', 's'], by decide⟩
    Fitting ls ∧ SameWords ls (ls.padded 1) := by
  intro ls
  have hfit : Fitting ls := ⟨by decide, by decide, by decide⟩
  exact ⟨hfit, (leading_spaces_iff ls 1 hfit).2 (Or.inr (Or.inl ⟨by decide, Or.inl (by decide)⟩))⟩

/-- A space in front of `cat a`: two characters are skipped, and the command is `at`. -/
theorem leading_space_cat :
    let cat : CString := ⟨ascii ['c', 'a', 't', ' ', 'a'], by decide⟩
    Fitting cat ∧ commandOf (scanned cat) = ascii ['c', 'a', 't'] ∧
      commandOf (scanned (cat.padded 1)) = ascii ['a', 't'] ∧ ¬ SameWords cat (cat.padded 1) := by
  intro cat
  have hfit : Fitting cat := ⟨by decide, by decide +kernel, by decide +kernel⟩
  have hcat : commandOf (scanned cat) = ascii ['c', 'a', 't'] := by decide +kernel
  have hat : commandOf (scanned (cat.padded 1)) = ascii ['a', 't'] := by decide +kernel
  refine ⟨hfit, hcat, hat, ?_⟩
  rw [sameWords_iff hfit.fits (by decide +kernel), hcat, hat]
  rintro ⟨h, -⟩
  exact absurd h (by decide)

end Os391
