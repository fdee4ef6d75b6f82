/-
Lines typed key by key. `keyboard_read` tests the cursor's column before the key, and the characters on the
screen before a deletion; away from the last column and from a displayed prompt the line is what was typed, in
one terminal and, between lines of the same length, in three that are switched.
-/
import Os391.Terminal.Lines

namespace Os391

open Bytes Machine Line

namespace Kernel

variable {img : Image}

/-! ## The typed line -/

/-- The keys of a line: the printable ones, backspace, and the modifiers, which pass 0. -/
def IsTyping (k : UInt8) : Prop := (32 ≤ k ∧ k ≤ 126) ∨ k = 8 ∨ k = 0

/-- What a key does to a line: a printable one is appended while fewer than 127 characters are held, backspace
removes the last character, and a modifier does nothing. -/
def applyKey (line : List UInt8) (k : UInt8) : List UInt8 :=
  if 32 ≤ k ∧ k ≤ 126 then if line.length < 127 then line ++ [k] else line
  else if k = 8 then line.dropLast
  else line

/-- The line that keys make, from an empty one. -/
def typedLine (keys : List UInt8) : List UInt8 := keys.foldl applyKey []

theorem applyKey_back (line : List UInt8) : applyKey line 8 = line.dropLast :=
  (if_neg (by decide)).trans (if_pos rfl)

theorem applyKey_zero (line : List UInt8) : applyKey line 0 = line :=
  (if_neg (by decide)).trans (if_neg (by decide))

/-- One key of a run, with the registers at its interrupt. -/
def keyStep (img : Image) (s : Kernel) (k : UInt8 × Regs) : Option (Outcome × Kernel) := keyboardRead img k.1 k.2 s

/-- The key has something to do: a character that still fits, or a deletion of one that is held. -/
def Edits (s : Kernel) (k : UInt8) : Prop := (32 ≤ k ∧ k ≤ 126 ∧ s.counter < 127) ∨ (k = 8 ∧ s.counter ≠ 0)

/-- A key that has something to do finds the cursor left of the last column and, for a deletion, not right after a
displayed prompt. -/
def Unhindered (s : Kernel) (k : UInt8 × Regs) : Prop :=
  Edits s k.1 → s.con.screenX < numCols - 1 ∧ (k.1 = 8 → atPrompt s.con ≠ true)

instance decidableUnhindered (s : Kernel) (k : UInt8 × Regs) : Decidable (Unhindered s k) :=
  inferInstanceAs (Decidable (((_ ∧ _ ∧ _) ∨ (_ ∧ _ ≠ _)) → _ ∧ (_ → _ ≠ _)))

theorem IsTyping.switchTo {k : UInt8} (h : IsTyping k) (s : Kernel) : s.switchTo k = none := by
  refine switchTo_other ?_ s
  rintro (rfl | rfl | rfl) <;> exact absurd h (by unfold IsTyping; decide)

theorem edit_print {k : UInt8} (hk : 32 ≤ k ∧ k ≤ 126) (s : Kernel) (line : List UInt8) :
    s.edit k line = if s.con.screenX ≥ numCols - 1 then line else if line.length < 127 then line ++ [k] else line := by
  have hne : ∀ d : UInt8, d < 32 ∨ 126 < d → k ≠ d := by
    rintro d (hd | hd) rfl
    · exact absurd hk.1 (UInt8.not_le.2 hd)
    · exact absurd hk.2 (UInt8.not_le.2 hd)
  have hplain : ¬ (k = 9 ∨ k = 0xF8 ∨ k = 0xFF) := by
    rintro (h | h | h)
    · exact hne _ (by decide) h
    · exact hne _ (by decide) h
    · exact hne _ (by decide) h
  rw [edit, if_neg hplain, if_neg (hne 10 (by decide)), if_neg (hne 8 (by decide))]
  simp only [ge_iff_le, hk.1, hk.2, true_and]

theorem edit_back (s : Kernel) (line : List UInt8) :
    s.edit 8 line = if s.con.screenX ≥ numCols - 1 ∨ atPrompt s.con = true then line else line.dropLast := by
  by_cases hx : s.con.screenX ≥ numCols - 1 <;> simp [edit, hx]

theorem edit_zero (s : Kernel) (line : List UInt8) : s.edit 0 line = line := by
  simp [edit]

/-- `keyboard_read` edits the line as the key says exactly when the key is unhindered. -/
theorem edit_eq_iff {s : Kernel} {line : List UInt8} {k : UInt8} (r : Regs) (h : ShowsLine s line) (hk : IsTyping k) :
    s.edit k line = applyKey line k ↔ Unhindered s (k, r) := by
  have hcount := h.counter_lt
  have hempty := h.counter_eq_zero
  unfold Unhindered Edits
  rcases hk with hk | rfl | rfl
  · have h8 : k ≠ 8 := by
      rintro rfl
      exact absurd hk.1 (by decide)
    rw [edit_print hk, applyKey, if_pos hk]
    by_cases hx : s.con.screenX ≥ numCols - 1
    · by_cases hlen : line.length < 127
      · simp [hx, hlen, hk.1, hk.2, hcount, h8]
      · simp [hx, hlen, hcount, h8]
    · simp [hx, not_le.1 hx, h8]
  · rw [edit_back, applyKey_back]
    have hnot : ¬ ((32 : UInt8) ≤ 8 ∧ (8 : UInt8) ≤ 126 ∧ s.counter < 127) := fun h => absurd h.1 (by decide)
    by_cases hl : line = []
    · simp [hl, hempty.2 hl]
    · have hdrop : line ≠ line.dropLast := by
        intro he
        have hlen := congrArg List.length he
        have hpos := List.length_pos_iff.2 hl
        rw [List.length_dropLast] at hlen
        omega
      have hc : s.counter ≠ 0 := mt hempty.1 hl
      by_cases hx : s.con.screenX ≥ numCols - 1
      · simp [hx, hdrop, hc]
      · by_cases hat : atPrompt s.con = true
        · simp [hat, hdrop, hc]
        · simp [hx, not_le.1 hx, hat]
  · rw [edit_zero, applyKey_zero]
    simp

/-! ## Runs -/

/-- Enter, pressed now, delivers the line. -/
def EnterDelivers (img : Image) (r : Regs) (s : Kernel) (line : List UInt8) : Prop :=
  ∃ s', keyboardRead img 10 r s = some (.handled, s') ∧ s'.entered = true ∧ s'.delivered = line

theorem enterDelivers_iff {s : Kernel} {line line' : List UInt8} (r : Regs) (h : ShowsLine s line) :
    EnterDelivers img r s line' ↔ line = line' := by
  have hstay : s.switchTo 10 = none := switchTo_other (by decide) s
  obtain ⟨s', hs, -⟩ := @keyboardRead_stroke img 10 r s hstay
  obtain ⟨hentered, hline⟩ := (key_showsLine h hstay hs).2 rfl
  constructor
  · rintro ⟨s1, hs1, -, hline1⟩
    rw [hs] at hs1
    cases hs1
    exact hline.symm.trans hline1
  · rintro rfl
    exact ⟨s', hs, hentered, hline⟩

/-- The line typed on from `line`. -/
theorem keys_deliver {r : Regs} : ∀ {keys : List (UInt8 × Regs)} {s : Kernel} {line : List UInt8},
    (∀ k ∈ keys, IsTyping k.1) → ShowsLine s line →
      ((∀ ks, ks <+: keys → ∃ s', run (keyStep img) s ks = some s' ∧
        EnterDelivers img r s' ((ks.map Prod.fst).foldl applyKey line)) ↔
          Along (keyStep img) Unhindered s keys)
  | [], s, line, _, h => by
    refine ⟨fun _ => trivial, fun _ ks hks => ?_⟩
    obtain rfl := List.prefix_nil.1 hks
    exact ⟨s, rfl, (enterDelivers_iff r h).2 rfl⟩
  | k :: keys, s, line, hk, h => by
    have hk1 := hk k List.mem_cons_self
    obtain ⟨s1, hs1, -⟩ := @keyboardRead_stroke img k.1 k.2 s (hk1.switchTo s)
    obtain ⟨h1, -⟩ := key_showsLine h (hk1.switchTo s) hs1
    have hstep : keyStep img s k = some (.handled, s1) := hs1
    have hk1' : ∀ k' ∈ keys, IsTyping k'.1 := fun k' hm => hk k' (List.mem_cons_of_mem _ hm)
    have hrest := @keys_deliver r keys s1 _ hk1' h1
    have hrun : ∀ ks, run (keyStep img) s (k :: ks) = run (keyStep img) s1 ks := by
      intro ks
      rw [run, hstep]
      rfl
    constructor
    · intro hall
      have hedit : s.edit k.1 line = applyKey line k.1 := by
        obtain ⟨s', hs', hd⟩ := hall [k] (by simp)
        rw [hrun] at hs'
        cases hs'
        exact (enterDelivers_iff r h1).1 hd
      refine ⟨(edit_eq_iff k.2 h hk1).1 hedit, fun y hy => ?_⟩
      rw [hstep] at hy
      cases hy
      refine hrest.1 fun ks hks => ?_
      obtain ⟨s', hs', hd⟩ := hall (k :: ks) (List.cons_prefix_cons.2 ⟨rfl, hks⟩)
      rw [hrun] at hs'
      rw [hedit]
      exact ⟨s', hs', hd⟩
    · rintro ⟨hun, hal⟩ (_ | ⟨k', ks⟩) hks
      · exact ⟨s, rfl, (enterDelivers_iff r h).2 rfl⟩
      · obtain ⟨rfl, hks'⟩ := List.cons_prefix_cons.1 hks
        have hedit := (edit_eq_iff k'.2 h hk1).2 hun
        obtain ⟨s', hs', hd⟩ := hrest.2 (hal _ hstep) ks hks'
        rw [hedit] at hd
        exact ⟨s', (hrun ks).trans hs', hd⟩

/-- From a state with nothing typed, after every part of the keys Enter delivers the line they make exactly when each
key is unhindered. -/
theorem typed_delivers (img : Image) (r : Regs) (s : Kernel) (h0 : s.counter = 0) (keys : List (UInt8 × Regs))
    (hk : ∀ k ∈ keys, IsTyping k.1) :
    (∀ ks, ks <+: keys → ∃ s', run (keyStep img) s ks = some s' ∧
      EnterDelivers img r s' (typedLine (ks.map Prod.fst))) ↔ Along (keyStep img) Unhindered s keys :=
  keys_deliver hk ⟨by rw [h0]; rfl, .nil, by simp, by simp⟩

/-- The first shell after Ctrl+L: an empty line after a prompt. -/
def prompted : Kernel := ((keyboardRead .sample 0xFF ⟨0, 0⟩ firstShell).getD (.handled, firstShell)).2

/-- `l`, `x`, a modifier, backspace and `s`. -/
theorem typed_delivers_ls :
    ∃ s', run (keyStep .sample) prompted ([108, 120, 0, 8, 115].map fun k => (k, ⟨0, 0⟩)) = some s' ∧
      EnterDelivers .sample ⟨0, 0⟩ s' [108, 115] :=
  (typed_delivers .sample ⟨0, 0⟩ prompted (by decide +kernel) ([108, 120, 0, 8, 115].map fun k => (k, ⟨0, 0⟩))
    (by unfold IsTyping; decide)).2 (by decide +kernel) _ (List.prefix_refl _)

/-- The key `a` 73 times. -/
def longLine : List (UInt8 × Regs) := List.replicate 73 (97, ⟨0, 0⟩)

/-- After a prompt of seven columns, the 73rd key comes in the last column and only breaks the screen line. -/
theorem typed_loses_key :
    typedLine (longLine.map Prod.fst) = List.replicate 73 97 ∧
      (run (keyStep .sample) prompted longLine).map (fun s => s.counter) = some 72 ∧
      ((run (keyStep .sample) prompted (longLine ++ [(10, ⟨0, 0⟩)])).map fun s => s.delivered) =
        some (List.replicate 72 97) ∧
      ¬ ∃ s', run (keyStep .sample) prompted longLine = some s' ∧
        EnterDelivers .sample ⟨0, 0⟩ s' (typedLine (longLine.map Prod.fst)) := by
  have hline : typedLine (longLine.map Prod.fst) = List.replicate 73 97 := by decide +kernel
  have hrun : ((run (keyStep .sample) prompted (longLine ++ [(10, ⟨0, 0⟩)])).map fun s => s.delivered) =
      some (List.replicate 72 97) := by decide +kernel
  refine ⟨hline, by decide +kernel, hrun, ?_⟩
  rintro ⟨s', hs', s1, hs1, -, hd⟩
  have hstep : keyStep .sample s' (10, ⟨0, 0⟩) = some (.handled, s1) := hs1
  rw [run_append, hs', Option.bind_some, run, hstep, Option.bind_some, run, Option.map_some, hd, hline] at hrun
  exact absurd hrun (by decide)

/-! ## Three terminals -/

/-- What a key that is typed makes of the line: Enter ends it. -/
def typedKey (line : List UInt8) (k : UInt8) : List UInt8 := if k = 10 then [] else applyKey line k

/-- A key is typed in the terminal that is displayed. -/
def typedIn (s : Kernel) (op : Op) (L : Lines) : Lines :=
  match op with
  | .key k _ => Function.update L s.curTerminal (typedKey (L s.curTerminal) k)
  | _ => L

/-- The kernel and the typed lines side by side. -/
def lineStep (img : Image) (x : Kernel × Lines) (op : Op) : Option (Outcome × (Kernel × Lines)) :=
  (step img x.1 op).map fun r => (r.1, (r.2, typedIn x.1 op x.2))

/-- After the step the displayed line is the one typed there, and an Enter delivers it. -/
def LineKept (img : Image) (x : Kernel × Lines) (op : Op) : Prop :=
  ∀ o s', step img x.1 op = some (o, s') →
    (s'.counter.toNat = (typedIn x.1 op x.2 s'.curTerminal).length ∧
      Holds s'.textBuf (typedIn x.1 op x.2 s'.curTerminal)) ∧
    ∀ r, op = .key 10 r → s'.entered = true ∧ s'.delivered = x.2 x.1.curTerminal

/-- A key is unhindered, and a switch to a started terminal goes between lines of the same length. -/
def KeepsLines (x : Kernel × Lines) : Op → Prop
  | .key k r => Unhindered x.1 (k, r) ∧ SameLength x (.key k r)
  | _ => True

instance decidableKeepsLines (x : Kernel × Lines) : ∀ op, Decidable (KeepsLines x op)
  | .key k r => inferInstanceAs (Decidable (Unhindered x.1 (k, r) ∧ SameLength x (.key k r)))
  | .execute .. | .halt .. | .read .. | .write .. | .open .. | .close .. | .getargs .. | .vidmap .. | .setHandler
  | .sigreturn => isTrue trivial

/-- Whatever the key, the line is edited as typed exactly when the key is unhindered. -/
theorem edit_typed_iff {s : Kernel} {line : List UInt8} (k : UInt8) (r : Regs) (h : ShowsLine s line) :
    s.edit k line = typedKey line k ↔ Unhindered s (k, r) := by
  by_cases hk : IsTyping k
  · have h10 : k ≠ 10 := by
      rintro rfl
      exact absurd hk (by unfold IsTyping; decide)
    rw [typedKey, if_neg h10]
    exact edit_eq_iff r h hk
  · obtain ⟨hprint, h8, -⟩ : ¬ (32 ≤ k ∧ k ≤ 126) ∧ k ≠ 8 ∧ k ≠ 0 := by
      unfold IsTyping at hk
      tauto
    have hun : Unhindered s (k, r) := by
      rintro (⟨h1, h2, -⟩ | ⟨h1, -⟩)
      · exact absurd ⟨h1, h2⟩ hprint
      · exact absurd h1 h8
    refine iff_of_true ?_ hun
    have hchar : ¬ (k ≥ 32 ∧ k ≤ 126 ∧ line.length < 127) := fun h => hprint ⟨h.1, h.2.1⟩
    unfold edit typedKey applyKey
    rw [if_neg h8, if_neg hprint, if_neg h8, if_neg hchar]
    split_ifs <;> simp_all

theorem typedKey_switch {s : Kernel} {k : UInt8} {t : TermNum} (h : s.switchTo k = some t) (line : List UInt8) :
    typedKey line k = line := by
  obtain ⟨-, hk, -⟩ := switchTo_some h
  rcases switchKey_eq hk with rfl | rfl | rfl <;> rfl

/-- Where keys are unhindered the typed lines are the edited ones. -/
theorem typedIn_edited {s : Kernel} {L : Lines} {op : Op} (h : KeptApart (s, L)) (hq : KeepsLines (s, L) op) :
    typedIn s op L = edited s op L := by
  cases op with
  | key k r =>
    have hedit := (edit_typed_iff k r h.shown).2 hq.1
    simp only [typedIn, edited, hedit]
  | _ => rfl

theorem KeepsLines.sameLength {x : Kernel × Lines} {op : Op} (h : KeepsLines x op) : SameLength x op := by
  cases op with
  | key k r => exact h.2
  | _ => trivial

theorem lineKept_of_keptApart {s : Kernel} {L : Lines} {op : Op} (h : KeptApart (s, L)) (hq : KeepsLines (s, L) op) :
    LineKept img (s, L) op := by
  intro o s' hs
  have hshown := (step_keptApart h hq.sameLength hs).shown
  rw [← typedIn_edited h hq] at hshown
  refine ⟨⟨hshown.position, hshown.text⟩, fun r hop => ?_⟩
  subst hop
  have hstay : s.switchTo 10 = none := switchTo_other (by decide) s
  have hr : keyboardRead img 10 r s = some (o, s') := hs
  exact (key_showsLine h.shown hstay hr).2 rfl

theorem lineKept_iff {s : Kernel} {L : Lines} (op : Op) (h : KeptApart (s, L)) :
    LineKept img (s, L) op ↔ KeepsLines (s, L) op := by
  constructor
  · intro hk
    cases op with
    | key k r =>
      rcases ht : s.switchTo k with _ | t
      · -- the line in the buffer is the edited one, so the typed one is the same
        obtain ⟨s', hs, -⟩ := @keyboardRead_stroke img k r s ht
        obtain ⟨⟨hpos, htext⟩, -⟩ := hk _ _ hs
        obtain ⟨hshown, -⟩ := key_showsLine h.shown ht hs
        have hcur : s'.curTerminal = s.curTerminal := by
          obtain ⟨-, ⟨u, -, rfl⟩ | ⟨con, textBuf, counter, entered, dev, rfl⟩⟩ := keyboardRead_stay ht hs <;> rfl
        simp only [typedIn, hcur, Function.update_self] at hpos htext
        have hline := hshown.text.unique htext (hshown.position.symm.trans hpos)
        refine ⟨(edit_typed_iff k r h.shown).1 hline, fun t' ht' => ?_⟩
        rw [ht] at ht'
        cases ht'
      · have hline := typedKey_switch ht (L s.curTerminal)
        refine ⟨(edit_typed_iff k r h.shown).1 ((edit_switch ht _).trans hline.symm), fun t' ht' hst => ?_⟩
        obtain ⟨⟨hpos, -⟩, -⟩ := hk _ _ (key_started ht' hst)
        have hsame : typedIn s (.key k r) L = L := by
          simp only [typedIn, hline, Function.update_eq_self]
        rw [hsame, enterTerminal_curTerminal, leftFor_curTerminal, switch_counter] at hpos
        exact hpos.symm.trans h.shown.position
    | _ => trivial
  · exact lineKept_of_keptApart h

theorem lineStep_keptApart {x : Kernel × Lines} {op : Op} {y : Outcome × (Kernel × Lines)} (h : KeptApart x)
    (hq : KeepsLines x op) (hy : lineStep img x op = some y) : KeptApart y.2 := by
  obtain ⟨⟨o, s'⟩, hs, rfl⟩ := Option.map_eq_some_iff.1 hy
  show KeptApart (s', typedIn x.1 op x.2)
  rw [typedIn_edited h hq]
  exact step_keptApart h hq.sameLength hs

/-- From any state with nothing typed yet, in every run each terminal's line is what was typed there,
and is delivered by its Enter, exactly when every key is unhindered and every switch to a started
terminal goes between lines of the same length. -/
theorem lines_run (img : Image) (s : Kernel) (hc : s.started s.curTerminal = true) (h0 : s.counter = 0)
    (ops : List Op) :
    Along (lineStep img) (LineKept img) (s, fun _ => []) ops ↔ Along (lineStep img) KeepsLines (s, fun _ => []) ops := by
  exact along_iff (I := KeptApart) (fun _ op h => lineKept_iff op h) (fun _ _ _ h hq hy => lineStep_keptApart h hq hy)
    (keptApart_start hc h0)

/-- All three shells are started, and terminal 1 is displayed. -/
def allStarted : Kernel :=
  (run (step .sample) boot [.execute (some shell) ⟨0, 0⟩, .key 0xF6 ⟨0, 0⟩, .key 0xF7 ⟨0, 0⟩, .key 0xF5 ⟨0, 0⟩]).getD boot

/-- A keystroke. -/
def type (k : UInt8) : Op := .key k ⟨0, 0⟩

/-- `ls` and Enter in terminal 1, then `x`, BACKSPACE, `y` and Enter in terminal 2. -/
theorem lines_run_in_turn :
    Along (lineStep .sample) (LineKept .sample) (allStarted, fun _ => [])
      [type 108, type 115, type 10, type 0xF6, type 120, type 8, type 121, type 10] :=
  (lines_run .sample allStarted (by decide +kernel) (by decide +kernel) _).2 (by decide +kernel)

/-- `ab` in terminal 1, `x` in terminal 2, and back in terminal 1 `c`. -/
def interleaved : List Op := [type 97, type 98, type 0xF6, type 120, type 0xF5, type 99]

/-- Enter then delivers `ab`, a NUL and `c` instead of `abc`. -/
theorem interleaved_line_broken :
    ∃ x, run (lineStep .sample) (allStarted, fun _ => []) interleaved = some x ∧
      x.1.curTerminal = .t1 ∧ x.2 .t1 = [97, 98, 99] ∧
      (step .sample x.1 (type 10)).map (fun y => y.2.delivered) = some [97, 98, 0, 99] ∧
      ¬ LineKept .sample x (type 10) := by
  have hcur : ((run (lineStep .sample) (allStarted, fun _ => []) interleaved).getD (allStarted, fun _ => [])).1.curTerminal =
      .t1 := by decide +kernel
  have hline : ((run (lineStep .sample) (allStarted, fun _ => []) interleaved).getD (allStarted, fun _ => [])).2 .t1 =
      [97, 98, 99] := by decide +kernel
  have hdel : (step .sample ((run (lineStep .sample) (allStarted, fun _ => []) interleaved).getD
      (allStarted, fun _ => [])).1 (type 10)).map (fun y => y.2.delivered) = some [97, 98, 0, 99] := by decide +kernel
  refine ⟨_, run_getD (by decide +kernel), hcur, hline, hdel, fun hk => ?_⟩
  obtain ⟨⟨o, s'⟩, hs, hd⟩ := Option.map_eq_some_iff.1 hdel
  have hbad := ((hk o s' hs).2 _ rfl).2
  rw [hcur, hline] at hbad
  rw [hbad] at hd
  exact absurd hd (by decide)

end Kernel

end Os391
