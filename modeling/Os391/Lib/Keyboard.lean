/-
The keyboard driver of `keyboard.c`: the table of codes, the modifier flags and the value that
`read_keyboard` passes to `keyboard_read`. What C leaves open is a parameter of each interrupt: the bytes
behind the table, which a scancode of 90 or more reads, and the value of `charval` before it is assigned.
-/
import Os391.Lib.Str
import Mathlib.Tactic

namespace Os391

namespace Keyboard

/-! ## Codes -/

/-- `key_codes`. -/
def keyCodes : List UInt8 :=
  [0, 27] ++ ascii ['1', '2', '3', '4', '5', '6', '7', '8', '9', '0', '-', '='] ++ [8, 9] ++
    ascii ['q', 'w', 'e', 'r', 't', 'y', 'u', 'i', 'o', 'p', '[', ']'] ++ [10, 65] ++
    ascii ['a', 's', 'd', 'f', 'g', 'h', 'j', 'k', 'l', ';', '\'', '`'] ++ [66] ++
    ascii ['\\', 'z', 'x', 'c', 'v', 'b', 'n', 'm', ',', '.', '/'] ++ [67] ++ ascii ['*'] ++ [68] ++ ascii [' '] ++
    -- `CAPS`, then `F1` to `F10`
    [69, 70, 71, 72, 73, 74, 75, 76, 77, 78, 79] ++
    -- `NUM_LOCK`, `SCROLL_LOCK`, `HOME`, `UP`, `PAGE_UP`, then the keypad up to `DELETE`
    [80, 81, 81, 83, 84] ++ ascii ['-'] ++ [85, 86, 87] ++ ascii ['+'] ++ [88, 89, 90, 91, 92] ++
    -- three unknown keys, `F11`, `F12` and the last entry
    [93, 94, 95, 33, 34, 35]

/-- What C leaves open at one interrupt: the bytes behind `key_codes` and the value of `charval` before it
is assigned. -/
structure Open where
  past : UInt8 → UInt8
  charval : UInt8

/-- `key_codes[scancode]`. -/
def keyCode (o : Open) (scancode : UInt8) : UInt8 :=
  (keyCodes[scancode.toNat]?).getD (o.past scancode)

/-- The cases of `shift`. -/
def shiftCases : List (UInt8 × UInt8) :=
  (ascii ['`', '1', '2', '3', '4', '5', '6', '7', '8', '9', '0', '-', '=', '[', ']', '\\', ';', '\'', ',', '.', '/']).zip
    (ascii ['~', '!', '@', '#', '$', '%', '^', '&', '*', '(', ')', '_', '+', '\x7b', '\x7d', '|', ':', '"', '<', '>', '?'])

/-- `shift`. -/
def shift (c : UInt8) : UInt8 := (shiftCases.lookup c).getD c

/-! ## read_keyboard -/

/-- The flags of the driver. They hold 0 or 1. -/
structure Flags where
  shift : Bool
  alt : Bool
  caps : Bool
  ctrl : Bool
  lShift : Bool
  rShift : Bool
  deriving DecidableEq

/-- The flags at boot. -/
def Flags.boot : Flags := ⟨false, false, false, false, false, false⟩

/-- The branch of `read_keyboard` for a character: with control down, only `c` and `l` assign `charval`. -/
def character (f : Flags) (code charval : UInt8) : UInt8 :=
  if f.ctrl then if code = 99 then 0xF8 else if code = 108 then 0xFF else charval
  else if code ≤ 122 ∧ code ≥ 97 then if f.shift = f.caps then code else code - 32
  else if (code ≥ 39 ∧ code ≤ 64) ∨ (code ≥ 91 ∧ code ≤ 96) then if f.shift then Keyboard.shift code else code
  else 0

/-- The branch of `read_keyboard` for a press: the flags and `charval`. -/
def press (f : Flags) (code charval : UInt8) : Flags × UInt8 :=
  if code = 66 then ({ f with lShift := true, shift := true }, 0)
  else if code = 67 then ({ f with rShift := true, shift := true }, 0)
  else if code = 68 then ({ f with alt := true }, if f.ctrl then 0xF9 else 0)
  else if code = 65 then ({ f with ctrl := true }, 0)
  else if code = 69 then ({ f with caps := !f.caps }, 0)
  else if f.alt ∧ code ≥ 70 ∧ code ≤ 72 then
    (f, if code = 70 then 0xF5 else if code = 71 then 0xF6 else if code = 72 then 0xF7 else charval)
  else if code ≥ 39 ∧ code ≤ 122 then (f, character f code charval)
  else (f, code)

/-- The branch of `read_keyboard` for a release. -/
def release (f : Flags) (scancode : UInt8) : Flags × UInt8 :=
  let f :=
    if scancode = 0xAA then { f with lShift := false }
    else if scancode = 0xB6 then { f with rShift := false }
    else if scancode = 0x9D then { f with ctrl := false }
    else if scancode = 0xB8 then { f with alt := false }
    else f
  ({ f with shift := f.lShift || f.rShift }, 0)

/-- `read_keyboard` up to its call of `keyboard_read`: the flags and the value passed. -/
def decode (f : Flags) (scancode : UInt8) (o : Open) : Flags × UInt8 :=
  if scancode < 0x80 then press f (keyCode o scancode) o.charval else release f scancode

/-- The flags after a list of interrupts. -/
def flagsAfter (f : Flags) (events : List (UInt8 × Open)) : Flags :=
  events.foldl (fun f e => (decode f e.1 e.2).1) f

/-- The values passed to `keyboard_read` in a list of interrupts. -/
def passed (f : Flags) : List (UInt8 × Open) → List UInt8
  | [] => []
  | e :: events => (decode f e.1 e.2).2 :: passed (decode f e.1 e.2).1 events

/-! ## What is held -/

/-- A key that sends one byte when it is pressed and another when it is released. -/
structure Key where
  press : UInt8
  release : UInt8
  apart : press ≠ release

def leftShift : Key := ⟨42, 0xAA, by decide⟩

def rightShift : Key := ⟨54, 0xB6, by decide⟩

def control : Key := ⟨29, 0x9D, by decide⟩

def alt : Key := ⟨56, 0xB8, by decide⟩

/-- The byte of a caps lock press. -/
def capsLock : UInt8 := 58

/-- The latest of a key's bytes is a press. -/
def Key.Held (k : Key) (bytes : List UInt8) : Prop :=
  (bytes.filter fun b => b = k.press ∨ b = k.release).getLast? = some k.press

instance Key.decidableHeld (k : Key) (bytes : List UInt8) : Decidable (k.Held bytes) := inferInstanceAs (Decidable (_ = _))

theorem Key.not_held_nil (k : Key) : ¬ k.Held [] := by
  simp [Held]

theorem Key.held_concat (k : Key) (bytes : List UInt8) (b : UInt8) :
    k.Held (bytes ++ [b]) ↔ b = k.press ∨ (b ≠ k.release ∧ k.Held bytes) := by
  unfold Held
  rw [List.filter_append]
  by_cases hp : b = k.press
  · subst hp
    simp
  by_cases hr : b = k.release
  · subst hr
    simp [k.apart.symm]
  · simp [hp, hr]

/-- The flags say what is held: each modifier its latest byte, `shift_flag` either shift key, and `caps_flag` the
parity of the caps lock presses. -/
structure Tracks (f : Flags) (bytes : List UInt8) : Prop where
  lShift : f.lShift = true ↔ leftShift.Held bytes
  rShift : f.rShift = true ↔ rightShift.Held bytes
  shift : f.shift = (f.lShift || f.rShift)
  alt : f.alt = true ↔ Keyboard.alt.Held bytes
  ctrl : f.ctrl = true ↔ control.Held bytes
  caps : f.caps = true ↔ Odd (bytes.count capsLock)

theorem tracks_boot : Tracks .boot [] where
  lShift := by simp [Flags.boot, Key.not_held_nil]
  rShift := by simp [Flags.boot, Key.not_held_nil]
  shift := rfl
  alt := by simp [Flags.boot, Key.not_held_nil]
  ctrl := by simp [Flags.boot, Key.not_held_nil]
  caps := by simp [Flags.boot]

/-- The bytes at which a press or a release of a key may arrive: those of the table, and the releases. -/
def Listed (b : UInt8) : Prop := b < 90 ∨ 0x80 ≤ b

instance decidableListed (b : UInt8) : Decidable (Listed b) := inferInstanceAs (Decidable (_ ∨ _))

theorem keyCode_eq {b : UInt8} (hb : b < 90) (o o' : Open) : keyCode o b = keyCode o' b := by
  have hlen : b.toNat < keyCodes.length := UInt8.lt_iff_toNat_lt.1 hb
  unfold keyCode
  rw [List.getElem?_eq_getElem hlen]
  rfl

/-- A property of the bytes of the table is decided entry by entry. -/
instance decidableTable (P : UInt8 → Prop) [DecidablePred P] : Decidable (∀ b : UInt8, b < 90 → P b) :=
  decidable_of_iff (∀ n : Fin 90, P (UInt8.ofNat n))
    ⟨fun h b hb => by simpa using h ⟨b.toNat, UInt8.lt_iff_toNat_lt.1 hb⟩,
      fun h n => h _ (UInt8.lt_iff_toNat_lt.2 (by simpa using by omega))⟩

/-- The modifier codes stand in the table once each. -/
theorem keyCode_modifier {b : UInt8} (hb : b < 90) (o : Open) :
    (keyCode o b = 66 ↔ b = leftShift.press) ∧ (keyCode o b = 67 ↔ b = rightShift.press) ∧
      (keyCode o b = 68 ↔ b = Keyboard.alt.press) ∧ (keyCode o b = 65 ↔ b = control.press) ∧
      (keyCode o b = 69 ↔ b = capsLock) := by
  rw [keyCode_eq hb o ⟨fun _ => 0, 0⟩]
  revert hb b
  decide +kernel

/-- What a press does to the flags. -/
theorem press_flags (f : Flags) (code charval : UInt8) :
    (press f code charval).1 =
      { shift := f.shift || code = 66 || code = 67, alt := f.alt || code = 68, caps := f.caps ^^ code = 69
        ctrl := f.ctrl || code = 65, lShift := f.lShift || code = 66, rShift := f.rShift || code = 67 } := by
  obtain ⟨shift, alt, caps, ctrl, lShift, rShift⟩ := f
  unfold press
  split_ifs <;> simp_all

/-- What a release does to them. -/
theorem release_flags (f : Flags) (scancode : UInt8) :
    (release f scancode).1 =
      { shift := (f.lShift && scancode ≠ 0xAA) || (f.rShift && scancode ≠ 0xB6), alt := f.alt && scancode ≠ 0xB8
        caps := f.caps, ctrl := f.ctrl && scancode ≠ 0x9D, lShift := f.lShift && scancode ≠ 0xAA
        rShift := f.rShift && scancode ≠ 0xB6 } := by
  obtain ⟨shift, alt, caps, ctrl, lShift, rShift⟩ := f
  unfold release
  split_ifs <;> simp_all

theorem Tracks.press {f : Flags} {bytes : List UInt8} {b : UInt8} (h : Tracks f bytes) (hb : b < 90) (o : Open) :
    Tracks (press f (keyCode o b) o.charval).1 (bytes ++ [b]) := by
  obtain ⟨h66, h67, h68, h65, h69⟩ := keyCode_modifier hb o
  have hlow : ∀ c : UInt8, 0x80 ≤ c → b ≠ c := by
    rintro c hc rfl
    exact absurd (UInt8.lt_of_lt_of_le hb (by decide : (90 : UInt8) ≤ 0x80)) (UInt8.not_lt.2 hc)
  have held : ∀ k : Key, 0x80 ≤ k.release → (k.Held (bytes ++ [b]) ↔ k.Held bytes ∨ b = k.press) := by
    intro k hk
    rw [k.held_concat, or_comm]
    simp [hlow _ hk]
  rw [press_flags]
  constructor
  case lShift => rw [held _ (by decide)]; simp [h.lShift, h66]
  case rShift => rw [held _ (by decide)]; simp [h.rShift, h67]
  case shift =>
    show (f.shift || _ || _) = ((f.lShift || _) || (f.rShift || _))
    rw [h.shift]
    ac_rfl
  case alt => rw [held _ (by decide)]; simp [h.alt, h68]
  case ctrl => rw [held _ (by decide)]; simp [h.ctrl, h65]
  case caps =>
    rw [List.count_append, List.count_singleton]
    by_cases hc : b = capsLock
    · rw [if_pos (by simpa using hc), Nat.odd_add_one, ← h.caps]
      simp [h69.2 hc]
    · rw [if_neg (by simpa using hc), Nat.add_zero, ← h.caps]
      simp [mt h69.1 hc]

theorem Tracks.release {f : Flags} {bytes : List UInt8} {b : UInt8} (h : Tracks f bytes) (hb : 0x80 ≤ b) :
    Tracks (release f b).1 (bytes ++ [b]) := by
  have held : ∀ k : Key, k.press < 0x80 → (k.Held (bytes ++ [b]) ↔ k.Held bytes ∧ b ≠ k.release) := by
    intro k hk
    have hp : b ≠ k.press := by
      rintro rfl
      exact absurd hb (UInt8.not_le.2 hk)
    rw [k.held_concat, and_comm]
    simp [hp]
  rw [release_flags]
  constructor
  case lShift => rw [held _ (by decide)]; simp [h.lShift, leftShift]
  case rShift => rw [held _ (by decide)]; simp [h.rShift, rightShift]
  case shift => rfl
  case alt => rw [held _ (by decide)]; simp [h.alt, Keyboard.alt]
  case ctrl => rw [held _ (by decide)]; simp [h.ctrl, control]
  case caps =>
    have hc : b ≠ capsLock := by
      rintro rfl
      exact absurd hb (by decide)
    simp [h.caps, List.count_append, hc]

/-- One interrupt. -/
theorem Tracks.decode {f : Flags} {bytes : List UInt8} {b : UInt8} (h : Tracks f bytes) (hb : Listed b) (o : Open) :
    Tracks (decode f b o).1 (bytes ++ [b]) := by
  unfold Keyboard.decode
  rcases hb with hb | hb
  · rw [if_pos (UInt8.lt_trans hb (by decide))]
    exact h.press hb o
  · rw [if_neg (UInt8.not_lt.2 hb)]
    exact h.release hb

/-- Any number of interrupts. -/
theorem Tracks.flagsAfter {events : List (UInt8 × Open)} (hb : ∀ e ∈ events, Listed e.1) {f : Flags}
    {bytes : List UInt8} (h : Tracks f bytes) : Tracks (flagsAfter f events) (bytes ++ events.map Prod.fst) := by
  induction events generalizing f bytes with
  | nil => simpa [Keyboard.flagsAfter] using h
  | cons e events ih =>
    have hstep := h.decode (hb e (List.mem_cons_self ..)) e.2
    simpa [Keyboard.flagsAfter] using ih (fun e' he => hb e' (List.mem_cons_of_mem _ he)) hstep

/-- A letter pressed with control up. -/
theorem decode_letter {f : Flags} {b : UInt8} (hb : b < 90) (o : Open) (hl : 97 ≤ keyCode o b ∧ keyCode o b ≤ 122)
    (hc : f.ctrl = false) :
    decode f b o = (f, if f.shift = f.caps then keyCode o b else keyCode o b - 32) := by
  obtain ⟨hlo, hhi⟩ := hl
  have hne : ∀ c : UInt8, c < 97 → keyCode o b ≠ c := by
    rintro c hc' h
    exact absurd hlo (UInt8.not_le.2 (h ▸ hc'))
  have hfn : ¬ (f.alt = true ∧ keyCode o b ≥ 70 ∧ keyCode o b ≤ 72) := fun h =>
    absurd (UInt8.le_trans hlo h.2.2) (by decide)
  rw [decode, if_pos (UInt8.lt_trans hb (by decide)), press, if_neg (hne _ (by decide)), if_neg (hne _ (by decide)),
    if_neg (hne _ (by decide)), if_neg (hne _ (by decide)), if_neg (hne _ (by decide)), if_neg hfn,
    if_pos ⟨UInt8.le_trans (by decide) hlo, hhi⟩, character, if_neg (by simp [hc]), if_pos ⟨hhi, hlo⟩]

/-- From boot the flags track the keys, and a letter is upper case when one of shift and caps lock is in force. -/
theorem flags_boot (events : List (UInt8 × Open)) (hb : ∀ e ∈ events, Listed e.1) :
    let f := flagsAfter .boot events
    let bytes := events.map Prod.fst
    (f.shift = true ↔ leftShift.Held bytes ∨ rightShift.Held bytes) ∧ (f.ctrl = true ↔ control.Held bytes) ∧
      (f.alt = true ↔ Keyboard.alt.Held bytes) ∧ (f.caps = true ↔ Odd (bytes.count capsLock)) ∧
      ∀ (b : UInt8) (o : Open), b < 90 → 97 ≤ keyCode o b ∧ keyCode o b ≤ 122 → ¬ control.Held bytes →
        let charval := (decode f b o).2
        (charval = keyCode o b ∨ charval = keyCode o b - 32) ∧
          (charval = keyCode o b - 32 ↔
            Xor (leftShift.Held bytes ∨ rightShift.Held bytes) (Odd (bytes.count capsLock))) := by
  intro f bytes
  have h : Tracks f bytes := tracks_boot.flagsAfter hb
  have hshift : f.shift = true ↔ leftShift.Held bytes ∨ rightShift.Held bytes := by
    rw [h.shift, Bool.or_eq_true, h.lShift, h.rShift]
  refine ⟨hshift, h.ctrl, h.alt, h.caps, ?_⟩
  intro b o hb' hl hc
  rw [decode_letter hb' o hl (by simpa using mt h.ctrl.1 hc), ← hshift, ← h.caps]
  have hne : keyCode o b ≠ keyCode o b - 32 := by
    intro he
    have := congrArg UInt8.toNat he
    rw [UInt8.toNat_sub_of_le _ _ (UInt8.le_trans (by decide) hl.1)] at this
    have h97 := UInt8.le_iff_toNat_le.1 hl.1
    have h32 : (32 : UInt8).toNat = 32 := rfl
    have : (97 : UInt8).toNat = 97 := rfl
    omega
  cases f.shift <;> cases f.caps <;> simp [Xor, hne]

/-- Left shift down, caps lock, left shift up: `a` is upper case. -/
theorem flags_boot_caps :
    let o : Open := ⟨fun _ => 0, 0⟩
    let events := [(42, o), (58, o), (0xAA, o)]
    (∀ e ∈ events, Listed e.1) ∧ (flagsAfter .boot events).shift = false ∧ (flagsAfter .boot events).caps = true ∧
      (decode (flagsAfter .boot events) 30 o).2 = 65 := by
  intro o events
  have hb : ∀ e ∈ events, Listed e.1 := by decide
  obtain ⟨hshift, -, -, hcaps, hletter⟩ := flags_boot events hb
  have hcode : keyCode o 30 = 97 := by decide
  obtain ⟨-, hupper⟩ := hletter 30 o (by decide) (by decide) (by decide)
  refine ⟨hb, ?_, hcaps.2 (by decide), (hupper.2 ?_).trans (by decide)⟩
  · rw [← Bool.not_eq_true, hshift]
    decide
  · exact Or.inr ⟨by decide, by decide⟩

/-! ## What C leaves open -/

/-- The entry of the table. -/
def tableCode (b : UInt8) : UInt8 := keyCodes.getD b.toNat 0

/-- The byte is the press of a key that the branch for characters sees: its code is between `'` and `z` and is
not a modifier's. -/
def IsCharacter (b : UInt8) : Prop :=
  b < 90 ∧ 39 ≤ tableCode b ∧ tableCode b ≤ 122 ∧ ¬ (65 ≤ tableCode b ∧ tableCode b ≤ 69)

/-- The byte is in the table or a release; with control down, a character key is `c`, `l`, or one of `F1` to `F3`
with alt down. -/
def Assigned (ctrl alt : Prop) (b : UInt8) : Prop :=
  Listed b ∧ (ctrl → IsCharacter b → tableCode b = 99 ∨ tableCode b = 108 ∨
    (alt ∧ 70 ≤ tableCode b ∧ tableCode b ≤ 72))

theorem keyCode_table {b : UInt8} (hb : b < 90) (o : Open) : keyCode o b = tableCode b := by
  have hlen : b.toNat < keyCodes.length := UInt8.lt_iff_toNat_lt.1 hb
  rw [keyCode, tableCode, List.getD_eq_getElem?_getD, List.getElem?_eq_getElem hlen]
  rfl

theorem keyCode_past {b : UInt8} (hb : ¬ b < 90) (o : Open) : keyCode o b = o.past b := by
  have hlen : keyCodes.length ≤ b.toNat := UInt8.le_iff_toNat_le.1 (UInt8.not_lt.1 hb)
  rw [keyCode, List.getElem?_eq_none hlen]
  rfl

/-- A press reads `charval` in the branch for characters alone. -/
theorem press_congr {f : Flags} {c v v' : UInt8}
    (h : 39 ≤ c → c ≤ 122 → c ≠ 65 ∧ c ≠ 66 ∧ c ≠ 67 ∧ c ≠ 68 ∧ c ≠ 69 → ¬ (f.alt = true ∧ 70 ≤ c ∧ c ≤ 72) →
      character f c v = character f c v') : press f c v = press f c v' := by
  by_cases hfn : f.alt = true ∧ 70 ≤ c ∧ c ≤ 72
  · obtain ⟨halt, hlo, hhi⟩ := hfn
    have h3 : c = 70 ∨ c = 71 ∨ c = 72 := by grind
    rcases h3 with rfl | rfl | rfl <;> simp [press, halt]
  · rw [press, press, if_neg hfn, if_neg hfn]
    split_ifs with h66 h67 h68 hctrl h65 h69 hch
    all_goals first
      | rfl
      | exact congrArg (Prod.mk f) (h hch.1 hch.2 ⟨h65, h66, h67, h68, h69⟩ hfn)

/-- The branch for characters. -/
theorem press_character {f : Flags} {c : UInt8} (v : UInt8) (hlo : 39 ≤ c) (hhi : c ≤ 122)
    (hmod : ¬ (65 ≤ c ∧ c ≤ 69)) (hfn : ¬ (f.alt = true ∧ 70 ≤ c ∧ c ≤ 72)) :
    press f c v = (f, character f c v) := by
  have hne : ∀ d : UInt8, 65 ≤ d → d ≤ 69 → c ≠ d := by
    rintro d h1 h2 rfl
    exact hmod ⟨h1, h2⟩
  rw [press, if_neg (hne _ (by decide) (by decide)), if_neg (hne _ (by decide) (by decide)),
    if_neg (hne _ (by decide) (by decide)), if_neg (hne _ (by decide) (by decide)),
    if_neg (hne _ (by decide) (by decide)), if_neg hfn, if_pos ⟨hlo, hhi⟩]

/-- What is assigned does not depend on what C leaves open. -/
theorem decode_assigned {f : Flags} {b : UInt8} (h : Assigned (f.ctrl = true) (f.alt = true) b) (o o' : Open) :
    decode f b o = decode f b o' := by
  obtain ⟨hb, hch⟩ := h
  unfold decode
  rcases hb with hb | hb
  · rw [if_pos (UInt8.lt_trans hb (by decide)), if_pos (UInt8.lt_trans hb (by decide)), keyCode_table hb,
      keyCode_table hb]
    refine press_congr fun hlo hhi hmod hfn => ?_
    have hmod' : ¬ (65 ≤ tableCode b ∧ tableCode b ≤ 69) := by
      obtain ⟨h1, h2, h3, h4, h5⟩ := hmod
      rintro ⟨h65, h69⟩
      grind
    unfold character
    by_cases hc : f.ctrl = true
    · rw [if_pos hc, if_pos hc]
      rcases hch hc ⟨hb, hlo, hhi, hmod'⟩ with h | h | h
      · rw [h]; rfl
      · rw [h]; rfl
      · exact absurd h hfn
    · rw [if_neg hc, if_neg hc]
  · rw [if_neg (UInt8.not_lt.2 hb), if_neg (UInt8.not_lt.2 hb)]

/-- The byte `c` in every place that C leaves open. -/
def fill (c : UInt8) : Open := ⟨fun _ => c, c⟩

/-- What is not assigned is what C leaves open. -/
theorem decode_open {f : Flags} {b : UInt8} (h : ¬ Assigned (f.ctrl = true) (f.alt = true) b) {c : UInt8}
    (hc : c < 39) : (decode f b (fill c)).2 = c := by
  unfold Assigned at h
  by_cases hb : Listed b
  · obtain ⟨hctrl, hch, h99, h108, hfn⟩ : f.ctrl = true ∧ IsCharacter b ∧ tableCode b ≠ 99 ∧ tableCode b ≠ 108 ∧
        ¬ (f.alt = true ∧ 70 ≤ tableCode b ∧ tableCode b ≤ 72) := by
      simpa [hb, not_or] using h
    obtain ⟨hlt, hlo, hhi, hmod⟩ := hch
    rw [decode, if_pos (UInt8.lt_trans hlt (by decide)), keyCode_table hlt, press_character _ hlo hhi hmod hfn,
      character, if_pos hctrl, if_neg h99, if_neg h108]
    rfl
  · obtain ⟨hlt, hge⟩ := not_or.1 hb
    have hne : ∀ d : UInt8, 39 ≤ d → c ≠ d := by
      rintro d hd rfl
      exact absurd hd (UInt8.not_le.2 hc)
    rw [decode, if_pos (UInt8.not_le.1 hge), keyCode_past hlt]
    show (press f c c).2 = c
    rw [press, if_neg (hne _ (by decide)), if_neg (hne _ (by decide)), if_neg (hne _ (by decide)),
      if_neg (hne _ (by decide)), if_neg (hne _ (by decide)),
      if_neg fun h => absurd (UInt8.le_trans (by decide) h.2.1) (UInt8.not_le.2 hc),
      if_neg fun h => absurd h.1 (UInt8.not_le.2 hc)]

/-- The values passed in a list of interrupts are those of its bytes. -/
def PassedByBytes (f : Flags) (bytes : List UInt8) : Prop :=
  ∀ events events' : List (UInt8 × Open), events.map Prod.fst = bytes → events'.map Prod.fst = bytes →
    passed f events = passed f events'

theorem map_fst_pair (bytes : List UInt8) (o : Open) : (bytes.map fun b => (b, o)).map Prod.fst = bytes := by
  simp [Function.comp_def]

theorem passedByBytes_cons {f : Flags} {b : UInt8} {bytes : List UInt8} :
    PassedByBytes f (b :: bytes) ↔
      Assigned (f.ctrl = true) (f.alt = true) b ∧ PassedByBytes (decode f b (fill 0)).1 bytes := by
  constructor
  · intro h
    have hb : Assigned (f.ctrl = true) (f.alt = true) b := by
      by_contra hn
      have hmap := congrArg (List.cons b) (map_fst_pair bytes (fill 0))
      have hhead := (List.cons.inj (h ((b, fill 0) :: _) ((b, fill 1) :: _) hmap hmap)).1
      rw [decode_open hn (by decide), decode_open hn (by decide)] at hhead
      exact absurd hhead (by decide)
    refine ⟨hb, fun events events' he he' => ?_⟩
    have := h ((b, fill 0) :: events) ((b, fill 0) :: events') (by simp [he]) (by simp [he'])
    exact (List.cons.inj this).2
  · rintro ⟨hb, h⟩ (_ | ⟨e, events⟩) (_ | ⟨e', events'⟩) he he'
    case cons.cons =>
      obtain ⟨hb1, he1⟩ := List.cons.inj he
      obtain ⟨hb2, he2⟩ := List.cons.inj he'
      show (decode f e.1 e.2).2 :: _ = (decode f e'.1 e'.2).2 :: _
      rw [hb1, hb2, decode_assigned hb e.2 (fill 0), decode_assigned hb e'.2 (fill 0), h events events' he1 he2]
    all_goals cases he <;> cases he'

/-- The same, by what is held at each byte. -/
theorem Tracks.passedByBytes {f : Flags} {before bytes : List UInt8} (h : Tracks f before) :
    PassedByBytes f bytes ↔ ∀ l b, l ++ [b] <+: bytes →
      Assigned (control.Held (before ++ l)) (Keyboard.alt.Held (before ++ l)) b := by
  induction bytes generalizing f before with
  | nil =>
    constructor
    · intro _ l b hl
      simp at hl
    · rintro - events events' he he'
      rw [List.map_eq_nil_iff] at he he'
      rw [he, he']
  | cons b bytes ih =>
    have hhead : Assigned (f.ctrl = true) (f.alt = true) b ↔
        Assigned (control.Held before) (Keyboard.alt.Held before) b := by
      rw [Assigned, Assigned, h.ctrl, h.alt]
    rw [passedByBytes_cons, hhead]
    constructor
    · rintro ⟨hb, hrest⟩ (_ | ⟨b', l⟩) c hl
      · obtain ⟨rfl, -⟩ := List.cons_prefix_cons.1 hl
        rwa [List.append_nil]
      · obtain ⟨rfl, hl'⟩ := List.cons_prefix_cons.1 hl
        have hassigned := (ih (h.decode hb.1 _)).1 hrest l c hl'
        rwa [List.append_assoc] at hassigned
    · intro hall
      have hb := hall [] b (by simp)
      rw [List.append_nil] at hb
      refine ⟨hb, (ih (h.decode hb.1 _)).2 fun l c hl => ?_⟩
      have hassigned := hall (b :: l) c (List.cons_prefix_cons.2 ⟨rfl, hl⟩)
      rwa [List.append_assoc]

/-- From boot, the values passed are determined by the bytes exactly when each byte is in the table or a release
and none is a character key pressed with control down, `c`, `l` and the keys of the terminals apart. -/
theorem passedByBytes_boot (bytes : List UInt8) :
    PassedByBytes .boot bytes ↔
      ∀ l b, l ++ [b] <+: bytes → Assigned (control.Held l) (Keyboard.alt.Held l) b :=
  tracks_boot.passedByBytes

/-- `a` with control down: what is passed is what the stack held. -/
theorem control_a :
    let events := fun c : UInt8 => [(29, fill 0), (30, ⟨fun _ => 0, c⟩)]
    (∀ c, (events c).map Prod.fst = [29, 30]) ∧ passed .boot (events 0) = [0, 0] ∧
      passed .boot (events 100) = [0, 100] ∧ ¬ PassedByBytes .boot [29, 30] := by
  intro events
  have h0 : passed .boot (events 0) = [0, 0] := by decide +kernel
  have h1 : passed .boot (events 100) = [0, 100] := by decide +kernel
  refine ⟨fun _ => rfl, h0, h1, fun h => ?_⟩
  have hsame := h (events 0) (events 100) rfl rfl
  rw [h0, h1] at hsame
  exact absurd hsame (by decide)

end Keyboard

end Os391
