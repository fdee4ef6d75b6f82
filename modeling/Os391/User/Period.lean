/-
How long a blinking character shows each of its two. The tasklet takes one from `countdown` and asks with sign whether
anything is left, so a length over 0x8000 lasts for one tick.
-/
import Os391.User.Screen

namespace Os391

open X86 Chain Machine

/-! ## Lengths -/

/-- The ticks that a length stands for: a length of 0 is one of 1. -/
def asked (length : UInt16) : Nat := max length.toNat 1

/-- The ticks for which a `countdown` that starts at a length lasts. -/
def ticks (length : UInt16) : Nat := if length.toNat ≤ 0x8000 then asked length else 1

theorem ticks_pos (length : UInt16) : 0 < ticks length := by
  unfold ticks asked
  split_ifs <;> omega

theorem ticks_of_le {length : UInt16} (h : length.toNat ≤ 0x8000) : ticks length = asked length := if_pos h

theorem ticks_of_gt {length : UInt16} (h : 0x8000 < length.toNat) : ticks length = 1 := if_neg (Nat.not_le_of_lt h)

theorem flips_iff_toNat (b : BlinkStruct) : b.flips = true ↔ ¬ (2 ≤ b.countdown.toNat ∧ b.countdown.toNat ≤ 0x8000) := by
  have hg := Flags.g_cmp_zero (b.countdown - 1).toBitVec
  have hlt := b.countdown.toNat_lt
  have hsub : (b.countdown - 1).toBitVec.toNat = (2 ^ 16 - 1 + b.countdown.toNat) % 2 ^ 16 := UInt16.toNat_sub _ _
  rw [BitVec.toInt_eq_toNat_cond, hsub] at hg
  rw [BlinkStruct.flips, Bool.not_eq_true', ← Bool.not_eq_true]
  refine not_congr (hg.trans ?_)
  split_ifs <;> omega

/-- The last tick of a `countdown` is the one that changes the status bit. -/
theorem flips_iff (b : BlinkStruct) : b.flips = true ↔ ticks b.countdown = 1 := by
  rw [flips_iff_toNat, ticks, asked]
  split_ifs <;> omega

/-- Any other tick takes one away. -/
theorem ticks_sub_one {b : BlinkStruct} (h : ¬ b.flips = true) : ticks (b.countdown - 1) + 1 = ticks b.countdown := by
  rw [flips_iff_toNat, not_not] at h
  have hle : (1 : UInt16) ≤ b.countdown := UInt16.le_iff_toNat_le.2 (Nat.le_of_lt h.1)
  have hsub : (b.countdown - 1).toNat = b.countdown.toNat - 1 := UInt16.toNat_sub_of_le _ _ hle
  rw [ticks, ticks, asked, asked, hsub, if_pos h.2, if_pos (by omega)]
  omega

/-! ## Phases -/

/-- The ticks after which an element is where it began. -/
def period (arg : BlinkStruct) : Nat := ticks arg.onLength + ticks arg.offLength

/-- The state of an element so many ticks after it was put in. -/
structure InPhase (arg : BlinkStruct) (t : Nat) (b : BlinkStruct) : Prop where
  location : b.location = arg.location
  onChar : b.onChar = arg.onChar
  offChar : b.offChar = arg.offChar
  onLength : b.onLength = arg.onLength
  offLength : b.offLength = arg.offLength
  on : b.status &&& 1 = 1 ↔ t % period arg < ticks arg.onLength
  onLeft : t % period arg < ticks arg.onLength → ticks b.countdown + t % period arg = ticks arg.onLength
  offLeft : ticks arg.onLength ≤ t % period arg → ticks b.countdown + t % period arg = period arg

theorem InPhase.start (arg : BlinkStruct) : InPhase arg 0 { arg with status := 1, countdown := arg.onLength } := by
  have hpos := ticks_pos arg.onLength
  refine ⟨rfl, rfl, rfl, rfl, rfl, ?_, fun _ => ?_, fun hle => ?_⟩ <;> rw [Nat.zero_mod] at *
  · exact iff_of_true (show (1 : UInt16) &&& 1 = 1 by decide) hpos
  · rw [Nat.add_zero]
  · exact absurd hpos (Nat.not_lt_of_le hle)

/-- The place in a period after one more tick. -/
theorem succ_mod {p : Nat} (t : Nat) (hp : 0 < p) :
    t % p + 1 = p ∧ (t + 1) % p = 0 ∨ t % p + 1 < p ∧ (t + 1) % p = t % p + 1 := by
  have hlt := Nat.mod_lt t hp
  have hmod := Nat.mod_add_mod t p 1
  rcases Nat.lt_or_eq_of_le (show t % p + 1 ≤ p from hlt) with hlt | heq
  · exact Or.inr ⟨hlt, by rw [← hmod, Nat.mod_eq_of_lt hlt]⟩
  · exact Or.inl ⟨heq, by rw [← hmod, heq, Nat.mod_self]⟩

theorem InPhase.tick {arg b : BlinkStruct} {t : Nat} (h : InPhase arg t b) : InPhase arg (t + 1) b.tick := by
  have hon := h.on
  have honLeft := h.onLeft
  have hoffLeft := h.offLeft
  have ha := ticks_pos arg.onLength
  have hb := ticks_pos arg.offLength
  have hperiod : period arg = ticks arg.onLength + ticks arg.offLength := rfl
  have hsucc := succ_mod t (show 0 < period arg by omega)
  unfold BlinkStruct.tick
  by_cases hflips : b.flips = true
  · -- the last tick of a stretch: the other one begins
    have hlast := (flips_iff b).1 hflips
    rw [if_pos hflips]
    by_cases hbit : b.status &&& 1 = 1
    · have hbefore := hon.1 hbit
      have hleft := honLeft hbefore
      refine ⟨h.location, h.onChar, h.offChar, h.onLength, h.offLength, ?_, fun hlt => ?_, fun hle => ?_⟩
      · rw [xor_one_and_one]
        exact iff_of_false (fun hnot => hnot hbit) (by omega)
      · omega
      · rw [if_pos hbit, h.offLength]
        dsimp only
        omega
    · have hbefore := not_lt.1 fun hlt => hbit (hon.2 hlt)
      have hleft := hoffLeft hbefore
      refine ⟨h.location, h.onChar, h.offChar, h.onLength, h.offLength, ?_, fun hlt => ?_, fun hle => ?_⟩
      · rw [xor_one_and_one]
        exact iff_of_true hbit (by omega)
      · rw [if_neg hbit, h.onLength]
        dsimp only
        omega
      · omega
  · have hsub := ticks_sub_one hflips
    have hpos := ticks_pos (b.countdown - 1)
    rw [if_neg hflips]
    refine ⟨h.location, h.onChar, h.offChar, h.onLength, h.offLength, hon.trans ?_, fun hlt => ?_, fun hle => ?_⟩
    · omega
    · have hleft := honLeft (by omega)
      dsimp only
      omega
    · have hleft := hoffLeft (by omega)
      dsimp only
      omega

/-- The character after so many ticks, when the two are shown in turn for so many each. -/
def turn (arg : BlinkStruct) (on off t : Nat) : UInt8 := if t % (on + off) < on then arg.onChar else arg.offChar

/-- What an element in a phase should show. -/
theorem InPhase.shown {arg b : BlinkStruct} {t : Nat} (h : InPhase arg t b) :
    b.shown = turn arg (ticks arg.onLength) (ticks arg.offLength) t := by
  rw [BlinkStruct.shown, h.onChar, h.offChar]
  exact if_congr h.on rfl rfl

namespace Blink

variable {s : Blink} {l : List Slot} {n : Slot} {arg : BlinkStruct}

/-! ## An element left alone -/

/-- The operation puts no element at the location, nor at location 0, and does not remove or synchronise the one
there. -/
def LeavesAlone (location : UInt16) (s : Blink) : Op → Prop
  | .add arg => arg.location = location ∨ arg.location = 0 → s.mp1Malloc = none
  | .remove arg => arg.toUInt16 ≠ location
  | .sync arg => ∀ esi, s.mp1FindHelper (arg >>> 16).toUInt16 = some (some esi) → (arg &&& 0xFFFF).toUInt16 ≠ location
  | .find _ | .tasklet => True

/-- So many ticks after an ADD its element is in its phase, alone at its location, and shown. -/
structure Blinking (arg : BlinkStruct) (n : Slot) (t : Nat) (s : Blink) : Prop where
  alone : ∃ l, Alone s l n
  inPhase : InPhase arg t (s.array n).toBlinkStruct
  shownAt : ShownAt s n

/-- An ADD at a free location begins to blink. -/
theorem Blinking.start (h : Listed s l) (hm : s.mp1Malloc = some n) (h0 : arg.location ≠ 0)
    (hfree : ∀ m ∈ l, (s.array m).location ≠ arg.location) : Blinking arg n 0 (added arg n s) := by
  refine ⟨⟨n :: l, h.add hm h0, List.mem_cons_self, fun m hmem heq => ?_⟩, ?_, added_shown_self arg n s⟩
  · rcases List.mem_cons.1 hmem with rfl | hml
    · rfl
    · rw [added_other arg s (ne_of_mem_of_not_mem hml (h.not_mem_free hm)), added_self] at heq
      exact absurd heq (hfree m hml)
  · rw [added_self]
    exact InPhase.start arg

/-- The ticks of an operation. -/
def Op.ticks (op : Op) : Nat := if op = .tasklet then 1 else 0

/-- One operation. -/
theorem Blinking.step {t : Nat} {op : Op} (h : Blinking arg n t s) (hop : LeavesAlone arg.location s op) :
    ∃ r, Blink.step s op = some r ∧ Blinking arg n (t + op.ticks) r.2 := by
  obtain ⟨⟨l, hl⟩, hphase, hshown⟩ := h
  have hloc := hphase.location
  cases op with
  | add arg' =>
    refine ⟨_, rfl, ?_⟩
    rcases mp1IoctlAdd_cases arg' s with ⟨-, hadd⟩ | ⟨m, -, hm, hadd⟩
    · rw [hadd]
      exact ⟨⟨l, hl⟩, hphase, hshown⟩
    · have hne : n ≠ m := ne_of_mem_of_not_mem hl.mem (hl.not_mem_free hm)
      have hlocation : arg'.location ≠ arg.location ∧ arg'.location ≠ 0 := by
        rw [← not_or]
        intro hor
        rw [hop hor] at hm
        cases hm
      rw [hadd]
      refine ⟨⟨m :: l, hl.add hm hlocation.2, List.mem_cons_of_mem _ hl.mem, fun k hk heq => ?_⟩, ?_,
        hshown.add hne (by rw [hloc]; exact hlocation.1.symm)⟩
      · rw [added_other arg' s hne] at heq
        rcases List.mem_cons.1 hk with rfl | hkl
        · rw [added_self, hloc] at heq
          exact absurd heq hlocation.1
        · rw [added_other arg' s (ne_of_mem_of_not_mem hkl (hl.not_mem_free hm))] at heq
          exact hl.alone k hkl heq
      · rw [added_other arg' s hne]
        exact hphase
  | remove arg' =>
    rcases mp1IoctlRemove_eq hl.toListed arg' with ⟨-, hremove⟩ | ⟨l1, m, l2, rfl, hfind, hremove⟩
    · exact ⟨_, hremove, ⟨l, hl⟩, hphase, hshown⟩
    · have hne : n ≠ m := by
        rintro rfl
        exact hop ((mp1FindHelper_location hl.toListed hfind).symm.trans hloc)
      refine ⟨_, hremove, ⟨l1 ++ l2, hl.remove hne⟩, ?_, hshown.remove _ hne⟩
      rw [removed_node _ s hne]
      exact hphase
  | find location =>
    obtain ⟨answer, hfind⟩ := mp1IoctlFind_eq hl.toListed location
    exact ⟨_, hfind, ⟨l, hl⟩, hphase, hshown⟩
  | sync arg' =>
    rcases mp1IoctlSync_eq hl.toListed arg' with hsync | ⟨esi, edi, hedi, hfirst, hsecond, hsync⟩
    · exact ⟨_, hsync, ⟨l, hl⟩, hphase, hshown⟩
    · have hne : n ≠ edi := by
        rintro rfl
        exact hop esi hfirst ((mp1FindHelper_location hl.toListed hsecond).symm.trans hloc)
      refine ⟨_, hsync, ⟨l, hl.of_locations (hl.sync esi edi) fun m => (syncNodes_node esi edi m s).2⟩, ?_, hshown.sync esi hl hedi hne⟩
      rw [syncNodes_other esi s hne]
      exact hphase
  | tasklet =>
    refine ⟨_, congrArg (Option.map _) (mp1RtcTasklet_eq hl.toListed), ⟨l, hl.foldl l⟩, ?_,
      hshown.foldl l hl fun _ hm => hm⟩
    have hnode := foldl_node (s := s) (n := n) l hl.linked.nodup
    rw [if_pos hl.mem] at hnode
    show InPhase arg (t + 1) ((l.foldl (fun s n => taskletNode n s) s).array n).toBlinkStruct
    rw [hnode]
    exact hphase.tick

/-- A run. -/
theorem Blinking.run : ∀ {t : Nat} {s : Blink} {ops : List Op}, Blinking arg n t s →
    Along Blink.step (LeavesAlone arg.location) s ops →
      ∃ x, Machine.run Blink.step s ops = some x ∧ Blinking arg n (t + ops.count .tasklet) x
  | _, s, [], h, _ => ⟨s, rfl, h⟩
  | t, s, op :: ops, h, ⟨hop, hops⟩ => by
    obtain ⟨r, hr, hstep⟩ := h.step hop
    obtain ⟨x, hx, hblinking⟩ := hstep.run (hops r hr)
    refine ⟨x, by rw [Machine.run, hr]; exact hx, ?_⟩
    have hcount : (op :: ops).count .tasklet = op.ticks + ops.count .tasklet := by
      rw [List.count_cons, Op.ticks, Nat.add_comm]
      simp only [beq_iff_eq]
    rw [hcount, ← Nat.add_assoc]
    exact hblinking

/-- What the screen holds in a phase. -/
theorem Blinking.screen {t : Nat} (h : Blinking arg n t s) :
    s.screen (2 * arg.location.toNat) = turn arg (ticks arg.onLength) (ticks arg.offLength) t := by
  have hshown := h.shownAt
  rw [ShownAt, h.inPhase.location] at hshown
  rw [hshown, h.inPhase.shown]

/-! ## The lengths asked for -/

/-- Lengths that the signed comparison cuts to one tick show the wrong character at once, or after the first stretch. -/
theorem turn_differs (hchars : arg.onChar ≠ arg.offChar)
    (hlong : ¬ (arg.onLength.toNat ≤ 0x8000 ∧ arg.offLength.toNat ≤ 0x8000)) :
    ∃ t, turn arg (ticks arg.onLength) (ticks arg.offLength) t ≠ turn arg (asked arg.onLength) (asked arg.offLength) t := by
  have hoff := ticks_pos arg.offLength
  by_cases hon : arg.onLength.toNat ≤ 0x8000
  · have hone : ticks arg.offLength = 1 := ticks_of_gt (Nat.lt_of_not_le fun hle => hlong ⟨hon, hle⟩)
    have hasked : 1 < asked arg.offLength := by
      unfold asked
      omega
    refine ⟨asked arg.onLength + 1, ?_⟩
    unfold turn
    rw [ticks_of_le hon, hone, Nat.mod_self, if_pos (by rw [← ticks_of_le hon]; exact ticks_pos _),
      Nat.mod_eq_of_lt (by omega), if_neg (by omega)]
    exact hchars
  · have hone : ticks arg.onLength = 1 := ticks_of_gt (Nat.lt_of_not_le hon)
    have hasked : 1 < asked arg.onLength := by
      unfold asked
      omega
    refine ⟨1, ?_⟩
    unfold turn
    rw [hone, if_pos (show 1 % (asked arg.onLength + asked arg.offLength) < asked arg.onLength by
      rwa [Nat.mod_eq_of_lt (by omega)])]
    rcases Nat.lt_or_eq_of_le hoff with hlt | heq
    · rw [Nat.mod_eq_of_lt (by omega), if_neg (by omega)]
      exact hchars.symm
    · rw [← heq]
      exact hchars.symm

theorem leavesAlone_ticks (location : UInt16) : ∀ (t : Nat) (s : Blink),
    Along step (LeavesAlone location) s (List.replicate t .tasklet)
  | 0, _ => trivial
  | t + 1, _ => ⟨trivial, fun r _ => leavesAlone_ticks location t r.2⟩

/-- The element of an ADD, left alone, shows its characters in turn for the lengths asked for exactly when they are the
same or neither length is over 0x8000. -/
theorem blinks_iff (h : Listed s l) (hm : s.mp1Malloc = some n) (hloc : arg.location.toNat < 2000)
    (h0 : arg.location ≠ 0) (hfree : ∀ m ∈ l, (s.array m).location ≠ arg.location) :
    (∀ ops, Along step (LeavesAlone arg.location) (s.mp1IoctlAdd arg).2 ops →
      ∃ x, run step (s.mp1IoctlAdd arg).2 ops = some x ∧
        x.screen (2 * arg.location.toNat) =
          turn arg (asked arg.onLength) (asked arg.offLength) (ops.count .tasklet)) ↔
      arg.onChar = arg.offChar ∨ arg.onLength.toNat ≤ 0x8000 ∧ arg.offLength.toNat ≤ 0x8000 := by
  have hstart := Blinking.start h hm h0 hfree
  rw [mp1IoctlAdd_eq hm hloc]
  constructor
  · intro hall
    by_contra hnot
    obtain ⟨hchars, hlong⟩ := not_or.1 hnot
    obtain ⟨t, hdiffers⟩ := turn_differs hchars hlong
    obtain ⟨x, hx, hscreen⟩ := hall _ (leavesAlone_ticks arg.location t _)
    obtain ⟨x', hx', hblinking⟩ := hstart.run (leavesAlone_ticks arg.location t _)
    obtain rfl := Option.some.inj (hx.symm.trans hx')
    rw [hblinking.screen, Nat.zero_add, List.count_replicate_self] at hscreen
    exact hdiffers hscreen
  · intro hshort ops hops
    obtain ⟨x, hx, hblinking⟩ := hstart.run hops
    refine ⟨x, hx, hblinking.screen.trans ?_⟩
    rw [Nat.zero_add]
    rcases hshort with hsame | ⟨hon, hoff⟩
    · rw [turn, turn, hsame, ite_self, ite_self]
    · rw [ticks_of_le hon, ticks_of_le hoff]

/-- An ADD to an empty list, with lengths of 15 each. -/
theorem blinks_iff_pair :
    (∀ ops, Along step (LeavesAlone 60) ((start fun _ => 32).mp1IoctlAdd pair).2 ops →
      ∃ x, run step ((start fun _ => 32).mp1IoctlAdd pair).2 ops = some x ∧
        x.screen 120 = turn pair (asked 15) (asked 15) (ops.count .tasklet)) ↔
      (65 : UInt8) = 66 ∨ (15 : UInt16).toNat ≤ 0x8000 ∧ (15 : UInt16).toNat ≤ 0x8000 :=
  blinks_iff (listed_start _) (mp1Malloc_start _) (show pair.location.toNat < 2000 by decide) (by decide)
    fun _ hn => absurd hn List.not_mem_nil

/-- A length just over 0x8000. -/
def long : BlinkStruct := ⟨60, 65, 66, 0x8001, 5, 0, 0⟩

/-- It is over after one tick. -/
theorem long_not_shown :
    ¬ ∀ ops, Along step (LeavesAlone 60) ((start fun _ => 32).mp1IoctlAdd long).2 ops →
      ∃ x, run step ((start fun _ => 32).mp1IoctlAdd long).2 ops = some x ∧
        x.screen 120 = turn long (max (0x8001 : UInt16).toNat 1) (max (5 : UInt16).toNat 1) (ops.count .tasklet) := by
  intro hall
  have hstart := Blinking.start (listed_start fun _ => 32) (mp1Malloc_start _) (show long.location ≠ 0 by decide)
    fun _ hn => absurd hn List.not_mem_nil
  rw [mp1IoctlAdd_eq (mp1Malloc_start _) (show long.location.toNat < 2000 by decide)] at hall
  obtain ⟨x, hx, hscreen⟩ := hall [.tasklet] ⟨trivial, fun _ _ => trivial⟩
  obtain ⟨x', hx', hblinking⟩ := hstart.run (show Along step (LeavesAlone 60) _ [.tasklet] from ⟨trivial, fun _ _ => trivial⟩)
  obtain rfl := Option.some.inj (hx.symm.trans hx')
  have hshows : x.screen 120 = turn long (ticks 0x8001) (ticks 5) 1 := hblinking.screen
  rw [hshows] at hscreen
  exact absurd hscreen (by decide)

end Blink

end Os391
