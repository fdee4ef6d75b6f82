/-
What calls and keystrokes do with the clock and the interrupt controller. A step sets the clock at most once, and the
clock ticks at the frequency that was set last.
-/
import Os391.Lib.Rtc
import Os391.Terminal.Interrupts

namespace Os391

/-- What a step does with the devices, and the frequency it sets the clock to, if it does. -/
inductive DriverStep : Option Int → Devices → Devices → Prop
  | rest (d : Devices) : DriverStep none d d
  | flag (d : Devices) (n : Nat) : DriverStep none d { d with intrFlag := n }
  | eoi (d : Devices) (irq : UInt32) : DriverStep none d (d.sendEoi irq)
  | init (d : Devices) : DriverStep (some 2) d d.rtcInit
  | set (d : Devices) {f : Int} (hf : Devices.po2Flag f 32 2 = true) : DriverStep (some f) d (d.rtcSet f)

namespace Kernel

open Bytes Machine

variable {img : Image}

/-! ## Calls that set the clock -/

/-- A `write` to the clock sets it when it returns 0. -/
def writeSets (fd : Int) (text : Buf) (nbytes : Int) (s : Kernel) : Option Int :=
  (checkFd fd nbytes s).bind fun d =>
    let f := (word text 0).toInt32.toInt
    if (s.pcblock.fileStruct d).fopsPtr = some .rtcFops ∧ (s.dev.rtcWrite f nbytes).1 = 0 then some f else none

/-- An `open` sets it to 2 Hz when it returns a descriptor of the clock. -/
def openSets (img : Image) (name : CString) (s : Kernel) : Option Int :=
  (findFd s.pcblock).bind fun i =>
    if h : i < 8 then
      let r := openAt img name ⟨i, h⟩ s
      if r.1 ≠ -1 ∧ (r.2.pcblock.dentry ⟨i, h⟩).fileType = 0 then some 2 else none
    else none

/-- The frequency that a step sets the clock to. -/
def sets (img : Image) (s : Kernel) : Op → Option Int
  | .open (some name) => openSets img name s
  | .write fd buf nbytes => if buf = 0 then none else writeSets fd (s.userView buf) nbytes s
  | _ => none

/-- What a `write` that sets the clock leaves in the devices, and one that does not. -/
theorem rtcWrite_dev (d : Devices) (f nbytes : Int) :
    ((d.rtcWrite f nbytes).1 = 0 → Devices.po2Flag f 32 2 = true ∧ (d.rtcWrite f nbytes).2 = d.rtcSet f) ∧
      ((d.rtcWrite f nbytes).1 ≠ 0 → (d.rtcWrite f nbytes).2 = d) := by
  have hrefused : (-1 : Int) ≠ 0 := by decide
  unfold Devices.rtcWrite
  by_cases hn : nbytes ≠ 4
  · simp only [if_pos hn]
    exact ⟨fun h => absurd h hrefused, fun _ => trivial⟩
  · by_cases hp : Devices.po2Flag f 32 2 = true
    · simp only [if_neg hn, if_pos hp]
      exact ⟨fun _ => ⟨hp, trivial⟩, fun h => absurd rfl h⟩
    · simp only [if_neg hn, if_neg hp]
      exact ⟨fun h => absurd h hrefused, fun _ => trivial⟩

theorem writeFd_dev {fd nbytes : Int} {text : Buf} {s s' : Kernel} {o : Outcome}
    (h : writeFd fd text nbytes s = some (o, s')) :
    (writeSets fd text nbytes s = none → s'.dev = s.dev) ∧
      ∀ f, writeSets fd text nbytes s = some f → Devices.po2Flag f 32 2 = true ∧ s'.dev = s.dev.rtcSet f := by
  unfold writeFd at h
  unfold writeSets
  rcases hd : checkFd fd nbytes s with _ | d <;> simp only [hd] at h
  · cases h; exact ⟨fun _ => rfl, nofun⟩
  rw [Option.bind_some]
  rcases hf : (s.pcblock.fileStruct d).fopsPtr with _ | (_ | _ | _) <;> simp only [hf] at h
  · cases h
  · cases h
    obtain ⟨hset, hleft⟩ := rtcWrite_dev s.dev (word text 0).toInt32.toInt nbytes
    refine ⟨fun hnone => hleft fun h0 => ?_, fun f hsome => ?_⟩
    · rw [if_pos ⟨rfl, h0⟩] at hnone
      cases hnone
    · obtain ⟨⟨-, h0⟩, hf'⟩ := Option.ite_none_right_eq_some.1 hsome
      cases hf'
      exact hset h0
  all_goals
    unfold terminalWrite at h
    split at h <;> cases h <;> exact ⟨fun _ => rfl, fun f hsome => nomatch hsome⟩

/-- The text of `execute` is too long to be a frequency. -/
theorem writeSets_sixPrograms (s : Kernel) : writeSets 1 sixPrograms 25 s = none := by
  unfold writeSets
  rcases checkFd 1 25 s with _ | d
  · rfl
  · refine if_neg fun h => ?_
    simp [Devices.rtcWrite] at h

theorem sysRead_drivers {fd buf nbytes : Int} {s s' : Kernel} {o : Outcome}
    (h : sysRead img fd buf nbytes s = some (o, s')) : DriverStep none s.dev s'.dev := by
  unfold sysRead at h
  split at h
  · cases h; exact .rest _
  split at h
  · cases h; exact .rest _
  split at h
  · cases h
  · cases h; exact .flag _ _
  · unfold terminalRead at h
    split at h
    · cases h; exact .rest _
    split at h
    · simp only at h
      split at h <;> cases h <;> exact .rest _
    · cases h
  · unfold filesystemRead at h
    simp only at h
    split at h
    · obtain ⟨r, -, hr⟩ := Option.map_eq_some_iff.1 h
      cases hr; exact .rest _
    · cases h
      unfold storeFpos
      split <;> exact .rest _

theorem openAt_drivers (name : CString) (fd : Fin 8) (s : Kernel) :
    DriverStep (if (openAt img name fd s).1 ≠ -1 ∧ ((openAt img name fd s).2.pcblock.dentry fd).fileType = 0 then some 2
      else none) s.dev (openAt img name fd s).2.dev := by
  unfold openAt
  simp only
  generalize hr : filesystemOpen img name _ = r
  have hdev : r.2.dev = s.dev := by
    rw [← hr]
    unfold filesystemOpen
    simp only
    split_ifs <;> rfl
  clear hr
  have hfd : ((fd : Nat) : Int) ≠ -1 := by omega
  by_cases h1 : r.1 = -1
  · rw [if_pos h1, if_neg fun h => h.1 rfl]
    exact hdev ▸ .rest _
  by_cases h2 : (r.2.pcblock.dentry fd).fileType = 0
  · rw [if_neg h1, if_pos h2, if_pos ⟨hfd, h2⟩]
    exact hdev ▸ .init _
  · rw [if_neg h1, if_neg h2, if_neg fun h => h2 h.2]
    exact hdev ▸ .rest _

theorem execute_dev {command : CString} {r : Regs} {s s' : Kernel} {o : Outcome}
    (h : execute img (some command) r s = some (o, s')) : s'.dev = s.dev := by
  have hchosen : (choosePid command s).dev = s.dev := by rw [choosePid_eq]
  rcases hc : s.claimed command with _ | n
  · rw [execute_unclaimed hc] at h
    obtain ⟨⟨o', w⟩, hw, he⟩ := Option.map_eq_some_iff.1 h
    cases he
    rw [← hchosen]
    exact (writeFd_dev hw).1 (writeSets_sixPrograms _)
  · rcases execute_cases h with ⟨hn, -⟩ | ⟨n', q, -, -, ⟨-, -, d, rfl⟩ | ⟨inode, d, fpos, -, ⟨-, rfl⟩ | ⟨eip, -, rfl⟩⟩⟩
    · rw [hc] at hn
      cases hn
    all_goals rfl

theorem stroke_drivers {k : UInt8} {s s' : Kernel} (h : Stroke s k s') : DriverStep none s.dev s'.dev := by
  -- only Ctrl+C and a backspace that deletes nothing send the controller something
  cases h
  case ctrlC => exact .eoi _ _
  case atStart => exact .eoi _ _
  all_goals exact DriverStep.rest _

/-- A call or a keystroke. -/
theorem step_drivers {op : Op} {s s' : Kernel} {o : Outcome} (h : step img s op = some (o, s')) :
    DriverStep (s.sets img op) s.dev s'.dev := by
  rcases hc : s.call op with _ | ⟨command, r, s0⟩
  · cases op with
    | key k r =>
      rcases ht : s.switchTo k with _ | t
      · obtain ⟨s1, hs, hstroke⟩ := @keyboardRead_stroke img k r s ht
        have h : keyboardRead img k r s = some (o, s') := h
        rw [hs] at h
        cases h
        exact stroke_drivers hstroke
      · have hst : s.started t = true := by
          by_contra hst
          rw [call_first r ht hst] at hc
          cases hc
        rw [key_started ht hst] at h
        cases h
        rw [enterTerminal_dev, leftFor_dev]
        exact .eoi _ _
    | execute command r =>
      cases command with
      | none => cases h; exact .rest _
      | some command => cases hc
    | halt status r =>
      obtain ⟨n, -, -, rfl⟩ := halt_noCall hc h
      obtain ⟨v, hv⟩ := haltProgram_eq n s
      rw [hv]
      exact .rest _
    | read fd buf nbytes => exact sysRead_drivers h
    | write fd buf nbytes =>
      unfold step sysWrite at h
      simp only at h
      show DriverStep (if buf = 0 then none else writeSets fd (s.userView buf) nbytes s) _ _
      split_ifs at h ⊢
      · cases h; exact .rest _
      obtain ⟨hleft, hset⟩ := writeFd_dev h
      rcases hw : writeSets fd (s.userView buf) nbytes s with _ | f
      · rw [hleft hw]
        exact .rest _
      · obtain ⟨hf, hdev⟩ := hset f hw
        rw [hdev]
        exact .set _ hf
    | «open» filename =>
      obtain ⟨⟨v, s1⟩, h1, h2⟩ := Option.map_eq_some_iff.1 h
      cases h2
      cases filename with
      | none => cases h1; exact .rest _
      | some name =>
        unfold sysOpen at h1
        show DriverStep (openSets img name s) _ _
        unfold openSets
        rcases hi : findFd s.pcblock with _ | i <;> simp only [hi] at h1
        · cases h1
        rw [Option.bind_some]
        by_cases h8 : i < 8
        · rw [dif_pos h8] at h1 ⊢
          have hopen := @openAt_drivers img name ⟨i, h8⟩ s
          rw [Option.some.inj h1] at hopen ⊢
          exact hopen
        · rw [dif_neg h8] at h1 ⊢
          cases h1
          exact .rest _
    | close fd =>
      cases h
      rcases sysClose_cases fd s with ⟨k, -, -, -, v, hcl⟩ | ⟨-, hcl⟩ <;> rw [hcl] <;> exact .rest _
    | getargs buf nbytes =>
      obtain ⟨⟨v, s1⟩, h1, h2⟩ := Option.map_eq_some_iff.1 h
      cases h2
      obtain ⟨user, rfl⟩ := getargs_eq h1
      exact .rest _
    | vidmap screenStart =>
      cases h
      obtain ⟨user, hv⟩ := vidmap_eq screenStart s
      rw [hv]
      exact .rest _
    | setHandler | sigreturn => cases h; exact .rest _
  · obtain ⟨o', hex, -⟩ := step_call hc h
    have hdev := execute_dev hex
    rcases call_cases hc with ⟨rfl, rfl⟩ | ⟨status, n, rfl, -, -, -, rfl⟩ | ⟨k, t, rfl, -, -, -, rfl⟩
    · rw [hdev]
      exact .rest _
    · rw [hdev]
      exact .rest _
    · rw [hdev, activate_dev, leftFor_dev]
      exact .eoi _ _

end Kernel

/-! ## The clock ticks -/

namespace Devices

/-- The rate in register A, and the frequency that the clock takes it for. -/
def rate (d : Devices) : UInt8 := d.rtcA &&& 0x0F

def frequency (d : Devices) : Nat := 32768 / 2 ^ (d.rate.toNat - 1)

/-- The clock interrupts at a frequency: periodic interrupts are on, and neither its line at the slave nor that of the
slave at the master is masked. -/
structure Ticks (f : Int) (d : Devices) : Prop where
  on : d.rtcB &&& 0x40 = 0x40
  range : 6 ≤ d.rate.toNat
  frequency : (d.frequency : Int) = f
  slave : d.masterMask &&& 0x04 = 0
  line : d.slaveMask &&& 0x01 = 0

/-- A rate for one of the powers of two. -/
theorem rate_frequency (d : Devices) {k : Nat} (hk : k < 10) (a : UInt8) :
    let d' := { d with rtcA := (a &&& 0xF0) ||| UInt8.ofNat (15 - k) }
    6 ≤ d'.rate.toNat ∧ (d'.frequency : Int) = 2 * 2 ^ k ∧ d'.rtcA &&& 0xF0 = a &&& 0xF0 := by
  have hlow : UInt8.ofNat (15 - k) < 16 := by
    interval_cases k <;> decide
  obtain ⟨hupper, hlower⟩ := Ports.nibbles a _ hlow
  intro d'
  have hrate : d'.rate = UInt8.ofNat (15 - k) := hlower
  unfold Devices.frequency
  rw [hrate]
  refine ⟨?_, ?_, hupper⟩ <;> interval_cases k <;> decide

/-- Setting the clock. -/
theorem ticks_rtcSet {d : Devices} {f g : Int} (h : d.Ticks f) (hg : po2Flag g 32 2 = true) :
    (d.rtcSet g).Ticks g ∧ (d.rtcSet g).rtcA &&& 0xF0 = d.rtcA &&& 0xF0 := by
  obtain ⟨k, hk, rfl⟩ := (po2Flag_pow 22).1 hg
  have hlow : ¬ (2 * 2 ^ k : Int) < 2 := by
    have : (1 : Int) ≤ 2 ^ k := one_le_pow₀ (by norm_num)
    omega
  have hhigh : ¬ (2 * 2 ^ k : Int) > 1024 := not_lt.2 (doubling_le_iff.2 hk)
  have hw : writeFreq (2 * 2 ^ k) 32 2 0x0F = UInt8.ofNat (15 - k) := by
    rw [writeFreq_pow 0x0F (by norm_num) (by omega)]
    interval_cases k <;> rfl
  obtain ⟨hrange, hfreq, hupper⟩ := rate_frequency d hk d.rtcA
  have hset : d.rtcSet (2 * 2 ^ k) = { d with rtcA := (d.rtcA &&& 0xF0) ||| UInt8.ofNat (15 - k) } := by
    simp only [rtcSet, if_neg hlow, if_neg hhigh, hw]
  rw [hset]
  exact ⟨⟨h.on, hrange, hfreq, h.slave, h.line⟩, hupper⟩

theorem rtcInit_eq (d : Devices) :
    d.rtcInit = { d with
      rtcB := d.rtcB ||| 0x40, rtcA := (d.rtcA &&& 0xF0) ||| UInt8.ofNat (15 - 0)
      masterMask := d.masterMask &&& 0xFB, slaveMask := d.slaveMask &&& 0xFE } := by
  have htwo : ¬ (2 : UInt32) &&& 8 ≠ 0 := by decide
  have height : (8 : UInt32) &&& 8 ≠ 0 := by decide
  simp only [rtcInit, enableIrq, if_neg htwo, if_pos height]
  rfl

/-- `rtc_init` brings the clock there from any state. -/
theorem ticks_rtcInit (d : Devices) : d.rtcInit.Ticks 2 ∧ d.rtcInit.rtcA &&& 0xF0 = d.rtcA &&& 0xF0 := by
  obtain ⟨hrange, hfreq, hupper⟩ := rate_frequency d (show 0 < 10 by decide) d.rtcA
  have hon : ∀ b y : UInt8, (b ||| y) &&& y = y := by
    intro b y
    apply UInt8.toBitVec_inj.1
    ext i h
    simp only [UInt8.toBitVec_and, UInt8.toBitVec_or, BitVec.getElem_and, BitVec.getElem_or]
    cases y.toBitVec[i] <;> simp
  have hclear : ∀ m a b : UInt8, a &&& b = 0 → m &&& a &&& b = 0 := by
    intro m a b h
    rw [UInt8.and_assoc, h, UInt8.and_zero]
  rw [rtcInit_eq]
  exact ⟨⟨hon _ _, hrange, hfreq, hclear _ _ _ (by decide), hclear _ _ _ (by decide)⟩, hupper⟩

/-- A step leaves the clock ticking, at the frequency that it sets. -/
theorem ticks_step {set : Option Int} {d d' : Devices} {f : Int} (h : DriverStep set d d') (ht : d.Ticks f) :
    d'.Ticks (set.getD f) ∧ d'.rtcA &&& 0xF0 = d.rtcA &&& 0xF0 := by
  cases h with
  | rest | flag | eoi => exact ⟨⟨ht.on, ht.range, ht.frequency, ht.slave, ht.line⟩, rfl⟩
  | init => exact ticks_rtcInit d
  | set d hf => exact ticks_rtcSet ht hf

end Devices

namespace System

open Bytes Machine

variable {img : Image}

/-- What an event sets the clock to. -/
def sets (img : Image) (x : System) : Event → Option Int
  | .call op _ => x.kernel.sets img op
  | _ => none

/-- The frequency that was set last when a run ends, `f` if none was. -/
def lastSet (img : Image) (f : Int) : System → List Event → Int
  | _, [] => f
  | x, e :: events =>
    match step img x e with
    | none => f
    | some r => lastSet img ((sets img x e).getD f) r.2 events

theorem event_ticks {x y : System} {e : Event} {o : Outcome} {f : Int} (ht : x.kernel.dev.Ticks f)
    (h : step img x e = some (o, y)) :
    y.kernel.dev.Ticks ((sets img x e).getD f) ∧ y.kernel.dev.rtcA &&& 0xF0 = x.kernel.dev.rtcA &&& 0xF0 := by
  cases e with
  | call op hop =>
    obtain ⟨⟨o', s'⟩, hs, he⟩ := Option.map_eq_some_iff.1 h
    cases he
    exact Devices.ticks_step (Kernel.step_drivers hs) ht
  | keyboard scancode c r =>
    obtain ⟨⟨o', s'⟩, hs, he⟩ := Option.map_eq_some_iff.1 h
    have hkey := Devices.ticks_step (@Kernel.step_drivers _ (.key _ r) _ _ _ hs) ht
    have hlast := Devices.ticks_step (.eoi s'.dev 1) hkey.1
    cases o' <;> cases he
    case keyboard.enter.refl => exact hkey
    all_goals exact ⟨hlast.1, hlast.2.trans hkey.2⟩
  | rtc =>
    cases h
    exact ⟨⟨ht.on, ht.range, ht.frequency, ht.slave, ht.line⟩, rfl⟩

/-- Whatever processes, keystrokes and interrupts do, the clock keeps ticking, and at the frequency that was set last: by
an `open` of it or by a `write` to it that returned 0, in whatever process. -/
theorem clock_run {x y : System} {f : Int} (ht : x.kernel.dev.Ticks f) (events : List Event)
    (h : run (step img) x events = some y) :
    y.kernel.dev.Ticks (lastSet img f x events) ∧ y.kernel.dev.rtcA &&& 0xF0 = x.kernel.dev.rtcA &&& 0xF0 := by
  induction events generalizing x f with
  | nil => cases h; exact ⟨ht, rfl⟩
  | cons e events ih =>
    obtain ⟨⟨o, z⟩, hz, hy⟩ := run_cons_some h
    obtain ⟨hstep, hupper⟩ := event_ticks ht hz
    obtain ⟨hrest, hkept⟩ := ih hstep hy
    rw [lastSet, hz]
    exact ⟨hrest, hkept.trans hupper⟩

/-- The clock opened and set to 64 Hz, then an interrupt. -/
def atSixtyFour : System :=
  { boot with kernel := { Kernel.boot with user := fun _ => Mem.put (fun _ => 0) 0x8000000 1 fun _ => 64 } }

def setEvents : List Event :=
  [.call (.open (some ⟨ascii ['r', 't', 'c'], by decide⟩)) nofun, .call (.write 2 0x8000000 4) nofun, .rtc]

theorem clock_run_write :
    ∃ y, run (step .sample) atSixtyFour setEvents = some y ∧ lastSet .sample 2 atSixtyFour setEvents = 64 ∧
      y.kernel.dev.Ticks 64 := by
  have hgoes : (run (step .sample) atSixtyFour setEvents).isSome = true := by decide +kernel
  have hset : lastSet .sample 2 atSixtyFour setEvents = 64 := by decide +kernel
  have hboot : atSixtyFour.kernel.dev.Ticks 2 := ⟨by decide, by decide, by decide, by decide, by decide⟩
  refine ⟨_, run_getD hgoes, hset, ?_⟩
  rw [← hset]
  exact (clock_run hboot setEvents (run_getD hgoes)).1

end System

end Os391
