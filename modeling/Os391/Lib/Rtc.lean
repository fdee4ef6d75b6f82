/-
`rtc_write` and `rtc_set` at the ports: the register file of the clock behind an index and a data port, and what
is written to them. The clock takes a rate `r` for the frequency `32768 / 2 ^ (r - 1)`.
-/
import Os391.Lib.Devices

namespace Os391

/-! ## Ports -/

/-- The clock behind its two ports, with the writes so far, oldest first. -/
structure Ports where
  index : UInt8
  registers : UInt8 → UInt8
  written : List (UInt8 × UInt16)

namespace Ports

/-- The register selected: bit 7 of the index port is the mask of NMI. -/
def selected (p : Ports) : UInt8 := p.index &&& 0x7F

/-- `outb`: a write to the index port 0x70 or to the data port 0x71. -/
def outb (p : Ports) (data : UInt8) (port : UInt16) : Ports :=
  { index := if port = 0x70 then data else p.index
    registers := if port = 0x71 then Function.update p.registers p.selected data else p.registers
    written := p.written ++ [(data, port)] }

/-- `inb` of the data port. -/
def inbData (p : Ports) : UInt8 := p.registers p.selected

/-- Register A, which `RTC_SEL_A` selects. -/
def registerA (p : Ports) : UInt8 := p.registers 0x0A

/-- `rtc_set`. -/
def rtcSet (freq : Int) (p : Ports) : Ports :=
  let freq := if freq < 2 then 2 else if freq > 1024 then 1024 else freq
  let writeFreq := Devices.writeFreq freq 32 2 0x0F
  let p := p.outb 0x8A 0x70
  let prevVal := p.inbData
  let p := p.outb 0x8A 0x70
  p.outb ((prevVal &&& 0xF0) ||| writeFreq) 0x71

/-- `rtc_write` of the value at `buf`, or of a NULL pointer. -/
def rtcWrite (buf : Option Int) (nbytes : Int) (p : Ports) : Int × Ports :=
  match buf with
  | none => (-1, p)
  | some intrFreq =>
    if nbytes ≠ 4 then (-1, p)
    else if ¬ Devices.po2Flag intrFreq 32 2 then (-1, p)
    else (0, p.rtcSet intrFreq)

end Ports

namespace Devices

/-! ## The doubling loops -/

/-- The loop of `rtc_write` finds the doublings of its start up to the bound. -/
theorem po2Flag_iff {freq : Int} : ∀ {n : Nat} {i : Int}, 0 < i →
    (po2Flag freq n i = true ↔ ∃ j < n, freq = i * 2 ^ j ∧ freq ≤ 1024)
  | 0, _, _ => by simp [po2Flag]
  | n + 1, i, hi => by
    have hgrow : ∀ j : Nat, i ≤ i * 2 ^ j := fun j => le_mul_of_one_le_right hi.le (one_le_pow₀ (by norm_num))
    unfold po2Flag
    split
    case isTrue hle =>
      rw [Bool.or_eq_true, beq_iff_eq, po2Flag_iff (by omega)]
      constructor
      · rintro (rfl | ⟨j, hj, rfl, hb⟩)
        · exact ⟨0, by omega, by ring, hle⟩
        · exact ⟨j + 1, by omega, by ring, hb⟩
      · rintro ⟨_ | j, hj, hf, hb⟩
        · exact Or.inl (by rw [hf]; ring)
        · exact Or.inr ⟨j, by omega, by rw [hf]; ring, hb⟩
    case isFalse hgt =>
      constructor
      · intro h
        cases h
      · rintro ⟨j, -, rfl, hb⟩
        exact absurd ((hgrow j).trans hb) hgt

theorem doubling_le_iff {j : Nat} : (2 * 2 ^ j : Int) ≤ 1024 ↔ j < 10 := by
  rw [← pow_succ', show (1024 : Int) = 2 ^ 10 by norm_num, pow_le_pow_iff_right₀ (by norm_num)]
  omega

/-- Any larger number of turns gives the same: the loop has ended. -/
theorem po2Flag_pow {freq : Int} (n : Nat) : po2Flag freq (n + 10) 2 = true ↔ ∃ j < 10, freq = 2 * 2 ^ j := by
  rw [po2Flag_iff (by norm_num)]
  constructor
  · rintro ⟨j, -, rfl, hb⟩
    exact ⟨j, doubling_le_iff.1 hb, rfl⟩
  · rintro ⟨j, hj, rfl⟩
    exact ⟨j, by omega, rfl, doubling_le_iff.2 hj⟩

/-- The loop of `rtc_set` lowers the rate once for each doubling. -/
theorem writeFreq_pow : ∀ {j n : Nat} {i : Int} (w : UInt8), 0 < i → j ≤ n →
    writeFreq (i * 2 ^ j) n i w = w - UInt8.ofNat j
  | 0, 0, i, w, _, _ => by simp [writeFreq]
  | 0, n + 1, i, w, _, _ => by simp [writeFreq]
  | j + 1, n + 1, i, w, hi, hj => by
    have hlt : i < i * 2 ^ (j + 1) := lt_mul_of_one_lt_right hi (one_lt_pow₀ (by norm_num) (by omega))
    have hnext : i * 2 ^ (j + 1) = i * 2 * 2 ^ j := by ring
    rw [writeFreq, if_pos hlt, hnext, writeFreq_pow (w - 1) (by omega) (by omega), UInt8.ofNat_add]
    grind

end Devices

namespace Ports

/-! ## rtc_write -/

/-- A rate in the lower four bits leaves the upper four. -/
theorem nibbles (b w : UInt8) (hw : w < 16) :
    ((b &&& 0xF0) ||| w) &&& 0xF0 = b &&& 0xF0 ∧ ((b &&& 0xF0) ||| w) &&& 0x0F = w := by
  have hrate : ∀ w : Fin 16, UInt8.ofNat w &&& 0xF0 = 0 ∧ UInt8.ofNat w &&& 0x0F = UInt8.ofNat w := by decide
  obtain ⟨hupper, hlower⟩ := hrate ⟨w.toNat, UInt8.lt_iff_toNat_lt.1 hw⟩
  rw [UInt8.ofNat_toNat] at hupper hlower
  have hdistrib : ∀ m : UInt8, ((b &&& 0xF0) ||| w) &&& m = (b &&& (0xF0 &&& m)) ||| (w &&& m) := by
    intro m
    rw [← UInt8.and_assoc]
    exact UInt8.toBitVec_inj.1 BitVec.and_or_distrib_right
  rw [hdistrib, hdistrib, hupper, hlower, UInt8.or_zero, UInt8.and_self,
    show (0xF0 : UInt8) &&& 0x0F = 0 by decide, UInt8.and_zero, UInt8.zero_or]
  exact ⟨rfl, rfl⟩

/-- What `rtc_set` writes to the ports: register A is selected twice and gets `data`. -/
def setA (data : UInt8) (p : Ports) : Ports :=
  { index := 0x8A
    registers := Function.update p.registers 0x0A data
    written := p.written ++ [(0x8A, 0x70), (0x8A, 0x70), (data, 0x71)] }

@[simp] theorem setA_registerA (data : UInt8) (p : Ports) : (p.setA data).registerA = data := by
  simp [setA, registerA]

theorem rtcSet_eq (freq : Int) (p : Ports) :
    p.rtcSet freq = p.setA ((p.registerA &&& 0xF0) |||
      Devices.writeFreq (if freq < 2 then 2 else if freq > 1024 then 1024 else freq) 32 2 0x0F) := by
  have hsel : (0x8A : UInt8) &&& 0x7F = 0x0A := by decide
  simp [rtcSet, setA, outb, inbData, selected, registerA, hsel]

/-- The device of the kernel's calls is the clock behind its ports. -/
theorem rtcWrite_devices (d : Devices) (f nbytes : Int) (p : Ports) (h : d.rtcA = p.registerA) :
    (d.rtcWrite f nbytes).1 = (p.rtcWrite (some f) nbytes).1 ∧
      (d.rtcWrite f nbytes).2 = { d with rtcA := (p.rtcWrite (some f) nbytes).2.registerA } := by
  have hsame : d = { d with rtcA := p.registerA } := by rw [← h]
  unfold Devices.rtcWrite rtcWrite
  by_cases hn : nbytes = 4
  · by_cases hp : Devices.po2Flag f 32 2 = true
    · simp [hn, hp, rtcSet_eq, Devices.rtcSet, h]
    · simpa [hn, hp] using hsame
  · simpa [hn] using hsame

/-- The rate of a power of two. -/
theorem rtcSet_pow {j : Nat} (hj : j < 10) (p : Ports) :
    p.rtcSet (2 * 2 ^ j) = p.setA ((p.registerA &&& 0xF0) ||| UInt8.ofNat (15 - j)) := by
  have hlow : ¬ (2 * 2 ^ j : Int) < 2 := by
    have : (1 : Int) ≤ 2 ^ j := one_le_pow₀ (by norm_num)
    omega
  have hhigh : ¬ (2 * 2 ^ j : Int) > 1024 := not_lt.2 (Devices.doubling_le_iff.2 hj)
  have hrate : (0x0F : UInt8) - UInt8.ofNat j = UInt8.ofNat (15 - j) := by
    interval_cases j <;> rfl
  rw [rtcSet_eq, if_neg hlow, if_neg hhigh, Devices.writeFreq_pow 0x0F (by norm_num) (by omega), hrate]

theorem rtcWrite_refused {f nbytes : Int} (p : Ports) (h : ¬ (nbytes = 4 ∧ ∃ j < 10, f = 2 * 2 ^ j)) :
    p.rtcWrite (some f) nbytes = (-1, p) := by
  rw [← Devices.po2Flag_pow 22] at h
  unfold rtcWrite
  by_cases hn : nbytes = 4
  · simp only [if_neg (not_not.2 hn), if_pos (show ¬ _ from fun hp => h ⟨hn, hp⟩)]
  · simp only [if_pos (show nbytes ≠ 4 from hn)]

theorem rtcWrite_accepted {j : Nat} (hj : j < 10) (p : Ports) :
    p.rtcWrite (some (2 * 2 ^ j)) 4 = (0, p.rtcSet (2 * 2 ^ j)) := by
  have hp : Devices.po2Flag (2 * 2 ^ j) 32 2 = true := (Devices.po2Flag_pow 22).2 ⟨j, hj, rfl⟩
  unfold rtcWrite
  simp [hp]

theorem pow_range (f : Int) : (∃ k : Nat, f = 2 ^ k ∧ 2 ≤ f ∧ f ≤ 1024) ↔ ∃ j < 10, f = 2 * 2 ^ j := by
  constructor
  · rintro ⟨_ | k, rfl, hlo, hhi⟩
    · norm_num at hlo
    · rw [pow_succ'] at hhi ⊢
      exact ⟨k, Devices.doubling_le_iff.1 hhi, rfl⟩
  · rintro ⟨j, hj, rfl⟩
    have hone : (1 : Int) ≤ 2 ^ j := one_le_pow₀ (by norm_num)
    exact ⟨j + 1, (pow_succ' 2 j).symm, by omega, Devices.doubling_le_iff.2 hj⟩

/-- `rtc_write` accepts the powers of two from 2 to 1024, in four bytes. Then register A keeps its upper four bits and
gets the rate of the frequency; else no port is written. -/
theorem rtcWrite_rate (f nbytes : Int) (p : Ports) :
    let r := p.rtcWrite (some f) nbytes
    (r.1 = 0 ↔ nbytes = 4 ∧ ∃ k : Nat, f = 2 ^ k ∧ 2 ≤ f ∧ f ≤ 1024) ∧
      (r.1 = 0 → r.2.registerA &&& 0xF0 = p.registerA &&& 0xF0 ∧
        let rate := (r.2.registerA &&& 0x0F).toNat
        1 ≤ rate ∧ f * 2 ^ (rate - 1) = 32768 ∧ 32768 / 2 ^ (rate - 1) = f) ∧
      (r.1 ≠ 0 → r.1 = -1 ∧ r.2.written = p.written ∧ r.2 = p) := by
  intro r
  rw [pow_range]
  by_cases h : nbytes = 4 ∧ ∃ j < 10, f = 2 * 2 ^ j
  case neg =>
    have hr : r = (-1, p) := rtcWrite_refused p h
    have h1 : r.1 ≠ 0 := by
      rw [hr]
      exact Int.neg_ne_zero.2 one_ne_zero
    refine ⟨⟨fun h0 => absurd h0 h1, fun h' => absurd h' h⟩, fun h0 => absurd h0 h1, fun _ => ?_⟩
    rw [hr]
    exact ⟨rfl, rfl, rfl⟩
  case pos =>
    obtain ⟨rfl, j, hj, rfl⟩ := h
    have hr : r = (0, p.rtcSet (2 * 2 ^ j)) := rtcWrite_accepted hj p
    refine ⟨⟨fun _ => ⟨rfl, j, hj, rfl⟩, fun _ => by rw [hr]⟩, fun _ => ?_, fun h0 => absurd (by rw [hr]) h0⟩
    have hreg : r.2.registerA = (p.registerA &&& 0xF0) ||| UInt8.ofNat (15 - j) := by
      rw [hr, rtcSet_pow hj, setA_registerA]
    have hlow : UInt8.ofNat (15 - j) < 16 := by
      interval_cases j <;> decide
    obtain ⟨hupper, hlower⟩ := nibbles p.registerA _ hlow
    rw [hreg, hupper, hlower]
    refine ⟨rfl, ?_⟩
    interval_cases j <;> decide

end Ports

end Os391
