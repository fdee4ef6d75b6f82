/-
`memset`, `memcpy` and `memmove` of `lib.c`, as their assembly runs.
-/
import Os391.Base.X86
import Os391.Base.While

namespace Os391

open X86

/-! ## memcpy and memset -/

/-- The labels of `memcpy` and `memset`. -/
inductive MemLabel
  | top | aligned | bottom | done
  deriving DecidableEq

/-- From one label to the next, for both functions: `byte` stores one byte and moves the pointers, `str` is the string
instruction that stores four. -/
def memStep (byte str : Machine → Machine) : MemLabel × Machine → MemLabel × Machine
  | (.top, m) =>
    if (Flags.test m.ecx.toBitVec m.ecx.toBitVec).zf then (.done, m)
    else if (Flags.test (3 : UInt32).toBitVec m.edi.toBitVec).zf then (.aligned, m)
    else
      let m := byte m
      (.top, { m with ecx := m.ecx - 1 })
  | (.aligned, m) =>
    let m := m.setDx m.ds
    let m := { m with es := m.dx }
    let m := { m with edx := m.ecx }
    let m := { m with ecx := m.ecx >>> 2 }
    let m := { m with edx := m.edx &&& 3 }
    let m := { m with df := false }
    (.bottom, m.rep str)
  | (.bottom, m) =>
    if (Flags.test m.edx.toBitVec m.edx.toBitVec).zf then (.done, m)
    else
      let m := byte m
      (.bottom, { m with edx := m.edx - 1 })
  | (.done, m) => (.done, m)

/-- The code from `top` on, for a number of steps. -/
def memRun (byte str : Machine → Machine) (turns : Nat) (m : Machine) : MemLabel × Machine :=
  While.final (fun x => x.1 ≠ .done) (memStep byte str) turns (.top, m)

/-- `movb (%esi), %al; movb %al, (%edi)`, and both pointers moved on. -/
def copyByte (m : Machine) : Machine :=
  let m := m.setAl (m.mem m.esi)
  let m := { m with mem := Function.update m.mem m.edi m.al }
  let m := { m with edi := m.edi + 1 }
  { m with esi := m.esi + 1 }

/-- `movb %al, (%edi)`, and the pointer moved on. -/
def setByte (m : Machine) : Machine :=
  let m := { m with mem := Function.update m.mem m.edi m.al }
  { m with edi := m.edi + 1 }

/-- `memcpy`. -/
def memcpy (turns : Nat) (dest src n : UInt32) (m : Machine) : MemLabel × Machine :=
  memRun copyByte (Machine.movs 4) turns { m with esi := src, edi := dest, ecx := n }

/-- `memset`. -/
def memset (turns : Nat) (s c n : UInt32) (m : Machine) : MemLabel × Machine :=
  let c := c &&& 0xFF
  memRun setByte Machine.stosl turns
    { m with eax := c <<< 24 ||| c <<< 16 ||| c <<< 8 ||| c, edi := s, ecx := n }

/-! ## memmove -/

/-- `memmove`, up to the comparison. -/
def memmoveEntry (dest src n : UInt32) (m : Machine) : Machine :=
  let m := { m with edi := dest, esi := src, ecx := n }
  let m := m.setDx m.ds
  let m := { m with es := m.dx }
  { m with df := false }

/-- The comparison, and the pointers set to the last bytes if the copy goes down. -/
def memmoveEnds (m : Machine) : Machine :=
  if (Flags.cmp m.esi.toBitVec m.edi.toBitVec).ae then m
  else
    let m := { m with esi := m.esi + m.ecx - 1 }
    let m := { m with edi := m.edi + m.ecx - 1 }
    { m with df := true }

/-- `memmove`. -/
def memmove (dest src n : UInt32) (m : Machine) : Machine :=
  (memmoveEnds (memmoveEntry dest src n m)).rep (Machine.movs 1)

/-! ## The hand-over between the parts -/

/-- `P k` says that `k` bytes are done. A byte stored makes it one more, the string instruction four more, and neither
depends on the counters and flags. -/
structure Advances (n : Nat) (byte str : Machine → Machine) (P : Nat → Machine → Prop) : Prop where
  one : ∀ {k m}, k < n → P k m → P (k + 1) (byte m)
  four : ∀ {k m}, k + 4 ≤ n → m.df = false → P k m → P (k + 4) (str m)
  one_ecx : ∀ m, (byte m).ecx = m.ecx
  one_edx : ∀ m, (byte m).edx = m.edx
  four_df : ∀ m, (str m).df = m.df
  four_edx : ∀ m, (str m).edx = m.edx
  frame : ∀ {k m} (ecx edx : UInt32) (es : UInt16) (df : Bool), P k m →
    P k { m with ecx := ecx, edx := edx, es := es, df := df }

theorem memStep_aligned (byte str : Machine → Machine) (m : Machine) :
    memStep byte str (.aligned, m) =
      (.bottom,
        { str^[(m.ecx >>> 2).toNat]
            { m with ecx := m.ecx >>> 2, edx := m.ecx &&& 3, es := (m.setDx m.ds).dx, df := false } with ecx := 0 }) :=
  rfl

/-- How many bytes are left at a label. -/
def memLeft : MemLabel × Machine → Nat
  | (.top, m) | (.aligned, m) => m.ecx.toNat
  | (.bottom, m) => m.edx.toNat
  | (.done, _) => 0

variable {n : Nat} {byte str : Machine → Machine} {P : Nat → Machine → Prop}

theorem zf_test_self (v : UInt32) : (Flags.test v.toBitVec v.toBitVec).zf = true ↔ v.toNat = 0 := by
  rw [Flags.zf_test, BitVec.and_self, ← BitVec.toNat_inj]
  rfl

theorem toNat_sub_one {v : UInt32} (h : v.toNat ≠ 0) : (v - 1).toNat = v.toNat - 1 := by
  rw [UInt32.toNat_sub_of_le]
  · rfl
  · show 1 ≤ v.toNat
    omega

theorem toNat_and_three (v : UInt32) : (v &&& 3).toNat = v.toNat % 4 := by
  rw [UInt32.toNat_and]
  exact Nat.and_two_pow_sub_one_eq_mod v.toNat 2

namespace Advances

variable (h : Advances n byte str P)
include h

theorem iterate_edx (q : Nat) (m : Machine) : (str^[q] m).edx = m.edx := by
  induction q with
  | zero => rfl
  | succ q ih => rw [Function.iterate_succ_apply', h.four_edx, ih]

/-- `rep` over the string instruction. -/
theorem iterate {k q : Nat} {m : Machine} (hq : k + 4 * q ≤ n) (hdf : m.df = false) (hm : P k m) :
    P (k + 4 * q) (str^[q] m) ∧ (str^[q] m).df = false := by
  induction q with
  | zero => exact ⟨hm, hdf⟩
  | succ q ih =>
    obtain ⟨hP, hdf'⟩ := ih (by omega)
    rw [Function.iterate_succ_apply']
    exact ⟨h.four (by omega) hdf' hP, by rw [h.four_df, hdf']⟩

/-- At every label the bytes done and the bytes left are all there are. -/
theorem step {x : MemLabel × Machine} (hx : ∃ k, P k x.2 ∧ k + memLeft x = n) :
    ∃ k, P k (memStep byte str x).2 ∧ k + memLeft (memStep byte str x) = n := by
  obtain ⟨k, hP, hk⟩ := hx
  obtain ⟨l, m⟩ := x
  cases l with
  | top =>
    simp only [memLeft] at hk
    unfold memStep
    dsimp only
    split_ifs with hzero halign
    · exact ⟨k, hP, by rw [zf_test_self] at hzero; simp only [memLeft]; omega⟩
    · exact ⟨k, hP, hk⟩
    · rw [zf_test_self] at hzero
      refine ⟨k + 1, h.frame _ _ _ _ (h.one (by omega) hP), ?_⟩
      show k + 1 + ((byte m).ecx - 1).toNat = n
      rw [h.one_ecx, toNat_sub_one hzero]
      omega
  | aligned =>
    simp only [memLeft] at hk
    have hq : (m.ecx >>> 2).toNat = m.ecx.toNat / 4 := by
      rw [UInt32.toNat_shiftRight, Nat.shiftRight_eq_div_pow]
      rfl
    have hr := toNat_and_three m.ecx
    have hdone : k + 4 * (m.ecx >>> 2).toNat ≤ n := by omega
    have hentry := h.frame (m.ecx >>> 2) (m.ecx &&& 3) (m.setDx m.ds).dx false hP
    obtain ⟨hP', -⟩ := h.iterate hdone rfl hentry
    rw [memStep_aligned]
    refine ⟨k + 4 * (m.ecx >>> 2).toNat, h.frame 0 _ _ _ hP', ?_⟩
    simp only [memLeft]
    rw [h.iterate_edx]
    dsimp only
    omega
  | bottom =>
    simp only [memLeft] at hk
    unfold memStep
    dsimp only
    split_ifs with hzero
    · exact ⟨k, hP, by rw [zf_test_self] at hzero; simp only [memLeft]; omega⟩
    · rw [zf_test_self] at hzero
      refine ⟨k + 1, h.frame _ _ _ _ (h.one (by omega) hP), ?_⟩
      show k + 1 + ((byte m).edx - 1).toNat = n
      rw [h.one_edx, toNat_sub_one hzero]
      omega
  | done => exact ⟨k, hP, hk⟩

end Advances

theorem memLeft_done : ∀ {x : MemLabel × Machine}, x.1 = .done → memLeft x = 0
  | (.done, _), _ => rfl

/-- A bound on the steps to go. -/
def memVariant : MemLabel × Machine → Nat
  | (.top, m) => m.ecx.toNat + 6
  | (.aligned, _) => 5
  | (.bottom, m) => m.edx.toNat + 1
  | (.done, _) => 0

theorem Advances.variant (h : Advances n byte str P) {x : MemLabel × Machine} (hx : x.1 ≠ .done) :
    memVariant (memStep byte str x) < memVariant x := by
  obtain ⟨l, m⟩ := x
  cases l with
  | top =>
    unfold memStep
    dsimp only
    split_ifs with hzero halign
    · simp only [memVariant]; omega
    · simp only [memVariant]; omega
    · rw [zf_test_self] at hzero
      simp only [memVariant]
      rw [h.one_ecx, toNat_sub_one hzero]
      omega
  | aligned =>
    have hr := toNat_and_three m.ecx
    rw [memStep_aligned]
    simp only [memVariant]
    rw [h.iterate_edx]
    dsimp only
    omega
  | bottom =>
    unfold memStep
    dsimp only
    split_ifs with hzero
    · simp only [memVariant]; omega
    · rw [zf_test_self] at hzero
      simp only [memVariant]
      rw [h.one_edx, toNat_sub_one hzero]
      omega
  | done => exact absurd rfl hx

/-- The code comes to its end, with all bytes done. -/
theorem Advances.memRun (h : Advances n byte str P) {m : Machine} (hm : P 0 m) (hn : m.ecx.toNat = n) :
    ∃ turns, (memRun byte str turns m).1 = .done ∧ P n (memRun byte str turns m).2 := by
  have hends : While.Ends (fun x => x.1 ≠ .done) (memStep byte str) (memVariant (.top, m) + 1) (.top, m) :=
    While.ends_of_variant (I := fun _ => True) (v := memVariant)
      (fun x _ hx => ⟨trivial, h.variant (by simpa using hx)⟩) trivial (Nat.lt_succ_self _)
  have hend : (Os391.memRun byte str (memVariant (.top, m) + 1) m).1 = .done := by
    simpa [While.Ends, Os391.memRun] using hends
  have hstart : ∃ k, P k (MemLabel.top, m).2 ∧ k + memLeft (.top, m) = n :=
    ⟨0, hm, (Nat.zero_add _).trans hn⟩
  obtain ⟨k, hP, hk⟩ := While.final_inv (I := fun x => ∃ k, P k x.2 ∧ k + memLeft x = n)
    (fun x hx (_ : decide (x.1 ≠ .done) = true) => h.step hx) (memVariant (.top, m) + 1) hstart
  have hleft := memLeft_done hend
  unfold Os391.memRun at hleft
  rw [hleft, Nat.add_zero] at hk
  exact ⟨_, hend, hk ▸ hP⟩

/-! ## memcpy -/

/-- `k` bytes are copied, and the pointers stand behind them. -/
structure Copied (dest src : UInt32) (mem : Memory) (k : Nat) (m : Machine) : Prop where
  esi : m.esi = src + UInt32.ofNat k
  edi : m.edi = dest + UInt32.ofNat k
  mem : m.mem = mem.copyUp dest src k

theorem copied_advances {dest src : UInt32} {n : Nat} (mem : Memory)
    (hdisjoint : ∀ i < n, ∀ j < n, src + UInt32.ofNat i ≠ dest + UInt32.ofNat j) :
    Advances n copyByte (Machine.movs 4) (Copied dest src mem) where
  one {k m} _ hm := by
    refine ⟨?_, ?_, ?_⟩
    · show m.esi + 1 = _
      rw [hm.esi]
      exact offset_add src k 1
    · show m.edi + 1 = _
      rw [hm.edi]
      exact offset_add dest k 1
    · show Function.update m.mem m.edi (m.setAl (m.mem m.esi)).al = _
      rw [Machine.al_setAl, hm.mem, hm.edi, hm.esi]
      rfl
  four {k m} hk hdf hm := by
    have hstride : m.stride 4 = 4 := by rw [Machine.stride, hdf]; rfl
    refine ⟨?_, ?_, ?_⟩
    · show m.esi + m.stride 4 = _
      rw [hstride, hm.esi]
      exact offset_add src k 4
    · show m.edi + m.stride 4 = _
      rw [hstride, hm.edi]
      exact offset_add dest k 4
    · show m.mem.store m.edi (m.mem.load m.esi 4) = _
      rw [Memory.copyUp_add, ← hm.mem, ← hm.edi, ← hm.esi]
      refine (Memory.copyUp_eq_store (by omega) fun i hi j hj => ?_).symm
      rw [hm.esi, hm.edi, offset_add, offset_add]
      exact hdisjoint _ (by omega) _ (by omega)
  one_ecx _ := rfl
  one_edx _ := rfl
  four_df _ := rfl
  four_edx _ := rfl
  frame _ _ _ _ hm := ⟨hm.esi, hm.edi, hm.mem⟩

theorem memcpy_copies {dest src n : UInt32} (m : Machine)
    (hdisjoint : ∀ i < n.toNat, ∀ j < n.toNat, src + UInt32.ofNat i ≠ dest + UInt32.ofNat j) :
    ∃ turns, (memcpy turns dest src n m).1 = .done ∧
      (memcpy turns dest src n m).2.mem = m.mem.copyUp dest src n.toNat := by
  have hadv := copied_advances m.mem hdisjoint
  obtain ⟨turns, hdone, hcopied⟩ := hadv.memRun
    (m := { m with esi := src, edi := dest, ecx := n }) ⟨(offset_zero _).symm, (offset_zero _).symm, rfl⟩ rfl
  exact ⟨turns, hdone, hcopied.mem⟩

/-! ## memset -/

/-- The byte that `memset` stores. -/
def memsetByte (c : UInt32) : UInt8 := (c &&& 0xFF).toUInt8

/-- `k` bytes are set, the pointer stands behind them, and the byte stands in all four places of EAX. -/
structure Filled (s : UInt32) (b : UInt8) (mem : Memory) (k : Nat) (m : Machine) : Prop where
  edi : m.edi = s + UInt32.ofNat k
  mem : m.mem = mem.fill s b k
  eax : le32 m.eax = List.replicate 4 b

theorem Filled.al {s : UInt32} {b : UInt8} {mem : Memory} {k : Nat} {m : Machine} (h : Filled s b mem k m) :
    m.al = b := by
  have hlow : m.al = (le32 m.eax).getD 0 0 := UInt8.toNat_inj.1 (by
    show m.eax.toNat % 2 ^ 8 = (UInt8.ofNat (m.eax.toNat / 2 ^ 0)).toNat
    rw [UInt8.toNat_ofNat', Nat.pow_zero, Nat.div_one])
  rw [hlow, h.eax]
  rfl

theorem filled_advances {s : UInt32} {b : UInt8} {n : Nat} (mem : Memory) :
    Advances n setByte Machine.stosl (Filled s b mem) where
  one {k m} _ hm := by
    refine ⟨?_, ?_, hm.eax⟩
    · show m.edi + 1 = _
      rw [hm.edi]
      exact offset_add s k 1
    · show Function.update m.mem m.edi m.al = _
      rw [hm.al, hm.mem, hm.edi]
      rfl
  four {k m} _ hdf hm := by
    have hstride : m.stride 4 = 4 := by rw [Machine.stride, hdf]; rfl
    refine ⟨?_, ?_, hm.eax⟩
    · show m.edi + m.stride 4 = _
      rw [hstride, hm.edi]
      exact offset_add s k 4
    · show m.mem.store m.edi (le32 m.eax) = _
      rw [Memory.fill_add, ← hm.mem, ← hm.edi, hm.eax, Memory.fill_eq_store _ _ _ (by decide)]
  one_ecx _ := rfl
  one_edx _ := rfl
  four_df _ := rfl
  four_edx _ := rfl
  frame _ _ _ _ hm := ⟨hm.edi, hm.mem, hm.eax⟩

/-- A byte in all four places of a word. -/
theorem le32_replicate : ∀ b : UInt8,
    le32 (b.toUInt32 <<< 24 ||| b.toUInt32 <<< 16 ||| b.toUInt32 <<< 8 ||| b.toUInt32) = List.replicate 4 b := by
  have h : ∀ k : Fin 256,
      le32 ((UInt8.ofNat k).toUInt32 <<< 24 ||| (UInt8.ofNat k).toUInt32 <<< 16 ||| (UInt8.ofNat k).toUInt32 <<< 8 |||
        (UInt8.ofNat k).toUInt32) = List.replicate 4 (UInt8.ofNat k) := by
    decide +kernel
  intro b
  have hb := h ⟨b.toNat, b.toNat_lt⟩
  rwa [UInt8.ofNat_toNat] at hb

theorem and_byte (c : UInt32) : c &&& 0xFF = (memsetByte c).toUInt32 := by
  refine UInt32.toNat_inj.1 ?_
  show (c &&& 0xFF).toNat = (c &&& 0xFF).toNat % 2 ^ 8
  rw [Nat.mod_eq_of_lt]
  rw [UInt32.toNat_and]
  exact Nat.and_lt_two_pow _ (by decide)

theorem memset_fills (s c n : UInt32) (m : Machine) :
    ∃ turns, (memset turns s c n m).1 = .done ∧
      (memset turns s c n m).2.mem = m.mem.fill s (memsetByte c) n.toNat := by
  have heax : le32 ((c &&& 0xFF) <<< 24 ||| (c &&& 0xFF) <<< 16 ||| (c &&& 0xFF) <<< 8 ||| c &&& 0xFF) =
      List.replicate 4 (memsetByte c) := by
    rw [and_byte]
    exact le32_replicate _
  obtain ⟨turns, hdone, hfilled⟩ := (filled_advances (s := s) (b := memsetByte c) m.mem).memRun
    (m := { m with eax := _, edi := s, ecx := n }) ⟨(offset_zero _).symm, rfl, heax⟩ rfl
  exact ⟨turns, hdone, hfilled.mem⟩

/-- Where the ranges do not overlap, `memcpy` copies byte by byte, and `memset` always sets byte by byte. All other
bytes stay. -/
theorem memcpy_memset_spec (m : Machine) :
    (∀ dest src n : UInt32, (∀ i < n.toNat, ∀ j < n.toNat, src + UInt32.ofNat i ≠ dest + UInt32.ofNat j) →
      ∃ turns, (memcpy turns dest src n m).1 = .done ∧
        (memcpy turns dest src n m).2.mem = m.mem.copyUp dest src n.toNat ∧
        ∀ a, n.toNat ≤ (a - dest).toNat → (memcpy turns dest src n m).2.mem a = m.mem a) ∧
      ∀ s c n : UInt32, ∃ turns, (memset turns s c n m).1 = .done ∧
        (memset turns s c n m).2.mem = m.mem.fill s (memsetByte c) n.toNat ∧
        ∀ a, n.toNat ≤ (a - s).toNat → (memset turns s c n m).2.mem a = m.mem a := by
  refine ⟨fun dest src n h => ?_, fun s c n => ?_⟩
  · obtain ⟨turns, hdone, hmem⟩ := memcpy_copies m h
    refine ⟨turns, hdone, hmem, fun a ha => ?_⟩
    rw [hmem, Memory.copyUp_eq_store n.toNat_lt.le fun i hi j hj => h i hi j (by omega)]
    exact Memory.store_behind (by rwa [Memory.length_load])
  · obtain ⟨turns, hdone, hmem⟩ := memset_fills s c n m
    refine ⟨turns, hdone, hmem, fun a ha => ?_⟩
    rw [hmem, Memory.fill_eq_store _ _ _ n.toNat_lt.le]
    exact Memory.store_behind (by rwa [List.length_replicate])

/-- A machine at rest. -/
def machineZero : Machine := ⟨0, 0, 0, 0, 0, 0, 0, 0, 0, 0, 0, 0, false, fun _ => 0⟩

/-- Seven bytes to an odd address. -/
theorem memcpy_memset_spec_odd :
    ∃ turns, (memcpy turns 0x1001 0x2000 7 machineZero).1 = .done ∧
      (memcpy turns 0x1001 0x2000 7 machineZero).2.mem = machineZero.mem.copyUp 0x1001 0x2000 7 := by
  obtain ⟨turns, hdone, hmem, -⟩ := (memcpy_memset_spec machineZero).1 0x1001 0x2000 7 (by decide)
  exact ⟨turns, hdone, hmem⟩

/-! ## memmove -/

/-- The bytes of the source before the call are in the destination, nothing else has changed, and the direction flag is
clear. -/
structure Moved (dest src n : UInt32) (m m' : Machine) : Prop where
  mem : m'.mem = m.mem.store dest (m.mem.load src n.toNat)
  df : m'.df = false

theorem movs_one_mem (m : Machine) : (m.movs 1).mem = Function.update m.mem m.edi (m.mem m.esi) := by
  show m.mem.store m.edi (m.mem.load m.esi 1) = _
  rw [Memory.load_one, Memory.store_one]

/-- `rep movsb` upwards. -/
theorem movs_up {dest src : UInt32} {mem : Memory} {m : Machine} (hm : Copied dest src mem 0 m) (hdf : m.df = false)
    (k : Nat) : Copied dest src mem k ((Machine.movs 1)^[k] m) ∧ ((Machine.movs 1)^[k] m).df = false := by
  induction k with
  | zero => exact ⟨hm, hdf⟩
  | succ k ih =>
    obtain ⟨hk, hdf'⟩ := ih
    rw [Function.iterate_succ_apply']
    generalize (Machine.movs 1)^[k] m = x at hk hdf'
    have hstride : x.stride 1 = 1 := by rw [Machine.stride, hdf']; rfl
    refine ⟨⟨?_, ?_, ?_⟩, hdf'⟩
    · show x.esi + x.stride 1 = _
      rw [hstride, hk.esi]
      exact offset_add src k 1
    · show x.edi + x.stride 1 = _
      rw [hstride, hk.edi]
      exact offset_add dest k 1
    · rw [movs_one_mem, hk.mem, hk.edi, hk.esi]
      rfl

/-- `rep movsb` downwards, from the last bytes. -/
theorem movs_down {dest src : UInt32} {k : Nat} {m : Machine} (hesi : m.esi = src + UInt32.ofNat k - 1)
    (hedi : m.edi = dest + UInt32.ofNat k - 1) (hdf : m.df = true) :
    ((Machine.movs 1)^[k] m).mem = m.mem.copyDown dest src k ∧ ((Machine.movs 1)^[k] m).df = true := by
  induction k generalizing m with
  | zero => exact ⟨rfl, hdf⟩
  | succ k ih =>
    have hstride : m.stride 1 = 0 - 1 := by rw [Machine.stride, hdf]; rfl
    rw [UInt32.ofNat_add] at hesi hedi
    replace hesi : m.esi = src + UInt32.ofNat k := by rw [hesi]; show src + (UInt32.ofNat k + 1) - 1 = _; grind
    replace hedi : m.edi = dest + UInt32.ofNat k := by rw [hedi]; show dest + (UInt32.ofNat k + 1) - 1 = _; grind
    have h := ih (m := m.movs 1) (by
      show m.esi + m.stride 1 = _
      rw [hstride, hesi]
      grind) (by
      show m.edi + m.stride 1 = _
      rw [hstride, hedi]
      grind) hdf
    rw [Function.iterate_succ_apply, h.1, movs_one_mem, hesi, hedi]
    exact ⟨rfl, h.2⟩

theorem memmoveEnds_up {m : Machine} (h : m.edi ≤ m.esi) : memmoveEnds m = m :=
  if_pos ((Flags.ae_cmp _ _).2 h)

theorem memmoveEnds_down {m : Machine} (h : m.esi < m.edi) :
    memmoveEnds m = { m with esi := m.esi + m.ecx - 1, edi := m.edi + m.ecx - 1, df := true } := by
  refine if_neg ?_
  rw [Flags.ae_cmp]
  exact Nat.not_le.2 h

theorem memmove_up {dest src : UInt32} (n : UInt32) (m : Machine) (h : dest ≤ src) :
    (memmove dest src n m).mem = m.mem.copyUp dest src n.toNat ∧ (memmove dest src n m).df = false := by
  have hstart : Copied dest src m.mem 0 (memmoveEntry dest src n m) :=
    ⟨(offset_zero _).symm, (offset_zero _).symm, rfl⟩
  obtain ⟨hcopied, hdf⟩ := movs_up hstart rfl n.toNat
  rw [memmove, memmoveEnds_up (m := memmoveEntry dest src n m) h]
  exact ⟨hcopied.mem, hdf⟩

theorem memmove_down {dest src : UInt32} (n : UInt32) (m : Machine) (h : src < dest) :
    (memmove dest src n m).mem = m.mem.copyDown dest src n.toNat ∧ (memmove dest src n m).df = true := by
  rw [memmove, memmoveEnds_down (m := memmoveEntry dest src n m) h]
  exact movs_down (by rw [UInt32.ofNat_toNat]; rfl) (by rw [UInt32.ofNat_toNat]; rfl) rfl

/-! ## Where memmove is right -/

/-- Bytes of two ranges are one when the distance of the ranges is that of their indices. -/
theorem offset_eq_offset_iff {dest src : UInt32} {i j : Nat} (hi : i < 2 ^ 32) (hj : j < 2 ^ 32) :
    src + UInt32.ofNat i = dest + UInt32.ofNat j ↔
      (src - dest).toNat + i = j ∨ (src - dest).toNat + i = j + 2 ^ 32 := by
  have hsrc := src.toNat_lt
  have hdest := dest.toNat_lt
  rw [← UInt32.toNat_inj, UInt32.toNat_add, UInt32.toNat_add, UInt32.toNat_ofNat', UInt32.toNat_ofNat',
    UInt32.toNat_sub]
  omega

theorem memmove_up_moved {dest src n : UInt32} (m : Machine) (h : dest ≤ src)
    (hwrap : src = dest ∨ n.toNat + (src - dest).toNat ≤ 2 ^ 32) : Moved dest src n m (memmove dest src n m) := by
  have hn := n.toNat_lt
  obtain ⟨hmem, hdf⟩ := memmove_up n m h
  refine ⟨?_, hdf⟩
  rw [hmem, Memory.copyUp_eq_store hn.le]
  intro i hi j hj heq
  rw [offset_eq_offset_iff (by omega) (by omega)] at heq
  rcases hwrap with rfl | hwrap
  · rw [UInt32.sub_self] at heq
    have hzero : (0 : UInt32).toNat = 0 := rfl
    omega
  · omega

/-- Downwards only the direction flag is wrong. -/
theorem memmove_down_mem {dest src n : UInt32} (m : Machine) (h : src < dest)
    (hwrap : n.toNat + (dest - src).toNat ≤ 2 ^ 32) :
    (memmove dest src n m).mem = m.mem.store dest (m.mem.load src n.toNat) := by
  have hn := n.toNat_lt
  obtain ⟨hmem, -⟩ := memmove_down n m h
  rw [hmem, Memory.copyDown_eq_store hn.le]
  intro i hi j hj hij heq
  rw [eq_comm, offset_eq_offset_iff (by omega) (by omega)] at heq
  omega

theorem copyUp_const (v : UInt8) (dst src : UInt32) (n : Nat) :
    Memory.copyUp (fun _ => v) dst src n = fun _ => v := by
  induction n with
  | zero => rfl
  | succ n ih =>
    rw [Memory.copyUp, ih]
    exact Function.update_eq_self _ _

/-- A range that wraps into the other one reads a byte it has already written. -/
theorem not_moved_of_wrap {dest src n : UInt32} (h : dest ≤ src) (hne : src ≠ dest)
    (hwrap : 2 ^ 32 < n.toNat + (src - dest).toNat) :
    ¬ ∀ m, Moved dest src n m (memmove dest src n m) := by
  intro hall
  have hd : (src - dest).toNat ≠ 0 := fun hd => hne (by
    have := offset_toNat dest src
    rwa [hd, offset_zero, eq_comm] at this)
  have hn := n.toNat_lt
  have hlt := (src - dest).toNat_lt
  let mem : Memory := Function.update (fun _ => 0) dest 1
  have hmem := (hall { machineZero with mem := mem }).mem
  have hzero : mem.copyUp dest src n.toNat = fun _ => 0 := by
    have hone : mem.copyUp dest src 1 = fun _ => 0 := by
      have hsrc : mem src = 0 := Function.update_of_ne hne _ _
      rw [Memory.copyUp, Memory.copyUp, offset_zero, offset_zero, hsrc, Function.update_idem,
        Function.update_eq_self_iff]
    rw [show n.toNat = 1 + (n.toNat - 1) by omega, Memory.copyUp_add, hone, copyUp_const]
  rw [(memmove_up n _ h).1, hzero] at hmem
  -- the byte at the index where the source reaches the start of the destination
  have hbyte := congrFun hmem (dest + UInt32.ofNat (2 ^ 32 - (src - dest).toNat))
  have hsrc : src + UInt32.ofNat (2 ^ 32 - (src - dest).toNat) = dest + UInt32.ofNat 0 :=
    (offset_eq_offset_iff (by omega) (by omega)).2 (Or.inr (by omega))
  rw [Memory.store_offset _ _ _ (by omega), List.getD_eq_getElem _ _ (by rw [Memory.length_load]; omega),
    Memory.getElem_load, hsrc, offset_zero] at hbyte
  have hdest : mem dest = 1 := Function.update_self _ _ _
  exact absurd (hbyte.trans hdest) (by decide)

/-- `memmove` does what it should exactly when it copies upwards and the ranges do not wrap into each other. -/
theorem memmove_moved_iff (dest src n : UInt32) :
    (∀ m, Moved dest src n m (memmove dest src n m)) ↔
      dest ≤ src ∧ (src = dest ∨ n.toNat + (src - dest).toNat ≤ 2 ^ 32) := by
  constructor
  · intro hall
    have hle : dest ≤ src := by
      by_contra hlt
      have hdf := (memmove_down n machineZero (UInt32.not_le.1 hlt)).2
      rw [(hall machineZero).df] at hdf
      cases hdf
    refine ⟨hle, ?_⟩
    by_contra hwrap
    rw [not_or] at hwrap
    exact not_moved_of_wrap hle hwrap.1 (Nat.lt_of_not_le hwrap.2) hall
  · rintro ⟨hle, hwrap⟩ m
    exact memmove_up_moved m hle hwrap

/-- Sixteen bytes moved up by four leave the direction flag set. -/
theorem not_moved_four_up : ¬ Moved 0x1004 0x1000 16 machineZero (memmove 0x1004 0x1000 16 machineZero) := by
  intro h
  have hlt : (0x1000 : UInt32) < 0x1004 := by decide
  have hdf := (memmove_down 16 machineZero hlt).2
  rw [h.df] at hdf
  cases hdf

end Os391
