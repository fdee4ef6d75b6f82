/-
The descriptors of `x86_desc.h`: the code fills their fields, and the processor reads a gate or a segment from the bytes
the fields lie in. `init_idt` fills the interrupt descriptor table, and `entry` the descriptors of the LDT and the TSS.
-/
import Os391.Base.X86

namespace Os391

open X86

/-! ## Gates -/

/-- `idt_desc_t`. The fields of one bit, `dpl` and `present` share a byte, the first of them lowest. -/
structure IdtDesc where
  offset15_00 : UInt16
  segSelector : UInt16
  reserved4 : UInt8
  reserved3 : Bool
  reserved2 : Bool
  reserved1 : Bool
  size : Bool
  reserved0 : Bool
  dpl : Fin 4
  present : Bool
  offset31_16 : UInt16

/-- The byte of the flags. -/
def IdtDesc.flags (d : IdtDesc) : UInt8 :=
  UInt8.ofNat (d.reserved3.toNat + 2 * d.reserved2.toNat + 4 * d.reserved1.toNat + 8 * d.size.toNat +
    16 * d.reserved0.toNat + 32 * d.dpl.val + 128 * d.present.toNat)

/-- The descriptor in memory. -/
def IdtDesc.bytes (d : IdtDesc) : List UInt8 :=
  le16 d.offset15_00 ++ le16 d.segSelector ++ [d.reserved4, d.flags] ++ le16 d.offset31_16

/-- A gate of 32 bits as the processor sees it. -/
structure Gate where
  offset : UInt32
  selector : UInt16
  trap : Bool
  dpl : UInt8
  deriving DecidableEq

/-- The gate in the eight bytes of a descriptor; `none` if it is not present or of no such type. -/
def Gate.ofBytes (bs : List UInt8) : Option Gate :=
  let access := bs.getD 5 0
  if access &&& 0x9E = 0x8E then
    some
      { offset := (of16 (bs.take 2)).toUInt32 ||| (of16 (bs.drop 6)).toUInt32 <<< 16
        selector := of16 (bs.drop 2)
        trap := access &&& 1 ≠ 0
        dpl := (access >>> 5) &&& 3 }
  else none

/-! ## idt.c -/

/-- The functions that `init_idt` takes the addresses of. -/
inductive Handler
  | divideBy0
  | debug
  | nonMaskIntr
  | breakpoint
  | overflow
  | outOfBounds
  | invalidOp
  | noCoprocessor
  | doubleFault
  | coprocessorSegmentOverrun
  | badTSS
  | noSegment
  | stackFault
  | generalProtection
  | pageFault
  | coprocessorFault
  | alignmentCheck
  | machineCheck
  | simdCoprocessorError
  | ignoreInt
  | keyboardHandler
  | rtcHandler
  | syscallHandler
  deriving DecidableEq

/-- `SET_IDT_ENTRY`. -/
def IdtDesc.setEntry (handler : UInt32) (d : IdtDesc) : IdtDesc :=
  { d with
    offset31_16 := ((handler &&& 0xFFFF0000) >>> 16).toUInt16
    offset15_00 := (handler &&& 0xFFFF).toUInt16 }

/-- What the three functions below do. -/
def setGate (reserved3 : Bool) (dpl : Fin 4) (num : Nat) (address : UInt32) (idt : Nat → IdtDesc) : Nat → IdtDesc :=
  Function.update idt num
    (({ idt num with
        segSelector := 0x10
        reserved4 := (idt num).reserved4 &&& 0x1F
        reserved3 := reserved3
        reserved2 := true
        reserved1 := true
        size := true
        reserved0 := false
        dpl := dpl
        present := true } : IdtDesc).setEntry address)

/-- `set_trap_gate`. -/
def setTrapGate : Nat → UInt32 → (Nat → IdtDesc) → Nat → IdtDesc := setGate true 0

/-- `set_intr_gate`. -/
def setIntrGate : Nat → UInt32 → (Nat → IdtDesc) → Nat → IdtDesc := setGate false 0

/-- `set_system_gate`. -/
def setSystemGate : Nat → UInt32 → (Nat → IdtDesc) → Nat → IdtDesc := setGate true 3

/-- `init_idt`, with the addresses of the handlers. -/
def initIdt (addr : Handler → UInt32) (idt : Nat → IdtDesc) : Nat → IdtDesc :=
  let idt := setTrapGate 0 (addr .divideBy0) idt
  let idt := setTrapGate 1 (addr .debug) idt
  let idt := setIntrGate 2 (addr .nonMaskIntr) idt
  let idt := setSystemGate 3 (addr .breakpoint) idt
  let idt := setSystemGate 4 (addr .overflow) idt
  let idt := setSystemGate 5 (addr .outOfBounds) idt
  let idt := setTrapGate 6 (addr .invalidOp) idt
  let idt := setTrapGate 7 (addr .noCoprocessor) idt
  let idt := setTrapGate 8 (addr .doubleFault) idt
  let idt := setTrapGate 9 (addr .coprocessorSegmentOverrun) idt
  let idt := setTrapGate 10 (addr .badTSS) idt
  let idt := setTrapGate 11 (addr .noSegment) idt
  let idt := setTrapGate 12 (addr .stackFault) idt
  let idt := setTrapGate 13 (addr .generalProtection) idt
  let idt := setIntrGate 14 (addr .pageFault) idt
  let idt := setTrapGate 15 (addr .coprocessorFault) idt
  let idt := setTrapGate 16 (addr .alignmentCheck) idt
  let idt := setTrapGate 17 (addr .machineCheck) idt
  let idt := setTrapGate 18 (addr .simdCoprocessorError) idt
  let idt := (List.range' 19 13).foldl (fun idt i => setTrapGate i (addr .ignoreInt) idt) idt
  let idt := (List.range' 32 224).foldl (fun idt i => setIntrGate i (addr .ignoreInt) idt) idt
  let idt := setIntrGate 33 (addr .keyboardHandler) idt
  let idt := setIntrGate 40 (addr .rtcHandler) idt
  setSystemGate 128 (addr .syscallHandler) idt

/-! ## The table -/

/-- The handlers of the exceptions, from vector 0 on. -/
def exceptions : List Handler :=
  [.divideBy0, .debug, .nonMaskIntr, .breakpoint, .overflow, .outOfBounds, .invalidOp, .noCoprocessor, .doubleFault,
    .coprocessorSegmentOverrun, .badTSS, .noSegment, .stackFault, .generalProtection, .pageFault, .coprocessorFault,
    .alignmentCheck, .machineCheck, .simdCoprocessorError]

/-- The handler of a vector. -/
def handlerOf (n : Nat) : Handler :=
  if n = 33 then .keyboardHandler
  else if n = 40 then .rtcHandler
  else if n = 128 then .syscallHandler
  else exceptions.getD n .ignoreInt

/-- The vectors a user program may name. -/
def userVectors : List Nat := [3, 4, 5, 128]

/-- The gate of a vector. -/
def gateOf (addr : Handler → UInt32) (n : Nat) : Gate :=
  { offset := addr (handlerOf n)
    selector := 0x10
    trap := n = 128 ∨ n < 32 ∧ n ≠ 2 ∧ n ≠ 14
    dpl := if n ∈ userVectors then 3 else 0 }

/-! ## Fields -/

/-- A field that covers some bits of a word. -/
theorem field_toNat (a : UInt32) {k n : Nat} (hk : k < 32) (m : UInt32) (hm : m.toNat = (2 ^ n - 1) <<< k) :
    ((a &&& m) >>> UInt32.ofNat k).toNat = a.toNat / 2 ^ k % 2 ^ n := by
  rw [UInt32.toNat_shiftRight, UInt32.toNat_and, UInt32.toNat_ofNat', Nat.mod_eq_of_lt (by omega : k < 2 ^ 32),
    Nat.mod_eq_of_lt hk, Nat.shiftRight_and_distrib, hm, Nat.shiftLeft_shiftRight, Nat.and_two_pow_sub_one_eq_mod,
    Nat.shiftRight_eq_div_pow]

/-- A field put above others. -/
theorem above_toNat {x y : UInt32} {k : Nat} (hk : k < 32) (hx : x.toNat < 2 ^ k) (hy : y.toNat * 2 ^ k < 2 ^ 32) :
    (x ||| y <<< UInt32.ofNat k).toNat = x.toNat + y.toNat * 2 ^ k := by
  rw [UInt32.toNat_or, UInt32.toNat_shiftLeft, UInt32.toNat_ofNat', Nat.mod_eq_of_lt (by omega : k < 2 ^ 32),
    Nat.mod_eq_of_lt hk, Nat.shiftLeft_eq, Nat.mod_eq_of_lt hy, Nat.or_comm, ← Nat.shiftLeft_eq,
    ← Nat.shiftLeft_add_eq_or_of_lt hx, Nat.shiftLeft_eq, Nat.add_comm]

theorem low_toNat (a : UInt32) : (a &&& 0xFFFF).toUInt16.toUInt32.toNat = a.toNat % 2 ^ 16 := by
  rw [UInt16.toNat_toUInt32, UInt32.toNat_toUInt16, UInt32.toNat_and]
  show (a.toNat &&& (2 ^ 16 - 1)) % 2 ^ 16 = _
  rw [Nat.and_two_pow_sub_one_eq_mod, Nat.mod_mod]

/-- An address comes back from its two halves. -/
theorem halves (a : UInt32) :
    ((a &&& 0xFFFF).toUInt16.toUInt32 ||| ((a &&& 0xFFFF0000) >>> 16).toUInt16.toUInt32 <<< 16) = a := by
  have hlt := a.toNat_lt
  have hlow := low_toNat a
  have hhigh : ((a &&& 0xFFFF0000) >>> 16).toUInt16.toUInt32.toNat = a.toNat / 2 ^ 16 := by
    have hfield : ((a &&& 0xFFFF0000) >>> 16).toNat = a.toNat / 2 ^ 16 % 2 ^ 16 := field_toNat a (by decide) _ rfl
    rw [UInt16.toNat_toUInt32, UInt32.toNat_toUInt16, hfield]
    omega
  refine UInt32.toNat_inj.1 ((above_toNat (k := 16) (by decide) (by omega) (by omega)).trans ?_)
  omega

/-- The base comes back from its three fields. -/
theorem base_fields (a : UInt32) :
    ((a &&& 0x0000FFFF).toUInt16.toUInt32 ||| ((a &&& 0x00FF0000) >>> 16).toUInt8.toUInt32 <<< 16 |||
      ((a &&& 0xFF000000) >>> 24).toUInt8.toUInt32 <<< 24) = a := by
  have hlt := a.toNat_lt
  have hlow := low_toNat a
  have hmid : ((a &&& 0x00FF0000) >>> 16).toUInt8.toUInt32.toNat = a.toNat / 2 ^ 16 % 2 ^ 8 := by
    have hfield : ((a &&& 0x00FF0000) >>> 16).toNat = a.toNat / 2 ^ 16 % 2 ^ 8 := field_toNat a (by decide) _ rfl
    rw [UInt8.toNat_toUInt32, UInt32.toNat_toUInt8, hfield, Nat.mod_mod]
  have hhigh : ((a &&& 0xFF000000) >>> 24).toUInt8.toUInt32.toNat = a.toNat / 2 ^ 24 := by
    have hfield : ((a &&& 0xFF000000) >>> 24).toNat = a.toNat / 2 ^ 24 % 2 ^ 8 := field_toNat a (by decide) _ rfl
    rw [UInt8.toNat_toUInt32, UInt32.toNat_toUInt8, hfield]
    omega
  have hboth : ((a &&& 0x0000FFFF).toUInt16.toUInt32 ||| ((a &&& 0x00FF0000) >>> 16).toUInt8.toUInt32 <<< 16).toNat =
      a.toNat % 2 ^ 24 := by
    refine (above_toNat (k := 16) (by decide) (by omega) (by omega)).trans ?_
    omega
  refine UInt32.toNat_inj.1 ((above_toNat (k := 24) (by decide) (by omega) (by omega)).trans ?_)
  omega

/-- The limit comes back from its two fields if it has 20 bits. -/
theorem limit_fields {l : UInt32} (h : l.toNat < 2 ^ 20) :
    ((l &&& 0x0000FFFF).toUInt16.toUInt32 ||| (UInt32.ofNat ((l &&& 0x000F0000) >>> 16).toNat) <<< 16) = l := by
  have hlow := low_toNat l
  have hhigh : (UInt32.ofNat ((l &&& 0x000F0000) >>> 16).toNat).toNat = l.toNat / 2 ^ 16 := by
    have hfield : ((l &&& 0x000F0000) >>> 16).toNat = l.toNat / 2 ^ 16 % 2 ^ 4 := field_toNat l (by decide) _ rfl
    rw [UInt32.ofNat_toNat, hfield]
    omega
  refine UInt32.toNat_inj.1 ((above_toNat (k := 16) (by decide) (by omega) (by omega)).trans ?_)
  omega

/-- What the processor finds where a gate has been set, whatever was there. -/
theorem gate_setGate (t : Bool) (dpl : Fin 4) (num n : Nat) (address : UInt32) (idt : Nat → IdtDesc) :
    Gate.ofBytes (setGate t dpl num address idt n).bytes =
      if n = num then some ⟨address, 0x10, t, UInt8.ofNat dpl⟩ else Gate.ofBytes (idt n).bytes := by
  unfold setGate
  rw [Function.update_apply]
  split_ifs with h
  · have hflags : ∀ (t : Bool) (dpl : Fin 4), let f := UInt8.ofNat (t.toNat + 2 + 4 + 8 + 0 + 32 * dpl.val + 128)
        f &&& 0x9E = 0x8E ∧ decide (f &&& 1 ≠ 0) = t ∧ (f >>> 5) &&& 3 = UInt8.ofNat dpl := by decide
    obtain ⟨hpresent, htrap, hdpl⟩ := hflags t dpl
    have h16 : ∀ (v : UInt16) (bs : List UInt8), of16 (le16 v ++ bs) = v := fun v bs => of16_le16 v
    unfold Gate.ofBytes
    show (if (_ : UInt8) &&& 0x9E = 0x8E then _ else none) = _
    refine (if_pos hpresent).trans (congrArg some ?_)
    simp only [Gate.mk.injEq]
    refine ⟨?_, h16 _ _, htrap, hdpl⟩
    refine Eq.trans ?_ (halves address)
    exact congrArg₂ (fun a b : UInt16 => a.toUInt32 ||| b.toUInt32 <<< 16) (of16_le16 _) (of16_le16 _)
  · rfl

theorem gate_fold (t : Bool) (dpl : Fin 4) (address : UInt32) (n : Nat) : ∀ (k s : Nat) (idt : Nat → IdtDesc),
    Gate.ofBytes ((List.range' s k).foldl (fun idt i => setGate t dpl i address idt) idt n).bytes =
      if s ≤ n ∧ n < s + k then some ⟨address, 0x10, t, UInt8.ofNat dpl⟩ else Gate.ofBytes (idt n).bytes
  | 0, s, idt => by
    rw [if_neg (by omega)]
    rfl
  | k + 1, s, idt => by
    rw [List.range'_succ, List.foldl_cons, gate_fold t dpl address n k, gate_setGate]
    by_cases hn : n = s
    · rw [if_neg (by omega), if_pos hn, if_pos (by omega)]
    · rw [if_neg hn]
      exact if_congr (by omega) rfl rfl

/-- The vectors past the exceptions that have no handler of their own. -/
theorem gateOf_rest (addr : Handler → UInt32) {n : Nat} (hn : 19 ≤ n) (h33 : n ≠ 33) (h40 : n ≠ 40) (h128 : n ≠ 128) :
    gateOf addr n = ⟨addr .ignoreInt, 0x10, n < 32, 0⟩ := by
  have hhandler : handlerOf n = .ignoreInt := by
    unfold handlerOf
    rw [if_neg h33, if_neg h40, if_neg h128]
    exact List.getD_eq_default _ _ hn
  have huser : n ∉ userVectors := by
    unfold userVectors
    simp only [List.mem_cons, List.not_mem_nil, or_false]
    omega
  have htrap : (n = 128 ∨ n < 32 ∧ n ≠ 2 ∧ n ≠ 14) ↔ n < 32 := by omega
  simp only [gateOf, hhandler, if_neg huser, htrap]

/-- After `init_idt` every vector has its gate, whatever the table held before. -/
theorem gate_initIdt (addr : Handler → UInt32) (idt : Nat → IdtDesc) {n : Nat} (hn : n < 256) :
    Gate.ofBytes (initIdt addr idt n).bytes = some (gateOf addr n) := by
  unfold initIdt setTrapGate setIntrGate setSystemGate
  rw [gate_setGate, gate_setGate, gate_setGate, gate_fold, gate_fold]
  iterate 19 rw [gate_setGate]
  by_cases hrest : 19 ≤ n ∧ n ≠ 33 ∧ n ≠ 40 ∧ n ≠ 128
  · obtain ⟨hlow, h33, h40, h128⟩ := hrest
    rw [gateOf_rest addr hlow h33 h40 h128, if_neg h128, if_neg h40, if_neg h33]
    by_cases h32 : 32 ≤ n
    · rw [if_pos ⟨h32, hn⟩, decide_eq_false (by omega)]
      rfl
    · rw [if_neg (by omega), if_pos (by omega), decide_eq_true (by omega)]
      rfl
  · have hnamed : n < 19 ∨ n = 33 ∨ n = 40 ∨ n = 128 := by omega
    rcases hnamed with hlow | rfl | rfl | rfl
    · interval_cases n <;> rfl
    all_goals rfl

/-! ## Interrupts of programs -/

/-- Where `int n` leads at a privilege level: through the gate, or to the general protection fault. -/
def softInt (idt : Nat → IdtDesc) (cpl : UInt8) (n : Nat) : Option UInt32 :=
  (Gate.ofBytes (idt n).bytes).bind fun g =>
    if cpl ≤ g.dpl then some g.offset else (Gate.ofBytes (idt 13).bytes).map Gate.offset

/-- A user program gets into the kernel by the breakpoint, overflow, bounds and system call vectors alone; any other ends
in the general protection fault. -/
theorem softInt_user (addr : Handler → UInt32) (idt : Nat → IdtDesc) {n : Nat} (hn : n < 256) :
    softInt (initIdt addr idt) 3 n = some (addr (if n ∈ userVectors then handlerOf n else .generalProtection)) := by
  unfold softInt
  rw [gate_initIdt addr idt hn, gate_initIdt addr idt (by decide : 13 < 256), Option.bind_some]
  by_cases huser : n ∈ userVectors
  · rw [if_pos huser, show (gateOf addr n).dpl = 3 from if_pos huser]
    rfl
  · rw [if_neg huser, show (gateOf addr n).dpl = 0 from if_neg huser]
    rfl

/-- A table of zeros, and handlers that lie 16 bytes apart. -/
def blankIdt : Nat → IdtDesc := fun _ => ⟨0, 0, 0, false, false, false, false, false, 0, false, 0⟩
def apart (h : Handler) : UInt32 := 0x400000 + 16 * UInt32.ofNat h.ctorIdx

theorem softInt_user_keyboard : softInt (initIdt apart blankIdt) 3 33 = some (apart .generalProtection) :=
  (softInt_user apart blankIdt (by decide)).trans rfl

/-! ## Segments -/

/-- `seg_desc_t`. The fields of less than a byte share two bytes, the first of them lowest. -/
structure SegDesc where
  segLim15_00 : UInt16
  base15_00 : UInt16
  base23_16 : UInt8
  type : Fin 16
  sys : Bool
  dpl : Fin 4
  present : Bool
  segLim19_16 : Fin 16
  avail : Bool
  reserved : Bool
  opsize : Bool
  granularity : Bool
  base31_24 : UInt8

/-- The byte of the type and the access rights. -/
def SegDesc.access (d : SegDesc) : UInt8 :=
  UInt8.ofNat (d.type.val + 16 * d.sys.toNat + 32 * d.dpl.val + 128 * d.present.toNat)

/-- The byte of the high bits of the limit and the flags. -/
def SegDesc.flags (d : SegDesc) : UInt8 :=
  UInt8.ofNat (d.segLim19_16.val + 16 * d.avail.toNat + 32 * d.reserved.toNat + 64 * d.opsize.toNat +
    128 * d.granularity.toNat)

/-- The descriptor in memory. -/
def SegDesc.bytes (d : SegDesc) : List UInt8 :=
  le16 d.segLim15_00 ++ le16 d.base15_00 ++ [d.base23_16, d.access, d.flags, d.base31_24]

/-- `SET_LDT_PARAMS` and `SET_TSS_PARAMS`, which are the same. A field of four bits keeps the low four of what is
assigned. -/
def SegDesc.setParams (addr lim : UInt32) (d : SegDesc) : SegDesc :=
  { d with
    base31_24 := ((addr &&& 0xFF000000) >>> 24).toUInt8
    base23_16 := ((addr &&& 0x00FF0000) >>> 16).toUInt8
    base15_00 := (addr &&& 0x0000FFFF).toUInt16
    segLim19_16 := Fin.ofNat 16 ((lim &&& 0x000F0000) >>> 16).toNat
    segLim15_00 := (lim &&& 0x0000FFFF).toUInt16 }

/-- `the_ldt_desc` of `entry`, with what the stack held before. -/
def theLdtDesc (d : SegDesc) (addr lim : UInt32) : SegDesc :=
  ({ d with
      granularity := false, opsize := true, reserved := false, avail := false
      present := true, dpl := 0, sys := false, type := 2 } : SegDesc).setParams addr lim

/-- `the_tss_desc` of `entry`. The limits it sets by itself are overwritten. -/
def theTssDesc (d : SegDesc) (addr lim : UInt32) : SegDesc :=
  ({ d with
      granularity := false, opsize := false, reserved := false, avail := false
      segLim19_16 := Fin.ofNat 16 ((104 : UInt32) &&& 0x000F0000).toNat
      present := true, dpl := 0, sys := false, type := 9
      segLim15_00 := ((104 : UInt32) &&& 0x0000FFFF).toUInt16 } : SegDesc).setParams addr lim

/-- A segment as the processor sees it. -/
structure Segment where
  base : UInt32
  limit : UInt32
  type : UInt8
  system : Bool
  dpl : UInt8
  present : Bool
  pages : Bool
  deriving DecidableEq

/-- The segment in the eight bytes of a descriptor. -/
def Segment.ofBytes (bs : List UInt8) : Segment :=
  let access := bs.getD 5 0
  let flags := bs.getD 6 0
  { base := (of16 (bs.drop 2)).toUInt32 ||| (bs.getD 4 0).toUInt32 <<< 16 ||| (bs.getD 7 0).toUInt32 <<< 24
    limit := (of16 bs).toUInt32 ||| (flags &&& 0xF).toUInt32 <<< 16
    type := access &&& 0xF
    system := access &&& 0x10 = 0
    dpl := (access >>> 5) &&& 3
    present := access &&& 0x80 ≠ 0
    pages := flags &&& 0x80 ≠ 0 }

/-- The segment of a descriptor whose granularity is a byte. -/
theorem segment_setParams (d : SegDesc) (hp : d.granularity = false) (hr : d.reserved = false) (ha : d.avail = false)
    (addr lim : UInt32) (h : lim.toNat < 2 ^ 20) :
    Segment.ofBytes (d.setParams addr lim).bytes =
      { base := addr, limit := lim, type := d.access &&& 0xF, system := d.access &&& 0x10 = 0, dpl := (d.access >>> 5) &&& 3
        present := d.access &&& 0x80 ≠ 0, pages := false } := by
  have hflags : ∀ (f : Fin 16) (o : Bool), let b := UInt8.ofNat (f.val + 16 * 0 + 32 * 0 + 64 * o.toNat + 128 * 0)
      (b &&& 0xF).toUInt32 = UInt32.ofNat f.val ∧ decide (b &&& 0x80 ≠ 0) = false := by decide
  have hfield : ((lim &&& 0x000F0000) >>> 16).toNat < 16 := by
    have hmod : ((lim &&& 0x000F0000) >>> 16).toNat = lim.toNat / 2 ^ 16 % 2 ^ 4 := field_toNat lim (by decide) _ rfl
    omega
  have hbits : (d.setParams addr lim).flags =
      UInt8.ofNat ((Fin.ofNat 16 ((lim &&& 0x000F0000) >>> 16).toNat).val + 16 * 0 + 32 * 0 + 64 * d.opsize.toNat + 128 * 0) := by
    simp only [SegDesc.flags, SegDesc.setParams, hp, hr, ha, Bool.toNat_false]
  obtain ⟨hlimit, hpages⟩ := hflags (Fin.ofNat 16 ((lim &&& 0x000F0000) >>> 16).toNat) d.opsize
  rw [← hbits] at hlimit hpages
  unfold Segment.ofBytes
  simp only [Segment.mk.injEq]
  refine ⟨?_, ?_, rfl, rfl, rfl, rfl, hpages⟩
  · refine Eq.trans ?_ (base_fields addr)
    exact congrArg (fun v : UInt16 => v.toUInt32 ||| (_ : UInt32) <<< (16 : UInt32) ||| (_ : UInt32) <<< (24 : UInt32))
      (of16_le16 _)
  · refine Eq.trans ?_ (limit_fields h)
    have hval : (Fin.ofNat 16 ((lim &&& 0x000F0000) >>> 16).toNat).val = ((lim &&& 0x000F0000) >>> 16).toNat :=
      Nat.mod_eq_of_lt hfield
    rw [hval] at hlimit
    exact congrArg₂ (fun (v : UInt16) (w : UInt32) => v.toUInt32 ||| w <<< (16 : UInt32)) (of16_le16 _) hlimit

/-- What the processor finds for the two descriptors of `entry`, wherever the LDT and the TSS lie and whatever the stack
held: their base and limit, the types of an LDT and of a TSS that is not busy, and no privilege but the kernel's. -/
theorem segments_entry (d : SegDesc) (addr lim : UInt32) (h : lim.toNat < 2 ^ 20) :
    Segment.ofBytes (theLdtDesc d addr lim).bytes = ⟨addr, lim, 2, true, 0, true, false⟩ ∧
      Segment.ofBytes (theTssDesc d addr lim).bytes = ⟨addr, lim, 9, true, 0, true, false⟩ := by
  unfold theLdtDesc theTssDesc
  constructor
  · rw [segment_setParams _ rfl rfl rfl addr lim h]
    simp only [SegDesc.access]
    congr 1 <;> exact decide_eq_true (by decide)
  · rw [segment_setParams _ rfl rfl rfl addr lim h]
    simp only [SegDesc.access]
    congr 1 <;> exact decide_eq_true (by decide)

/-- The TSS of 104 bytes at 5 MB. -/
theorem segments_entry_tss :
    Segment.ofBytes (theTssDesc ⟨0, 0, 0, 0, false, 0, false, 0, false, false, false, false, 0⟩ 0x500000 103).bytes =
      ⟨0x500000, 103, 9, true, 0, true, false⟩ :=
  (segments_entry _ 0x500000 103 (by decide)).2

end Os391
