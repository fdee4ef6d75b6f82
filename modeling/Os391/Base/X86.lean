/-
A machine with the registers of a 386, a byte memory with 32-bit addresses and a stack in it. The rules follow
what lies on the stack through pushes, pops and calls of C functions, wherever the stack is.
-/
import Os391.Base.Bytes
import Mathlib.Data.List.GetD

namespace X86

open Bytes

/-- Memory by address. Addresses wrap. -/
abbrev Memory := UInt32 → UInt8

/-! ## Addresses -/

theorem toNat_offset (p : UInt32) {k : Nat} (hk : k < 2 ^ 32) : (p + UInt32.ofNat k - p).toNat = k := by
  rw [show p + UInt32.ofNat k - p = UInt32.ofNat k by grind, UInt32.toNat_ofNat', Nat.mod_eq_of_lt hk]

theorem offset_toNat (p a : UInt32) : p + UInt32.ofNat (a - p).toNat = a := by
  rw [UInt32.ofNat_toNat]
  grind

theorem offset_add (p : UInt32) (i j : Nat) : p + UInt32.ofNat i + UInt32.ofNat j = p + UInt32.ofNat (i + j) := by
  rw [UInt32.ofNat_add]
  grind

theorem offset_zero (p : UInt32) : p + UInt32.ofNat 0 = p := UInt32.add_zero p

/-! ## Bytes in memory -/

/-- `n` bytes from an address on. -/
def Memory.load (mem : Memory) (p : UInt32) (n : Nat) : List UInt8 :=
  (List.range n).map fun i => mem (p + UInt32.ofNat i)

/-- Bytes stored from an address on. -/
def Memory.store (mem : Memory) (p : UInt32) (bs : List UInt8) : Memory := fun a => bs.getD (a - p).toNat (mem a)

@[simp] theorem Memory.length_load (mem : Memory) (p : UInt32) (n : Nat) : (mem.load p n).length = n := by
  simp [load]

theorem Memory.getElem_load (mem : Memory) (p : UInt32) {n i : Nat} (h : i < (mem.load p n).length) :
    (mem.load p n)[i] = mem (p + UInt32.ofNat i) := by
  simp [load]

theorem Memory.load_add (mem : Memory) (p : UInt32) (m n : Nat) :
    mem.load p (m + n) = mem.load p m ++ mem.load (p + UInt32.ofNat m) n := by
  simp only [load, List.range_add, List.map_append, List.map_map, Function.comp_def, offset_add]

theorem Memory.load_congr {mem mem' : Memory} {p : UInt32} {n : Nat}
    (h : ∀ i < n, mem (p + UInt32.ofNat i) = mem' (p + UInt32.ofNat i)) : mem.load p n = mem'.load p n :=
  List.map_congr_left fun i hi => h i (List.mem_range.1 hi)

theorem Memory.store_offset (mem : Memory) (p : UInt32) (bs : List UInt8) {k : Nat} (hk : k < 2 ^ 32) :
    mem.store p bs (p + UInt32.ofNat k) = bs.getD k (mem (p + UInt32.ofNat k)) := by
  rw [store, toNat_offset p hk]

/-- What is stored is loaded again. -/
theorem Memory.load_store (mem : Memory) (p : UInt32) {bs : List UInt8} (h : bs.length ≤ 2 ^ 32) :
    (mem.store p bs).load p bs.length = bs := by
  refine List.ext_getElem (by simp) fun i hi hi' => ?_
  rw [getElem_load, store_offset mem p bs (by omega), List.getD_eq_getElem _ _ hi']

/-- The bytes behind those stored stay. -/
theorem Memory.load_store_behind (mem : Memory) (p : UInt32) {bs : List UInt8} {n : Nat} (h : bs.length + n ≤ 2 ^ 32) :
    (mem.store p bs).load (p + UInt32.ofNat bs.length) n = mem.load (p + UInt32.ofNat bs.length) n := by
  refine load_congr fun i hi => ?_
  rw [offset_add, store_offset mem p bs (by omega), List.getD_eq_default _ _ (by omega)]

/-! ## Bytes one after the other -/

/-- Bytes copied one at a time, the lowest first. -/
def Memory.copyUp (mem : Memory) (dst src : UInt32) : Nat → Memory
  | 0 => mem
  | k + 1 =>
    let mem' := mem.copyUp dst src k
    Function.update mem' (dst + UInt32.ofNat k) (mem' (src + UInt32.ofNat k))

/-- Bytes copied one at a time, the highest first. -/
def Memory.copyDown (mem : Memory) (dst src : UInt32) : Nat → Memory
  | 0 => mem
  | k + 1 => Memory.copyDown (Function.update mem (dst + UInt32.ofNat k) (mem (src + UInt32.ofNat k))) dst src k

/-- A byte stored again and again. -/
def Memory.fill (mem : Memory) (dst : UInt32) (b : UInt8) : Nat → Memory
  | 0 => mem
  | k + 1 => Function.update (mem.fill dst b k) (dst + UInt32.ofNat k) b

theorem Memory.store_other {mem : Memory} {p a : UInt32} {bs : List UInt8} (h : ∀ j < bs.length, a ≠ p + UInt32.ofNat j) :
    mem.store p bs a = mem a := by
  rcases lt_or_ge (a - p).toNat bs.length with hlt | hge
  · exact absurd (offset_toNat p a).symm (h _ hlt)
  · exact List.getD_eq_default _ _ hge

theorem Memory.store_behind {mem : Memory} {p a : UInt32} {bs : List UInt8} (h : bs.length ≤ (a - p).toNat) :
    mem.store p bs a = mem a :=
  List.getD_eq_default _ _ h

theorem Memory.store_concat (mem : Memory) (p : UInt32) {bs : List UInt8} (b : UInt8) (h : bs.length < 2 ^ 32) :
    mem.store p (bs ++ [b]) = Function.update (mem.store p bs) (p + UInt32.ofNat bs.length) b := by
  funext a
  rw [Function.update_apply]
  split_ifs with ha
  · rw [ha, store_offset _ _ _ h, List.getD_append_right _ _ _ _ le_rfl, Nat.sub_self]
    rfl
  · have hne : (a - p).toNat ≠ bs.length := fun hk => ha (by rw [← hk, offset_toNat])
    unfold store
    rcases lt_or_gt_of_ne hne with hlt | hgt
    · exact List.getD_append _ _ _ _ hlt
    · rw [List.getD_eq_default _ _ hgt.le, List.getD_eq_default _ _ (by simpa using hgt)]

theorem Memory.store_update (mem : Memory) (p : UInt32) {bs : List UInt8} (b : UInt8) (h : bs.length < 2 ^ 32) :
    Memory.store (Function.update mem (p + UInt32.ofNat bs.length) b) p bs = mem.store p (bs ++ [b]) := by
  rw [store_concat mem p b h]
  funext a
  rw [Function.update_apply]
  split_ifs with ha
  · rw [ha, store_offset _ _ _ h, List.getD_eq_default _ _ le_rfl, Function.update_self]
  · unfold store
    rw [Function.update_of_ne ha]

theorem Memory.load_succ (mem : Memory) (p : UInt32) (n : Nat) :
    mem.load p (n + 1) = mem.load p n ++ [mem (p + UInt32.ofNat n)] := by
  rw [load_add]
  simp [load]

theorem Memory.store_one (mem : Memory) (p : UInt32) (b : UInt8) : mem.store p [b] = Function.update mem p b := by
  have h : mem.store p ([] ++ [b]) = _ := store_concat mem p b (by decide)
  rwa [List.nil_append, List.length_nil, offset_zero] at h

theorem Memory.load_one (mem : Memory) (p : UInt32) : mem.load p 1 = [mem p] := by
  rw [load_succ, offset_zero]
  rfl

/-- Copied upwards, the bytes arrive as they were if none is read after it has been written. -/
theorem Memory.copyUp_eq_store {mem : Memory} {dst src : UInt32} {n : Nat} (hn : n ≤ 2 ^ 32)
    (h : ∀ i < n, ∀ j < i, src + UInt32.ofNat i ≠ dst + UInt32.ofNat j) :
    mem.copyUp dst src n = mem.store dst (mem.load src n) := by
  induction n with
  | zero => rfl
  | succ n ih =>
    have hbefore := ih (by omega) fun i hi => h i (by omega)
    have hread : mem.store dst (mem.load src n) (src + UInt32.ofNat n) = mem (src + UInt32.ofNat n) :=
      store_other fun j hj => h n (by omega) j (by simpa using hj)
    rw [copyUp, hbefore, load_succ, store_concat _ _ _ (by rw [length_load]; omega), length_load, hread]

/-- Copied downwards, the same. -/
theorem Memory.copyDown_eq_store {mem : Memory} {dst src : UInt32} {n : Nat} (hn : n ≤ 2 ^ 32)
    (h : ∀ i < n, ∀ j < n, i < j → src + UInt32.ofNat i ≠ dst + UInt32.ofNat j) :
    mem.copyDown dst src n = mem.store dst (mem.load src n) := by
  induction n generalizing mem with
  | zero => rfl
  | succ n ih =>
    have hread : Memory.load (Function.update mem (dst + UInt32.ofNat n) (mem (src + UInt32.ofNat n))) src n =
        mem.load src n :=
      load_congr fun i hi => Function.update_of_ne (h i (by omega) n (by omega) hi) _ _
    have hlen : (mem.load src n).length < 2 ^ 32 := by rw [length_load]; omega
    have hstore := store_update mem dst (mem (src + UInt32.ofNat n)) hlen
    rw [length_load] at hstore
    rw [copyDown, ih (by omega) fun i hi j hj => h i (by omega) j (by omega), hread, hstore, load_succ]

theorem Memory.copyUp_add (mem : Memory) (dst src : UInt32) (k n : Nat) :
    mem.copyUp dst src (k + n) =
      (mem.copyUp dst src k).copyUp (dst + UInt32.ofNat k) (src + UInt32.ofNat k) n := by
  induction n with
  | zero => rfl
  | succ n ih => rw [← Nat.add_assoc, copyUp, copyUp, ih, offset_add, offset_add]

theorem Memory.fill_eq_store (mem : Memory) (dst : UInt32) (b : UInt8) {n : Nat} (hn : n ≤ 2 ^ 32) :
    mem.fill dst b n = mem.store dst (List.replicate n b) := by
  induction n with
  | zero => rfl
  | succ n ih =>
    rw [fill, ih (by omega), List.replicate_succ', store_concat _ _ _ (by rw [List.length_replicate]; omega),
      List.length_replicate]

theorem Memory.fill_add (mem : Memory) (dst : UInt32) (b : UInt8) (k n : Nat) :
    mem.fill dst b (k + n) = (mem.fill dst b k).fill (dst + UInt32.ofNat k) b n := by
  induction n with
  | zero => rfl
  | succ n ih => rw [← Nat.add_assoc, fill, fill, ih, offset_add]

/-! ## Words as bytes -/

/-- The four bytes of a word, the lowest first. -/
def le32 (v : UInt32) : List UInt8 := (List.range 4).map (wordByte v.toNat)

/-- The word of four bytes. -/
def of32 (bs : List UInt8) : UInt32 := word (fun k => bs.getD k 0) 0

/-- The two bytes of a half word, the lower first. -/
def le16 (v : UInt16) : List UInt8 := (List.range 2).map (wordByte v.toNat)

/-- The half word of two bytes. -/
def of16 (bs : List UInt8) : UInt16 := UInt16.ofNat ((bs.getD 0 0).toNat + 2 ^ 8 * (bs.getD 1 0).toNat)

@[simp] theorem length_le32 (v : UInt32) : (le32 v).length = 4 := rfl

@[simp] theorem length_le16 (v : UInt16) : (le16 v).length = 2 := rfl

theorem of32_le32 (v : UInt32) : of32 (le32 v) = v := by
  have hbytes : word (fun k => (le32 v).getD k 0) 0 = word (wordByte v.toNat) 0 :=
    word_congr fun k hk => by
      rw [Nat.zero_add]
      interval_cases k <;> rfl
  exact UInt32.toNat_inj.1 ((congrArg UInt32.toNat hbytes).trans (word_wordByte v.toNat_lt))

theorem of16_le16 (v : UInt16) : of16 (le16 v) = v := by
  have hv := v.toNat_lt
  have h0 : ((le16 v).getD 0 0).toNat = v.toNat % 2 ^ 8 := by
    show (UInt8.ofNat (v.toNat / 2 ^ (8 * 0))).toNat = _
    rw [UInt8.toNat_ofNat']
    omega
  have h1 : ((le16 v).getD 1 0).toNat = v.toNat / 2 ^ 8 % 2 ^ 8 := by
    show (UInt8.ofNat (v.toNat / 2 ^ (8 * 1))).toNat = _
    rw [UInt8.toNat_ofNat']
  refine UInt16.toNat_inj.1 ?_
  rw [of16, h0, h1, UInt16.toNat_ofNat']
  omega

/-! ## Flags -/

/-- The carry, zero, sign and overflow flags. -/
structure Flags where
  cf : Bool
  zf : Bool
  sf : Bool
  of : Bool

namespace Flags

variable {w : Nat}

/-- The flags of `cmp`, those of the difference `a - b`. -/
def cmp (a b : BitVec w) : Flags := ⟨a.toNat < b.toNat, a = b, (a - b).msb, a.ssubOverflow b⟩

/-- The flags of `test`, those of the conjunction. -/
def test (a b : BitVec w) : Flags := ⟨false, a &&& b = 0, (a &&& b).msb, false⟩

/-- Below or equal, without sign. -/
def be (f : Flags) : Bool := f.cf || f.zf

/-- Above or equal, without sign. -/
def ae (f : Flags) : Bool := !f.cf

/-- Greater, with sign. -/
def g (f : Flags) : Bool := !f.zf && f.sf == f.of

/-- Less, with sign. -/
def l (f : Flags) : Bool := f.sf != f.of

theorem be_cmp (a b : BitVec w) : (cmp a b).be = true ↔ a.toNat ≤ b.toNat := by
  simp only [be, cmp, Bool.or_eq_true, decide_eq_true_eq, ← BitVec.toNat_inj]
  omega

theorem ae_cmp (a b : BitVec w) : (cmp a b).ae = true ↔ b.toNat ≤ a.toNat := by
  simp [ae, cmp]

theorem zf_test (a b : BitVec w) : (test a b).zf = true ↔ a &&& b = 0 := by
  simp [test]

/-- Greater than zero, with sign. -/
theorem g_cmp_zero (a : BitVec (w + 1)) : (cmp a 0).g = true ↔ 0 < a.toInt := by
  have hlt := a.two_mul_toInt_lt
  have hle := a.le_two_mul_toInt
  have hzero : (0 : BitVec (w + 1)).toInt = 0 := BitVec.toInt_zero
  have hflow : a.ssubOverflow 0 = false := by
    simp only [BitVec.ssubOverflow, hzero, Bool.or_eq_false_iff, decide_eq_false_iff_not]
    rw [Nat.add_sub_cancel, Int.sub_zero]
    rw [pow_succ] at hlt hle
    omega
  have heq : a = 0 ↔ a.toInt = 0 := by
    rw [← BitVec.toInt_inj, hzero]
  have hsub : a - 0 = a := BitVec.sub_zero a
  have hmsb : a.msb = decide (a.toInt < 0) := BitVec.msb_eq_toInt
  simp only [g, cmp, hflow, hsub, hmsb, heq, Bool.and_eq_true, Bool.not_eq_true', decide_eq_false_iff_not, beq_iff_eq]
  omega

/-- `test` of a bit below the sign bit is never less. -/
theorem l_test {a b : BitVec w} (h : a.msb = false) : (test a b).l = false := by
  simp [l, test, BitVec.msb_and, h]

end Flags

/-! ## The machine -/

/-- The registers that C code and string instructions use, the segment registers, the direction flag and memory. -/
structure Machine where
  eax : UInt32
  ebx : UInt32
  ecx : UInt32
  edx : UInt32
  esi : UInt32
  edi : UInt32
  ebp : UInt32
  esp : UInt32
  es : UInt16
  ds : UInt16
  fs : UInt16
  gs : UInt16
  df : Bool
  mem : Memory

namespace Machine

/-! ## Parts of registers -/

/-- AL. -/
def al (m : Machine) : UInt8 := m.eax.toUInt8

def setAl (b : UInt8) (m : Machine) : Machine := { m with eax := m.eax &&& 0xFFFFFF00 ||| b.toUInt32 }

theorem al_setAl (b : UInt8) (m : Machine) : (m.setAl b).al = b := by
  refine UInt8.toBitVec_inj.1 ?_
  simp [al, setAl]

/-- DX. -/
def dx (m : Machine) : UInt16 := m.edx.toUInt16

def setDx (v : UInt16) (m : Machine) : Machine := { m with edx := m.edx &&& 0xFFFF0000 ||| v.toUInt32 }

/-! ## String instructions -/

/-- What ESI and EDI move by. -/
def stride (m : Machine) (w : UInt32) : UInt32 := if m.df then 0 - w else w

/-- `movsb` and `movsl`, for a width of 1 and 4. -/
def movs (w : Nat) (m : Machine) : Machine :=
  { m with
    mem := m.mem.store m.edi (m.mem.load m.esi w)
    esi := m.esi + m.stride (UInt32.ofNat w)
    edi := m.edi + m.stride (UInt32.ofNat w) }

/-- `stosl`. -/
def stosl (m : Machine) : Machine := { m with mem := m.mem.store m.edi (le32 m.eax), edi := m.edi + m.stride 4 }

/-- `rep`: as often as ECX says. -/
def rep (f : Machine → Machine) (m : Machine) : Machine := { f^[m.ecx.toNat] m with ecx := 0 }

/-! ## The stack -/

/-- A push of some bytes. -/
def push (bs : List UInt8) (m : Machine) : Machine :=
  { m with
    esp := m.esp - UInt32.ofNat bs.length
    mem := m.mem.store (m.esp - UInt32.ofNat bs.length) bs }

section

variable (bs : List UInt8) (m : Machine)

@[simp] theorem push_eax : (m.push bs).eax = m.eax := rfl
@[simp] theorem push_ebx : (m.push bs).ebx = m.ebx := rfl
@[simp] theorem push_ecx : (m.push bs).ecx = m.ecx := rfl
@[simp] theorem push_edx : (m.push bs).edx = m.edx := rfl
@[simp] theorem push_esi : (m.push bs).esi = m.esi := rfl
@[simp] theorem push_edi : (m.push bs).edi = m.edi := rfl
@[simp] theorem push_ebp : (m.push bs).ebp = m.ebp := rfl
@[simp] theorem push_es : (m.push bs).es = m.es := rfl
@[simp] theorem push_ds : (m.push bs).ds = m.ds := rfl
@[simp] theorem push_fs : (m.push bs).fs = m.fs := rfl
@[simp] theorem push_gs : (m.push bs).gs = m.gs := rfl
@[simp] theorem push_esp : (m.push bs).esp = m.esp - UInt32.ofNat bs.length := rfl

end

/-- `pushl`. -/
def pushl (v : UInt32) (m : Machine) : Machine := m.push (le32 v)

/-- `pushw`. -/
def pushw (v : UInt16) (m : Machine) : Machine := m.push (le16 v)

/-- `addl $n, %esp`. -/
def drop (n : UInt32) (m : Machine) : Machine := { m with esp := m.esp + n }

/-- The word on top of the stack. -/
def topl (m : Machine) : UInt32 := of32 (m.mem.load m.esp 4)

/-- The half word on top of the stack. -/
def topw (m : Machine) : UInt16 := of16 (m.mem.load m.esp 2)

/-- `popl` to the register that `set` sets. -/
def popl (set : UInt32 → Machine → Machine) (m : Machine) : Machine := set m.topl (m.drop 4)

/-- `popw` to the register that `set` sets. -/
def popw (set : UInt16 → Machine → Machine) (m : Machine) : Machine := set m.topw (m.drop 2)

/-- `call` of a function, with the address it returns to. The function ends with its own `ret`, and may not return. -/
def call (ret : UInt32) (f : Machine → Option Machine) (m : Machine) : Option Machine := f (m.pushl ret)

/-- What lies on the stack, from its top on. -/
def Stacked (m : Machine) (bs : List UInt8) : Prop := m.mem.load m.esp bs.length = bs

variable {m m' : Machine} {as bs : List UInt8}

/-- A push puts its bytes on top of what lies there. -/
theorem Stacked.push (h : m.Stacked bs) (hlen : as.length + bs.length ≤ 2 ^ 32) : (m.push as).Stacked (as ++ bs) := by
  have hesp : m.esp - UInt32.ofNat as.length + UInt32.ofNat as.length = m.esp := UInt32.sub_add_cancel _ _
  show (m.mem.store _ as).load (m.esp - UInt32.ofNat as.length) (as ++ bs).length = as ++ bs
  rw [List.length_append, Memory.load_add, Memory.load_store _ _ (by omega), Memory.load_store_behind _ _ (by omega),
    hesp, show m.mem.load m.esp bs.length = bs from h]

/-- Pushes of words, the last one then on top. -/
theorem Stacked.pushls (vs : List UInt32) (h : m.Stacked bs) (hlen : 4 * vs.length + bs.length ≤ 2 ^ 32) :
    (vs.foldl (fun m v => m.pushl v) m).Stacked (vs.reverse.flatMap le32 ++ bs) := by
  induction vs generalizing m bs with
  | nil => exact h
  | cons v vs ih =>
    simp only [List.length_cons] at hlen
    rw [List.reverse_cons, List.flatMap_append, List.append_assoc, List.flatMap_cons, List.flatMap_nil, List.append_nil]
    refine ih (h.push ?_) ?_
    · rw [length_le32]
      omega
    · rw [List.length_append, length_le32]
      omega

theorem pushls_esp (vs : List UInt32) (m : Machine) :
    (vs.foldl (fun m v => m.pushl v) m).esp = m.esp - UInt32.ofNat (4 * vs.length) := by
  induction vs generalizing m with
  | nil => exact (UInt32.sub_zero _).symm
  | cons v vs ih =>
    rw [List.foldl_cons, ih, List.length_cons, Nat.mul_succ, UInt32.ofNat_add]
    show m.esp - UInt32.ofNat 4 - _ = _
    grind

/-- What lies under the bytes dropped. -/
theorem Stacked.drop (h : m.Stacked (as ++ bs)) : (m.drop (UInt32.ofNat as.length)).Stacked bs := by
  unfold Stacked at h
  rw [List.length_append, Memory.load_add] at h
  exact (List.append_inj h (by simp)).2

theorem Stacked.dropl {v : UInt32} (h : m.Stacked (le32 v ++ bs)) : (m.drop 4).Stacked bs := h.drop

theorem Stacked.dropw {v : UInt16} (h : m.Stacked (le16 v ++ bs)) : (m.drop 2).Stacked bs := h.drop

theorem Stacked.top (h : m.Stacked (as ++ bs)) : m.mem.load m.esp as.length = as := by
  unfold Stacked at h
  rw [List.length_append, Memory.load_add] at h
  exact (List.append_inj h (by simp)).1

theorem Stacked.topl {v : UInt32} (h : m.Stacked (le32 v ++ bs)) : m.topl = v := by
  have htop : m.mem.load m.esp 4 = le32 v := h.top
  rw [Machine.topl, htop, of32_le32]

theorem Stacked.topw {v : UInt16} (h : m.Stacked (le16 v ++ bs)) : m.topw = v := by
  have htop : m.mem.load m.esp 2 = le16 v := h.top
  rw [Machine.topw, htop, of16_le16]

/-- Another machine with the same stack. -/
theorem Stacked.congr (h : m.Stacked bs) (hesp : m'.esp = m.esp)
    (hmem : ∀ k < bs.length, m'.mem (m.esp + UInt32.ofNat k) = m.mem (m.esp + UInt32.ofNat k)) : m'.Stacked bs := by
  unfold Stacked
  rw [hesp, Memory.load_congr hmem]
  exact h

/-! ## Under the stack -/

/-- The machine has pushed `j` bytes from `top` on, and of memory it has changed only some of the `n` bytes below. -/
structure Pushed (top : UInt32) (n : Nat) (mem : Memory) (j : Nat) (m : Machine) : Prop where
  esp : m.esp = top - UInt32.ofNat j
  mem : ∀ a, n ≤ (a - (top - UInt32.ofNat n)).toNat → m.mem a = mem a

theorem Pushed.push {top : UInt32} {n j : Nat} {mem : Memory} (h : Pushed top n mem j m) (hj : j + as.length ≤ n) :
    Pushed top n mem (j + as.length) (m.push as) := by
  have hesp : m.esp - UInt32.ofNat as.length = top - UInt32.ofNat (j + as.length) := by
    rw [h.esp, UInt32.ofNat_add]
    grind
  refine ⟨hesp, fun a ha => ?_⟩
  show m.mem.store (m.esp - UInt32.ofNat as.length) as a = mem a
  rw [Memory.store_behind ?_, h.mem a ha]
  -- from the lowest byte pushed, `a` is as much nearer as that is above the lowest of all
  obtain ⟨d, hd⟩ : ∃ d, d = (a - (top - UInt32.ofNat n)).toNat := ⟨_, rfl⟩
  have hlt : d < 2 ^ 32 := hd ▸ UInt32.toNat_lt _
  have ha' : a = top - UInt32.ofNat n + UInt32.ofNat d := by
    rw [hd, offset_toNat]
  have hnear : a - (m.esp - UInt32.ofNat as.length) = UInt32.ofNat (d - n + (j + as.length)) := by
    rw [hesp, ha', UInt32.ofNat_add (d - n), UInt32.ofNat_sub (hd ▸ ha)]
    grind
  rw [hnear, UInt32.toNat_ofNat', Nat.mod_eq_of_lt (by omega)]
  omega

theorem Pushed.pushls {top : UInt32} {n j : Nat} {mem : Memory} (vs : List UInt32) (h : Pushed top n mem j m)
    (hj : j + 4 * vs.length ≤ n) : Pushed top n mem (j + 4 * vs.length) (vs.foldl (fun m v => m.pushl v) m) := by
  induction vs generalizing m j with
  | nil => exact h
  | cons v vs ih =>
    simp only [List.length_cons] at hj ⊢
    have hpush := @Pushed.push m (le32 v) top n j mem h (by rw [length_le32]; omega)
    rw [length_le32] at hpush
    have hrest := ih hpush (by omega)
    rwa [show j + 4 + 4 * vs.length = j + 4 * (vs.length + 1) by omega] at hrest

/-! ## C functions -/

/-- How a C function with `args` arguments comes back to its caller: the return address is taken off the stack, the
registers it must save are as they were, and so are the bytes above its arguments, up to `depth` from the top. -/
structure Returned (args depth : Nat) (m m' : Machine) : Prop where
  esp : m'.esp = m.esp + 4
  ebx : m'.ebx = m.ebx
  esi : m'.esi = m.esi
  edi : m'.edi = m.edi
  ebp : m'.ebp = m.ebp
  frame : ∀ k, 4 + 4 * args ≤ k → k < depth → m'.mem (m.esp + UInt32.ofNat k) = m.mem (m.esp + UInt32.ofNat k)

/-- The C calling convention. -/
def Cdecl (args depth : Nat) (f : Machine → Option Machine) : Prop := ∀ m m', f m = some m' → Returned args depth m m'

/-- When a call comes back, what lies above the arguments pushed is still there. -/
theorem Cdecl.stacked {args depth : Nat} {f : Machine → Option Machine} {ret : UInt32} (hf : Cdecl args depth f)
    (h : m.Stacked (as ++ bs)) (hargs : 4 * args ≤ as.length) (hdepth : 4 + as.length + bs.length ≤ depth)
    (hlen : 4 + as.length + bs.length ≤ 2 ^ 32) (hr : m.call ret f = some m') :
    (m'.drop (UInt32.ofNat as.length)).Stacked bs := by
  have hret := hf _ _ hr
  have hpush : (m.pushl ret).Stacked ((le32 ret ++ as) ++ bs) := by
    rw [List.append_assoc]
    exact h.push (by simp; omega)
  have hbelow := hpush.drop
  refine hbelow.congr ?_ fun k hk => ?_
  · show m'.esp + _ = (m.pushl ret).esp + _
    rw [hret.esp, List.length_append, length_le32, UInt32.ofNat_add]
    grind
  · show m'.mem ((m.pushl ret).esp + _ + _) = (m.pushl ret).mem ((m.pushl ret).esp + _ + _)
    rw [offset_add]
    refine hret.frame _ ?_ ?_
    · simp only [List.length_append, length_le32]
      omega
    · simp only [List.length_append, length_le32]
      omega

end Machine

end X86
