/-
`interrupt_handler.S`: what the two handlers leave of the program they interrupt. The processor pushes a frame and the
handler the registers; in between, a C function does what it wants with the registers that are its own.
-/
import Os391.Base.X86

namespace Os391

open X86

/-! ## The processor -/

/-- The machine, the segments of code and stack, EIP, and the flags except DF, which is in the machine. -/
structure Cpu where
  m : Machine
  cs : UInt16
  ss : UInt16
  eip : UInt32
  eflags : UInt32
  noDf : eflags &&& 0x400 = 0

/-- What the task state segment holds for ring 0. -/
structure Tss where
  ss0 : UInt16
  esp0 : UInt32

namespace Cpu

theorem and_not_and (v w : UInt32) : v &&& ~~~w &&& w = 0 := by
  rw [UInt32.and_assoc, UInt32.not_and_self, UInt32.and_zero]

/-- Some flags cleared, and some set. -/
def clearFlags (v : UInt32) (c : Cpu) : Cpu :=
  { c with
    eflags := c.eflags &&& ~~~v
    noDf := by rw [UInt32.and_assoc, UInt32.and_comm _ 0x400, ← UInt32.and_assoc, c.noDf, UInt32.zero_and] }

/-- `cli`. -/
def cli (c : Cpu) : Cpu := c.clearFlags 0x200

/-- EFLAGS. -/
def flags (c : Cpu) : UInt32 := if c.m.df then c.eflags ||| 0x400 else c.eflags

/-- The program runs in ring 3. -/
def outer (c : Cpu) : Bool := c.cs &&& 3 ≠ 0

/-- What the processor pushes for an interrupt: the stack of the program if it is not in ring 0, the flags and where
it is. -/
def frame (c : Cpu) : List UInt32 :=
  [c.eip, c.cs.toUInt32, c.flags] ++ if c.outer then [c.m.esp, c.ss.toUInt32] else []

/-- The stack that the frame is pushed on. -/
def stack (t : Tss) (c : Cpu) : UInt32 := if c.outer then t.esp0 else c.m.esp

/-- An interrupt through a gate to ring 0, which clears IF. -/
def trap (t : Tss) (selector : UInt16) (offset : UInt32) (c : Cpu) : Cpu :=
  { c.clearFlags 0x200 with
    m := c.frame.reverse.foldl (fun m v => m.pushl v) { c.m with esp := c.stack t }
    cs := selector
    ss := if c.outer then t.ss0 else c.ss
    eip := offset }

/-- `iret` in ring 0. -/
def iret (c : Cpu) : Cpu :=
  let eip := c.m.topl
  let m := c.m.drop 4
  let cs := m.topl.toUInt16
  let m := m.drop 4
  let w := m.topl
  let m := { m.drop 4 with df := w &&& 0x400 ≠ 0 }
  let back : Cpu := ⟨m, cs, c.ss, eip, w &&& ~~~0x400, and_not_and w 0x400⟩
  if back.outer then
    let m' := { m with esp := m.topl }
    { back with m := m', ss := (m.drop 4).topl.toUInt16 }
  else back

/-! ## interrupt_handler.S -/

/-- A segment register as a word, with what the processor leaves in the upper half. -/
def leSeg (upper v : UInt16) : List UInt8 := le16 v ++ le16 upper

/-- `pushl` of a segment register. -/
def pushSeg (upper v : UInt16) (m : Machine) : Machine := m.push (leSeg upper v)

/-- `popl` to a segment register. -/
def popSeg (set : UInt16 → Machine → Machine) (m : Machine) : Machine := set m.topw (m.drop 4)

/-- The registers pushed. -/
def saveRegs (upper : UInt16) (m : Machine) : Machine :=
  let m := pushSeg upper m.fs m
  let m := pushSeg upper m.es m
  let m := pushSeg upper m.ds m
  let m := m.pushl m.eax
  let m := m.pushl m.ebx
  let m := m.pushl m.ebp
  let m := m.pushl m.ecx
  let m := m.pushl m.edx
  let m := m.pushl m.edi
  m.pushl m.esi

/-- The registers popped. -/
def restoreRegs (m : Machine) : Machine :=
  let m := m.popl fun v m => { m with esi := v }
  let m := m.popl fun v m => { m with edi := v }
  let m := m.popl fun v m => { m with edx := v }
  let m := m.popl fun v m => { m with ecx := v }
  let m := m.popl fun v m => { m with ebp := v }
  let m := m.popl fun v m => { m with ebx := v }
  let m := m.popl fun v m => { m with eax := v }
  let m := popSeg (fun v m => { m with ds := v }) m
  let m := popSeg (fun v m => { m with es := v }) m
  popSeg (fun v m => { m with fs := v }) m

/-- A handler, which calls `f` and returns to `ret` behind it. The `sti` has no effect before the `iret`, which
brings the flags back. -/
def handler (upper : UInt16) (ret : UInt32) (f : Machine → Option Machine) (c : Cpu) : Option Cpu :=
  let c := c.cli
  ((saveRegs upper c.m).call ret f).map fun m => iret { c with m := restoreRegs m }

/-- The functions that the two handlers call, and addresses: of the handlers and behind their calls. -/
structure Code where
  readKeyboard : Machine → Option Machine
  rtcInterrupt : Machine → Option Machine
  keyboardAddr : UInt32
  keyboardRet : UInt32
  rtcAddr : UInt32
  rtcRet : UInt32

/-- `keyboard_handler`. -/
def keyboardHandler (k : Code) (upper : UInt16) : Cpu → Option Cpu := handler upper k.keyboardRet k.readKeyboard

/-- `rtc_handler`. -/
def rtcHandler (k : Code) (upper : UInt16) : Cpu → Option Cpu := handler upper k.rtcRet k.rtcInterrupt

/-! ## The stack -/

/-- The bytes of the registers saved. -/
def saved (upper : UInt16) (m : Machine) : List UInt8 :=
  [le32 m.esi, le32 m.edi, le32 m.edx, le32 m.ecx, le32 m.ebp, le32 m.ebx, le32 m.eax, leSeg upper m.ds,
    leSeg upper m.es, leSeg upper m.fs].flatten

theorem length_saved (upper : UInt16) (m : Machine) : (saved upper m).length = 40 := rfl

variable {upper : UInt16} {m x : Machine} {bs : List UInt8}

theorem length_leSeg (upper v : UInt16) : (leSeg upper v).length = 4 := rfl

theorem saveRegs_stacked (upper : UInt16) (h : m.Stacked bs) (hlen : bs.length ≤ 2 ^ 31) :
    (saveRegs upper m).Stacked (saved upper m ++ bs) := by
  simp only [saveRegs, saved, pushSeg, Machine.pushl, Machine.push_eax, Machine.push_ebx, Machine.push_ecx,
    Machine.push_edx, Machine.push_esi, Machine.push_edi, Machine.push_ebp, Machine.push_es, Machine.push_ds,
    List.flatten_cons, List.flatten_nil, List.append_nil, List.append_assoc]
  repeat refine Machine.Stacked.push ?_ (by simp [length_leSeg]; omega)
  exact h

theorem saveRegs_gs (upper : UInt16) (m : Machine) : (saveRegs upper m).gs = m.gs := by
  simp only [saveRegs, pushSeg, Machine.pushl, Machine.push_gs]

theorem topw_seg {v : UInt16} (h : m.Stacked (leSeg upper v ++ bs)) : m.topw = v := by
  rw [leSeg, List.append_assoc] at h
  exact h.topw

theorem drop_seg {v : UInt16} (h : m.Stacked (leSeg upper v ++ bs)) : (m.drop 4).Stacked bs := h.drop

/-- The registers come back off the stack. -/
theorem restoreRegs_saved (h : x.Stacked (saved upper m ++ bs)) :
    restoreRegs x = { m with esp := x.esp + 40, gs := x.gs, df := x.df, mem := x.mem } ∧ (x.drop 40).Stacked bs := by
  simp only [saved, List.flatten_cons, List.flatten_nil, List.append_nil, List.append_assoc] at h
  have edi := h.dropl
  have edx := edi.dropl
  have ecx := edx.dropl
  have ebp := ecx.dropl
  have ebx := ebp.dropl
  have eax := ebx.dropl
  have ds := eax.dropl
  have es := drop_seg ds
  have fs := drop_seg es
  have rest := drop_seg fs
  replace h := h.topl
  replace edi := edi.topl
  replace edx := edx.topl
  replace ecx := ecx.topl
  replace ebp := ebp.topl
  replace ebx := ebx.topl
  replace eax := eax.topl
  replace ds := topw_seg ds
  replace es := topw_seg es
  replace fs := topw_seg fs
  have hdrop : (((((((((x.drop 4).drop 4).drop 4).drop 4).drop 4).drop 4).drop 4).drop 4).drop 4).drop 4 = x.drop 40 := by
    simp only [Machine.drop]
    rw [show x.esp + 4 + 4 + 4 + 4 + 4 + 4 + 4 + 4 + 4 + 4 = x.esp + 40 by grind]
  refine ⟨?_, hdrop ▸ rest⟩
  simp only [Machine.topl, Machine.topw, Machine.drop] at h edi edx ecx ebp ebx eax ds es fs
  simp only [restoreRegs, popSeg, Machine.popl, Machine.topl, Machine.topw, Machine.drop, h, edi, edx, ecx, ebp, ebx,
    eax, ds, es, fs]
  rw [show x.esp + 4 + 4 + 4 + 4 + 4 + 4 + 4 + 4 + 4 + 4 = x.esp + 40 by grind]

/-- The bytes of the frame. -/
def frameBytes (c : Cpu) : List UInt8 := c.frame.flatMap le32

theorem length_frameBytes (c : Cpu) : c.frameBytes.length = if c.outer then 20 else 12 := by
  unfold frameBytes frame
  split_ifs <;> rfl

theorem trap_stacked (t : Tss) (selector : UInt16) (offset : UInt32) (c : Cpu) :
    (c.trap t selector offset).m.Stacked c.frameBytes := by
  have hempty : ({ c.m with esp := c.stack t } : Machine).Stacked [] := rfl
  have hpush := hempty.pushls c.frame.reverse (by
    rw [List.length_reverse]
    unfold frame
    split_ifs <;> norm_num)
  rw [List.reverse_reverse, List.append_nil] at hpush
  exact hpush

/-- A flag that is clear, set, and taken out again. -/
theorem clear_flag {v b : UInt32} (h : v &&& b = 0) : v &&& ~~~b = v ∧ (v ||| b) &&& ~~~b = v ∧ (v ||| b) &&& b = b := by
  have hbit : ∀ (i : Nat) (hi : i < 32), (v.toBitVec[i] && b.toBitVec[i]) = false := by
    intro i hi
    rw [← BitVec.getElem_and, ← UInt32.toBitVec_and, h]
    exact BitVec.getElem_zero hi
  refine ⟨?_, ?_, ?_⟩ <;> refine UInt32.toBitVec_inj.1 (BitVec.eq_of_getElem_eq fun i hi => ?_) <;>
    simp only [UInt32.toBitVec_and, UInt32.toBitVec_or, UInt32.toBitVec_not, BitVec.getElem_and, BitVec.getElem_or,
      BitVec.getElem_not] <;>
    have hi' := hbit i hi <;> revert hi' <;> cases v.toBitVec[i] <;> cases b.toBitVec[i] <;> decide

theorem flags_back (c : Cpu) : c.flags &&& ~~~0x400 = c.eflags ∧ decide (c.flags &&& 0x400 ≠ 0) = c.m.df := by
  obtain ⟨hkeep, hclear, hset⟩ := clear_flag c.noDf
  unfold flags
  cases c.m.df
  · simp [hkeep, c.noDf]
  · simp [hclear, hset]

@[ext]
theorem ext {c d : Cpu} (hm : c.m = d.m) (hcs : c.cs = d.cs) (hss : c.ss = d.ss) (heip : c.eip = d.eip)
    (hflags : c.eflags = d.eflags) : c = d := by
  cases c; cases d
  cases hm; cases hcs; cases hss; cases heip; cases hflags
  rfl

theorem toUInt16_toUInt32 (v : UInt16) : v.toUInt32.toUInt16 = v := by
  simp

/-- `iret` with the frame of a program on top of the stack. -/
theorem iret_frame {c d : Cpu} (h : d.m.Stacked c.frameBytes) (hss : ¬ c.outer = true → d.ss = c.ss)
    (hesp : ¬ c.outer = true → d.m.esp + 12 = c.m.esp) :
    iret d = { c with m := { d.m with esp := c.m.esp, df := c.m.df } } := by
  obtain ⟨hkeep, hdf⟩ := c.flags_back
  unfold frameBytes frame at h
  rw [List.flatMap_append] at h
  simp only [List.flatMap_cons, List.flatMap_nil, List.append_nil, List.append_assoc] at h
  have cs := h.dropl
  have flags := cs.dropl
  have rest := flags.dropl
  replace h := h.topl
  replace cs := cs.topl
  replace flags := flags.topl
  have hback : (⟨{ ((d.m.drop 4).drop 4).drop 4 with df := c.flags &&& 0x400 ≠ 0 }, c.cs, d.ss, c.eip,
      c.flags &&& ~~~0x400, and_not_and _ _⟩ : Cpu).outer = c.outer := rfl
  unfold iret
  simp only [h, cs, flags, toUInt16_toUInt32, hback]
  by_cases ho : c.outer = true
  · rw [if_pos ho] at rest ⊢
    simp only [List.flatMap_cons, List.flatMap_nil, List.append_nil] at rest
    have ss : (le32 c.ss.toUInt32 : List UInt8) = le32 c.ss.toUInt32 ++ [] := (List.append_nil _).symm
    rw [ss] at rest
    have hesp' := rest.topl
    have hss' := rest.dropl.topl
    refine ext ?_ rfl ?_ rfl hkeep
    · show ({ ((d.m.drop 4).drop 4).drop 4 with
          esp := (((d.m.drop 4).drop 4).drop 4).topl, df := decide (c.flags &&& 0x400 ≠ 0) } : Machine) = _
      rw [hesp', hdf]
      rfl
    · show ((((d.m.drop 4).drop 4).drop 4).drop 4).topl.toUInt16 = c.ss
      rw [hss', toUInt16_toUInt32]
  · rw [if_neg ho]
    refine ext ?_ rfl (hss ho) rfl hkeep
    have hback' : d.m.esp + 4 + 4 + 4 = c.m.esp := by
      rw [← hesp ho]
      grind
    simp only [Machine.drop, hback', hdf]

theorem trap_pushed (t : Tss) (selector : UInt16) (offset : UInt32) (c : Cpu) :
    Machine.Pushed (c.stack t) 64 c.m.mem c.frameBytes.length (c.trap t selector offset).m := by
  have hlen : c.frameBytes.length = 4 * c.frame.reverse.length ∧ 4 * c.frame.reverse.length ≤ 64 := by
    rw [length_frameBytes, List.length_reverse]
    unfold frame
    split_ifs <;> exact ⟨rfl, by norm_num⟩
  have hempty : Machine.Pushed (c.stack t) 64 c.m.mem 0 { c.m with esp := c.stack t } :=
    ⟨(UInt32.sub_zero _).symm, fun _ _ => rfl⟩
  have hpush := hempty.pushls c.frame.reverse (by omega)
  rw [Nat.zero_add, ← hlen.1] at hpush
  exact hpush

theorem saveRegs_pushed {top : UInt32} {n j : Nat} {mem : Memory} (upper : UInt16) (h : Machine.Pushed top n mem j m)
    (hj : j + 40 ≤ n) :
    Machine.Pushed top n mem (j + 40) (saveRegs upper m) := by
  have push : ∀ {j : Nat} {m : Machine} {as : List UInt8}, Machine.Pushed top n mem j m → as.length = 4 → j + 4 ≤ n →
      Machine.Pushed top n mem (j + 4) (m.push as) :=
    fun {_ _ _} h hlen hj => hlen ▸ h.push (hlen.symm ▸ hj)
  simp only [saveRegs, pushSeg, Machine.pushl, Machine.push_eax, Machine.push_ebx, Machine.push_ecx, Machine.push_edx,
    Machine.push_esi, Machine.push_edi, Machine.push_ebp, Machine.push_es, Machine.push_ds]
  have fs := push h (length_leSeg upper m.fs) (by omega)
  have es := push fs (length_leSeg upper m.es) (by omega)
  have ds := push es (length_leSeg upper m.ds) (by omega)
  have eax := push ds (length_le32 m.eax) (by omega)
  have ebx := push eax (length_le32 m.ebx) (by omega)
  have ebp := push ebx (length_le32 m.ebp) (by omega)
  have ecx := push ebp (length_le32 m.ecx) (by omega)
  have edx := push ecx (length_le32 m.edx) (by omega)
  have edi := push edx (length_le32 m.edi) (by omega)
  exact push edi (length_le32 m.esi) (by omega)

/-- The pushes of the frame change ESP and memory only. -/
theorem trap_regs (t : Tss) (selector : UInt16) (offset : UInt32) (c : Cpu) :
    ∃ esp mem, (c.trap t selector offset).m = { c.m with esp := esp, mem := mem } := by
  have hpush : ∀ (vs : List UInt32) (m : Machine), ∃ esp mem,
      vs.foldl (fun m v => m.pushl v) m = { m with esp := esp, mem := mem } := by
    intro vs
    induction vs with
    | nil => exact fun m => ⟨m.esp, m.mem, rfl⟩
    | cons v vs ih =>
      intro m
      obtain ⟨esp, mem, h⟩ := ih (m.pushl v)
      exact ⟨esp, mem, h⟩
  obtain ⟨esp, mem, h⟩ := hpush c.frame.reverse { c.m with esp := c.stack t }
  exact ⟨esp, mem, h⟩

/-- A function without arguments comes back as the C convention has it, whatever it is called for. -/
def Keeps (f : Machine → Option Machine) (m : Machine) : Prop :=
  ∀ x, f m = some x → Machine.Returned 0 64 m x ∧ x.gs = m.gs

/-- What lies above the return address is still there. -/
theorem returned_stacked {ret : UInt32} (h : m.Stacked (le32 ret ++ bs)) (hr : Machine.Returned 0 64 m x)
    (hlen : bs.length ≤ 60) : x.Stacked bs := by
  refine h.dropl.congr hr.esp fun k hk => ?_
  show x.mem (m.esp + UInt32.ofNat 4 + UInt32.ofNat k) = m.mem (m.esp + UInt32.ofNat 4 + UInt32.ofNat k)
  rw [offset_add]
  exact hr.frame _ (by omega) (by omega)

/-- The machine as the function of a handler finds it. -/
def called (t : Tss) (selector : UInt16) (offset : UInt32) (upper : UInt16) (ret : UInt32) (c : Cpu) : Machine :=
  (saveRegs upper (c.trap t selector offset).m).pushl ret

section

variable (t : Tss) (selector : UInt16) (offset : UInt32) (upper : UInt16) (ret : UInt32) (c : Cpu)

/-- Memory is as it was, but for the 64 bytes below the kernel's stack pointer. -/
theorem called_pushed :
    Machine.Pushed (c.stack t) 64 c.m.mem (c.frameBytes.length + 44) (c.called t selector offset upper ret) := by
  have hframe := length_frameBytes c
  have hlen : c.frameBytes.length ≤ 20 := by
    rw [hframe]
    split_ifs <;> norm_num
  have hsaved := saveRegs_pushed upper (trap_pushed t selector offset c) (by omega)
  have hcalled := @Machine.Pushed.push _ (le32 ret) _ _ _ _ hsaved (by rw [length_le32]; omega)
  exact hcalled

/-- A handler whose function comes back leaves the program as it was, but for memory, which is as the function left it. -/
theorem handler_spec {f : Machine → Option Machine} (hf : Keeps f (c.called t selector offset upper ret)) :
    handler upper ret f (c.trap t selector offset) =
      (f (c.called t selector offset upper ret)).map fun x => { c with m := { c.m with mem := x.mem } } := by
  show Option.map _ (f _) = _
  rcases hx : f (c.called t selector offset upper ret) with _ | x
  · exact congrArg (Option.map _) hx
  rw [show f (Machine.pushl ret (saveRegs upper (trap t selector offset c).cli.m)) = some x from hx, Option.map_some,
    Option.map_some]
  congr 1
  have hframe := length_frameBytes c
  have hlen : c.frameBytes.length ≤ 20 := by
    rw [hframe]
    split_ifs <;> norm_num
  have hlen' : (saved upper (trap t selector offset c).m ++ c.frameBytes).length = 40 + c.frameBytes.length := by
    rw [List.length_append, length_saved]
  have hsaved := saveRegs_stacked upper (trap_stacked t selector offset c) (by omega)
  have hcalled := hsaved.pushls [ret] (by rw [hlen', List.length_singleton]; omega)
  obtain ⟨hr, hgs⟩ := hf x hx
  obtain ⟨hrestored, hframed⟩ := restoreRegs_saved (returned_stacked hcalled hr (by rw [hlen']; omega))
  rw [iret_frame (c := c) (d := { (c.trap t selector offset).cli with m := restoreRegs x })]
  · obtain ⟨esp, mem, hregs⟩ := trap_regs t selector offset c
    have hgs' : x.gs = c.m.gs := by
      rw [hgs, called, Machine.pushl, Machine.push_gs, saveRegs_gs, hregs]
    rw [hrestored, hgs', hregs]
  · rw [hrestored]
    exact hframed
  · intro ho
    exact if_neg ho
  · intro ho
    have hback := (called_pushed t selector offset upper ret c).esp
    rw [hframe, if_neg ho, show c.stack t = c.m.esp from if_neg ho] at hback
    rw [hrestored]
    show x.esp + 40 + 12 = c.m.esp
    rw [hr.esp, hback]
    show c.m.esp - 56 + 4 + 40 + 12 = _
    grind

end

/-! ## An interrupted program -/

/-- A program cannot tell two states apart: what it has in registers is the same, and what it has in its memory `own`. -/
structure Looks (own : UInt32 → Prop) (c d : Cpu) : Prop where
  regs : c = { d with m := { d.m with mem := c.m.mem } }
  mem : ∀ a, own a → c.m.mem a = d.m.mem a

/-- What happens to a program: an instruction of it or an interrupt. -/
inductive Event
  | instruction
  | keyboard
  | rtc
  deriving DecidableEq

variable (k : Code) (t : Tss) (upper : UInt16) (next : Cpu → Cpu)

/-- Interrupts come through gates to KERNEL_CS. -/
def step (c : Cpu) : Event → Option Cpu
  | .instruction => some (next c)
  | .keyboard => keyboardHandler k upper (c.trap t 0x10 k.keyboardAddr)
  | .rtc => rtcHandler k upper (c.trap t 0x10 k.rtcAddr)

/-- The state after some of that; `none` if a handler does not come back. -/
def run (c : Cpu) : List Event → Option Cpu
  | [] => some c
  | e :: events => (step k t upper next c e).bind fun c => run c events

/-- A function that a handler calls, with ESP where a program's interrupt brings it: it comes back as the C convention has
it, and memory that is the program's own stays. -/
def Quiet (own : UInt32 → Prop) (t : Tss) (f : Machine → Option Machine) : Prop :=
  ∀ m : Machine, m.esp = t.esp0 - 64 → Keeps f m ∧ ∀ x, f m = some x → ∀ a, own a → x.mem a = m.mem a

/-- A program in ring 3: it stays there, what it does depends on what it has, and the kernel's stack is not its own. -/
structure Program (own : UInt32 → Prop) (t : Tss) (next : Cpu → Cpu) : Prop where
  outer : ∀ c : Cpu, c.outer = true → (next c).outer = true
  sees : ∀ c d, Looks own c d → Looks own (next c) (next d)
  stack : ∀ a, own a → 64 ≤ (a - (t.esp0 - 64)).toNat

variable {k t upper next} {own : UInt32 → Prop}

theorem Looks.trans {c d e : Cpu} (h : Looks own c d) (h' : Looks own d e) : Looks own c e := by
  refine ⟨?_, fun a ha => (h.mem a ha).trans (h'.mem a ha)⟩
  rw [h.regs]
  exact congrArg (fun x : Cpu => { x with m := { x.m with mem := c.m.mem } }) h'.regs

theorem Looks.outer {c d : Cpu} (h : Looks own c d) : c.outer = d.outer := by
  rw [h.regs]
  rfl

/-- The program does not see an interrupt. -/
theorem handler_looks {f : Machine → Option Machine} (hf : Quiet own t f) (hp : Program own t next) {c d : Cpu}
    (ho : c.outer = true) {offset ret : UInt32} (h : handler upper ret f (c.trap t 0x10 offset) = some d) :
    Looks own d c := by
  have hpushed := called_pushed t 0x10 offset upper ret c
  have hstack : c.stack t = t.esp0 := if_pos ho
  have hesp : (c.called t 0x10 offset upper ret).esp = t.esp0 - 64 := by
    rw [hpushed.esp, hstack, length_frameBytes, if_pos ho]
    rfl
  obtain ⟨hkeeps, hown⟩ := hf _ hesp
  rw [handler_spec t 0x10 offset upper ret c hkeeps] at h
  obtain ⟨x, hx, rfl⟩ := Option.map_eq_some_iff.1 h
  refine ⟨rfl, fun a ha => (hown x hx a ha).trans (hpushed.mem a ?_)⟩
  rw [hstack]
  exact hp.stack a ha

theorem iterate_looks (hp : Program own t next) {c d : Cpu} (h : Looks own c d) (n : Nat) :
    Looks own (next^[n] c) (next^[n] d) := by
  induction n with
  | zero => exact h
  | succ n ih =>
    rw [Function.iterate_succ_apply', Function.iterate_succ_apply']
    exact hp.sees _ _ ih

/-- Interrupts at any time, as many as come: a program in ring 3 computes what it computes without them. -/
theorem run_looks (hk : Quiet own t k.readKeyboard) (hr : Quiet own t k.rtcInterrupt) (hp : Program own t next)
    (events : List Event) {c d : Cpu} (ho : c.outer = true) (h : run k t upper next c events = some d) :
    Looks own d (next^[events.count .instruction] c) := by
  induction events generalizing c with
  | nil =>
    cases h
    exact ⟨rfl, fun _ _ => rfl⟩
  | cons e events ih =>
    obtain ⟨c', hstep, hrest⟩ := Option.bind_eq_some_iff.1 h
    cases e with
    | instruction =>
      cases hstep
      rw [List.count_cons_self, Function.iterate_succ_apply]
      exact ih (hp.outer c ho) hrest
    | keyboard =>
      have hlooks : Looks own c' c := handler_looks hk hp ho hstep
      rw [List.count_cons_of_ne (by decide)]
      exact (ih (hlooks.outer.trans ho) hrest).trans (iterate_looks hp hlooks _)
    | rtc =>
      have hlooks : Looks own c' c := handler_looks hr hp ho hstep
      rw [List.count_cons_of_ne (by decide)]
      exact (ih (hlooks.outer.trans ho) hrest).trans (iterate_looks hp hlooks _)

/-- A function that counts its calls in a byte of the kernel, and leaves EAX, ECX and EDX changed. -/
def counting (a : UInt32) (m : Machine) : Option Machine :=
  some { m.drop 4 with eax := 0, ecx := 1, edx := 2, mem := Function.update m.mem a (m.mem a + 1) }

/-- The page of a program. -/
def ownPage (a : UInt32) : Prop := 0x8000000 ≤ a.toNat ∧ a.toNat < 0x8400000

/-- The stack of the first program. -/
def firstStack : Tss := ⟨0x18, 0x7FFFFC⟩

theorem quiet_counting {a : UInt32} (ha : a.toNat < 0x7FFFBC) : Quiet ownPage firstStack (counting a) := by
  intro m hesp
  refine ⟨fun x hx => ?_, fun x hx b hb => ?_⟩ <;> obtain rfl := Option.some.inj hx
  · refine ⟨⟨rfl, rfl, rfl, rfl, rfl, fun j _ hj => Function.update_of_ne (fun h => ?_) _ _⟩, rfl⟩
    rw [hesp] at h
    have h' := congrArg UInt32.toNat h
    have hbase : (firstStack.esp0 - 64).toNat = 0x7FFFBC := rfl
    rw [UInt32.toNat_add, hbase, UInt32.toNat_ofNat'] at h'
    omega
  · refine Function.update_of_ne (fun h => ?_) _ _
    have := hb.1
    rw [h] at this
    omega

/-- A program that counts in EAX and in memory. -/
def counter (c : Cpu) : Cpu :=
  { c with m := { c.m with eax := c.m.eax + 1, mem := Function.update c.m.mem 0x8000000 c.m.al }, eip := c.eip + 2 }

theorem program_counter : Program ownPage firstStack counter := by
  refine ⟨fun _ h => h, fun c d h => ⟨?_, fun a ha => ?_⟩, fun a ha => ?_⟩
  · rw [h.regs]
    rfl
  · have hal : c.m.al = d.m.al := by
      rw [h.regs]
      rfl
    show Function.update c.m.mem _ _ a = Function.update d.m.mem _ _ a
    rw [Function.update_apply, Function.update_apply, hal, h.mem a ha]
  · have hbase : (firstStack.esp0 - 64).toNat = 0x7FFFBC := rfl
    have hlow := ha.1
    have hhigh := ha.2
    rw [UInt32.toNat_sub, hbase]
    omega

/-- Two instructions with three interrupts around them. -/
theorem run_looks_counter :
    let k : Code := ⟨counting 0x500000, counting 0x500004, 0x401000, 0x401010, 0x402000, 0x402010⟩
    let m : Machine := ⟨3, 0, 16, 0x8000, 5, 6, 7, 0x83FFFFC, 0x2B, 0x2B, 0x2B, 0, true, fun _ => 0⟩
    let c : Cpu := ⟨m, 0x23, 0x2B, 0x8048000, 0x202, by decide⟩
    ∃ d, run k firstStack 0 counter c [.keyboard, .instruction, .rtc, .rtc, .instruction] = some d ∧
      Looks ownPage d (counter (counter c)) := by
  intro k m c
  have hk : Quiet ownPage firstStack k.readKeyboard := quiet_counting (by decide)
  have hr : Quiet ownPage firstStack k.rtcInterrupt := quiet_counting (by decide)
  have ho : c.outer = true := by decide
  obtain ⟨d, hd⟩ : ∃ d, run k firstStack 0 counter c [.keyboard, .instruction, .rtc, .rtc, .instruction] = some d :=
    ⟨_, rfl⟩
  exact ⟨d, hd, run_looks hk hr program_counter _ ho hd⟩

end Cpu

end Os391
