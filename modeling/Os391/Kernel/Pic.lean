/-
`i8259.c` on the two chips: the initialisation words, and the masks that the driver keeps beside those of the chips.
-/
import Os391.Base.Pic
import Os391.Base.Simulation

namespace Os391

open Pic

/-- The variables of the driver and the chips. -/
structure Controller where
  masterMask : UInt8
  slaveMask : UInt8
  chips : Pair
  deriving DecidableEq

namespace Controller

/-! ## i8259.c -/

/-- `outb` to one of the four ports. -/
def outb (data : UInt8) (port : UInt16) (c : Controller) : Controller :=
  if port = 0x20 then { c with chips := { c.chips with master := c.chips.master.command data } }
  else if port = 0x21 then { c with chips := { c.chips with master := c.chips.master.data data } }
  else if port = 0xA0 then { c with chips := { c.chips with slave := c.chips.slave.command data } }
  else if port = 0xA1 then { c with chips := { c.chips with slave := c.chips.slave.data data } }
  else c

/-- `i8259_init`. -/
def i8259Init (c : Controller) : Controller :=
  let c := (c.outb 0xFF 0x21).outb 0xFF 0xA1
  let c := (c.outb 0x11 0x20).outb 0x11 0xA0
  let c := (c.outb 0x20 0x21).outb 0x28 0xA1
  let c := (c.outb 0x04 0x21).outb 0x02 0xA1
  let c := (c.outb 0x01 0x21).outb 0x01 0xA1
  (c.outb 0xFF 0x21).outb 0xFF 0xA1

/-- `enable_irq`. -/
def enableIrq (arg : UInt32) (c : Controller) : Controller :=
  let mask : UInt32 := ~~~(1 <<< arg)
  if arg &&& 8 ≠ 0 then
    let c := { c with slaveMask := c.slaveMask &&& ((mask &&& 0xFF00) >>> 8).toUInt8 }
    c.outb c.slaveMask 0xA1
  else
    let c := { c with masterMask := c.masterMask &&& (mask &&& 0xFF).toUInt8 }
    c.outb c.masterMask 0x21

/-- `disable_irq`. -/
def disableIrq (arg : UInt32) (c : Controller) : Controller :=
  let mask : UInt32 := 1 <<< arg
  if arg &&& 8 ≠ 0 then
    let c := { c with slaveMask := c.slaveMask ||| ((mask &&& 0xFF00) >>> 8).toUInt8 }
    c.outb c.slaveMask 0xA1
  else
    let c := { c with masterMask := c.masterMask ||| (mask &&& 0xFF).toUInt8 }
    c.outb c.masterMask 0x21

/-- `send_eoi`. -/
def sendEoi (arg : UInt32) (c : Controller) : Controller :=
  let c := if arg &&& 8 ≠ 0 then c.outb 0x20 0xA0 else c
  c.outb 0x20 0x20

/-! ## Runs -/

/-- A call of the driver, a line that asks, or an interrupt that the processor takes. -/
inductive Op
  | enable (k : Fin 16)
  | disable (k : Fin 16)
  | eoi (k : Fin 16)
  | request (k : Fin 16)
  | acknowledge
  deriving DecidableEq

/-- The number of a line as an argument. -/
def irq (k : Fin 16) : UInt32 := UInt32.ofNat k

def step (c : Controller) : Op → Option UInt8 × Controller
  | .enable k => (none, c.enableIrq (irq k))
  | .disable k => (none, c.disableIrq (irq k))
  | .eoi k => (none, c.sendEoi (irq k))
  | .request k => (none, { c with chips := c.chips.request k })
  | .acknowledge => (c.chips.acknowledge.1, { c with chips := c.chips.acknowledge.2 })

/-- The lines that a run leaves enabled. -/
def enabled : Finset (Fin 16) → List Op → Finset (Fin 16)
  | ls, [] => ls
  | ls, .enable k :: ops => enabled (insert k ls) ops
  | ls, .disable k :: ops => enabled (ls.erase k) ops
  | ls, _ :: ops => enabled ls ops

/-- A line is masked at its chip. -/
def masked (c : Controller) (k : Fin 16) : Bool :=
  if k.val < 8 then c.chips.master.masked (Fin.ofNat 8 k) else c.chips.slave.masked (Fin.ofNat 8 k)

/-- A chip waits for no initialisation word, and is masked as the driver has it. -/
structure InStep (c : Controller) : Prop where
  masterReady : c.chips.master.expects = 0
  slaveReady : c.chips.slave.expects = 0
  master : c.chips.master.imr = c.masterMask
  slave : c.chips.slave.imr = c.slaveMask

/-- What `i8259_init` leaves in a chip. -/
def ready (vector cascade : UInt8) : Chip :=
  { imr := 0xFF, irr := ∅, isr := ∅, vector := vector, cascade := cascade, icw1 := 0x11, icw4 := 0x01, expects := 0 }

section

variable (data : UInt8) (c : Controller)

theorem outb_masterCommand : c.outb data 0x20 = { c with chips := { c.chips with master := c.chips.master.command data } } :=
  if_pos rfl

theorem outb_masterData : c.outb data 0x21 = { c with chips := { c.chips with master := c.chips.master.data data } } :=
  (if_neg (by decide)).trans (if_pos rfl)

theorem outb_slaveCommand : c.outb data 0xA0 = { c with chips := { c.chips with slave := c.chips.slave.command data } } :=
  (if_neg (by decide)).trans ((if_neg (by decide)).trans (if_pos rfl))

theorem outb_slaveData : c.outb data 0xA1 = { c with chips := { c.chips with slave := c.chips.slave.data data } } :=
  (if_neg (by decide)).trans ((if_neg (by decide)).trans ((if_neg (by decide)).trans (if_pos rfl)))

end

/-- The words of `i8259_init` bring a chip there from any state. -/
theorem chip_ready (c : Chip) (vector cascade : UInt8) :
    (((((c.data 0xFF).command 0x11).data vector).data cascade).data 0x01).data 0xFF =
      ready (vector &&& 0xF8) cascade := by
  generalize c.data 0xFF = c'
  have hcommand : c'.command 0x11 = { c' with imr := 0, irr := ∅, isr := ∅, icw1 := 0x11, icw4 := 0, expects := 2 } :=
    if_pos (by decide)
  have hfour : (0x11 : UInt8) &&& 1 ≠ 0 := by decide
  have hthree : ¬ (0x11 : UInt8) &&& 2 ≠ 0 := by decide
  simp [hcommand, Chip.data, ready, hfour, hthree]

/-- Whatever the chips were doing, `i8259_init` brings them to the same state: the vectors from 0x20 and from 0x28 on,
the slave at line 2 of the master, and all lines masked. The variables of the driver it does not set. -/
theorem chips_i8259Init (c : Controller) : c.i8259Init = { c with chips := ⟨ready 0x20 0x04, ready 0x28 0x02⟩ } := by
  have hmaster := chip_ready c.chips.master 0x20 0x04
  have hslave := chip_ready c.chips.slave 0x28 0x02
  rw [show (0x20 : UInt8) &&& 0xF8 = 0x20 by decide] at hmaster
  rw [show (0x28 : UInt8) &&& 0xF8 = 0x28 by decide] at hslave
  rw [← hmaster, ← hslave]
  unfold i8259Init
  simp only [outb_masterCommand, outb_masterData, outb_slaveCommand, outb_slaveData]

/-- The bits of a mask that `enable_irq` and `disable_irq` change. -/
theorem mask_bits : ∀ (k : Fin 16) (j : Fin 8),
    (irq k &&& 8 ≠ 0 ↔ 8 ≤ k.val) ∧
      ((((~~~(1 <<< irq k) : UInt32) &&& 0xFF00) >>> 8).toUInt8.toNat.testBit j = decide (k.val ≠ 8 + j.val)) ∧
      (((~~~(1 <<< irq k) : UInt32) &&& 0xFF).toUInt8.toNat.testBit j = decide (k.val ≠ j.val)) ∧
      ((((1 <<< irq k : UInt32) &&& 0xFF00) >>> 8).toUInt8.toNat.testBit j = decide (k.val = 8 + j.val)) ∧
      (((1 <<< irq k : UInt32) &&& 0xFF).toUInt8.toNat.testBit j = decide (k.val = j.val)) := by
  decide

theorem data_of_ready {chip : Chip} (h : chip.expects = 0) (v : UInt8) : chip.data v = { chip with imr := v } := by
  unfold Chip.data
  simp [h]

theorem command_eoi (chip : Chip) : chip.command 0x20 = chip.endOfInterrupt :=
  (if_neg (by decide)).trans ((if_neg (by decide)).trans (if_pos (by decide)))

/-- The bit of a line in the masks of the driver. -/
def maskBit (c : Controller) (k : Fin 16) : Bool :=
  (if k.val < 8 then c.masterMask else c.slaveMask).toNat.testBit (k.val % 8)

theorem InStep.masked {c : Controller} (h : InStep c) (k : Fin 16) : c.masked k = c.maskBit k := by
  unfold Controller.masked maskBit Chip.masked
  split_ifs
  · rw [h.master]
    rfl
  · rw [h.slave]
    rfl

/-- A mask changed in the driver and written to its chip, that of a line. -/
def remask (k : Fin 16) (f : UInt8 → UInt8) (c : Controller) : Controller :=
  if 8 ≤ k.val then
    { c with slaveMask := f c.slaveMask, chips := { c.chips with slave := { c.chips.slave with imr := f c.slaveMask } } }
  else
    { c with masterMask := f c.masterMask, chips := { c.chips with master := { c.chips.master with imr := f c.masterMask } } }

/-- The other chip keeps its bits. -/
theorem remask_spec {c : Controller} (h : InStep c) (k : Fin 16) (f : UInt8 → UInt8) :
    InStep (c.remask k f) ∧ ∀ j, (c.remask k f).maskBit j =
      if 8 ≤ j.val ↔ 8 ≤ k.val then (f (if 8 ≤ k.val then c.slaveMask else c.masterMask)).toNat.testBit (j.val % 8)
      else c.maskBit j := by
  unfold remask maskBit
  by_cases hk : 8 ≤ k.val
  · simp only [if_pos hk]
    refine ⟨⟨h.masterReady, h.slaveReady, h.master, rfl⟩, fun j => ?_⟩
    by_cases hj : j.val < 8
    · rw [if_pos hj, if_neg (by omega), if_pos hj]
    · rw [if_neg hj, if_pos (by omega)]
  · simp only [if_neg hk]
    refine ⟨⟨h.masterReady, h.slaveReady, rfl, h.slave⟩, fun j => ?_⟩
    by_cases hj : j.val < 8
    · rw [if_pos hj, if_pos (by omega)]
    · rw [if_neg hj, if_neg (by omega), if_neg hj]

/-- `enable_irq` clears the bit of its line, in the driver and in the chip. -/
theorem enableIrq_spec {c : Controller} (h : InStep c) (k : Fin 16) :
    InStep (c.enableIrq (irq k)) ∧ ∀ j, (c.enableIrq (irq k)).maskBit j = (c.maskBit j && decide (j ≠ k)) := by
  have heq : c.enableIrq (irq k) = c.remask k fun m =>
      m &&& if 8 ≤ k.val then ((~~~(1 <<< irq k) &&& 0xFF00) >>> 8).toUInt8 else (~~~(1 <<< irq k) &&& 0xFF).toUInt8 := by
    unfold enableIrq remask
    by_cases hk : 8 ≤ k.val
    · simp only [if_pos ((mask_bits k 0).1.2 hk), outb_slaveData, data_of_ready h.slaveReady, if_pos hk]
    · simp only [if_neg (mt (mask_bits k 0).1.1 hk), outb_masterData, data_of_ready h.masterReady, if_neg hk]
  rw [heq]
  refine ⟨(remask_spec h k _).1, fun j => ?_⟩
  have hbits := mask_bits k ⟨j.val % 8, Nat.mod_lt _ (by decide)⟩
  rw [(remask_spec h k _).2, UInt8.toNat_and, Nat.testBit_and]
  unfold maskBit
  by_cases hk : 8 ≤ k.val <;> by_cases hj : j.val < 8
  · rw [if_neg (by omega), if_pos hj, decide_eq_true (by omega), Bool.and_true]
  · rw [if_pos (by omega), if_pos hk, if_pos hk, if_neg hj, hbits.2.1]
    exact congrArg _ (decide_eq_decide.2 (by simp only; omega))
  · rw [if_pos (by omega), if_neg hk, if_neg hk, if_pos hj, hbits.2.2.1]
    exact congrArg _ (decide_eq_decide.2 (by simp only; omega))
  · rw [if_neg (by omega), if_neg hj, decide_eq_true (by omega), Bool.and_true]

/-- `disable_irq` sets it. -/
theorem disableIrq_spec {c : Controller} (h : InStep c) (k : Fin 16) :
    InStep (c.disableIrq (irq k)) ∧ ∀ j, (c.disableIrq (irq k)).maskBit j = (c.maskBit j || decide (j = k)) := by
  have heq : c.disableIrq (irq k) = c.remask k fun m =>
      m ||| if 8 ≤ k.val then ((1 <<< irq k &&& 0xFF00) >>> 8).toUInt8 else (1 <<< irq k &&& 0xFF).toUInt8 := by
    unfold disableIrq remask
    by_cases hk : 8 ≤ k.val
    · simp only [if_pos ((mask_bits k 0).1.2 hk), outb_slaveData, data_of_ready h.slaveReady, if_pos hk]
    · simp only [if_neg (mt (mask_bits k 0).1.1 hk), outb_masterData, data_of_ready h.masterReady, if_neg hk]
  rw [heq]
  refine ⟨(remask_spec h k _).1, fun j => ?_⟩
  have hbits := mask_bits k ⟨j.val % 8, Nat.mod_lt _ (by decide)⟩
  rw [(remask_spec h k _).2, UInt8.toNat_or, Nat.testBit_or]
  unfold maskBit
  by_cases hk : 8 ≤ k.val <;> by_cases hj : j.val < 8
  · rw [if_neg (by omega), if_pos hj, decide_eq_false (by omega), Bool.or_false]
  · rw [if_pos (by omega), if_pos hk, if_pos hk, if_neg hj, hbits.2.2.2.1]
    exact congrArg _ (decide_eq_decide.2 (by simp only; omega))
  · rw [if_pos (by omega), if_neg hk, if_neg hk, if_pos hj, hbits.2.2.2.2]
    exact congrArg _ (decide_eq_decide.2 (by simp only; omega))
  · rw [if_neg (by omega), if_neg hj, decide_eq_false (by omega), Bool.or_false]

/-- The other steps leave the masks alone. -/
theorem step_masks {c : Controller} (h : InStep c) (o : Op) (hen : ∀ k, o ≠ .enable k) (hdis : ∀ k, o ≠ .disable k) :
    InStep (c.step o).2 ∧ ∀ j, (c.step o).2.maskBit j = c.maskBit j := by
  cases o with
  | enable k => exact absurd rfl (hen k)
  | disable k => exact absurd rfl (hdis k)
  | eoi k =>
    simp only [step, sendEoi]
    split_ifs
    all_goals
      simp only [outb_masterCommand, outb_slaveCommand, command_eoi]
      exact ⟨⟨h.masterReady, h.slaveReady, h.master, h.slave⟩, fun _ => rfl⟩
  | request k =>
    simp only [step, Pair.request]
    split_ifs <;> exact ⟨⟨h.masterReady, h.slaveReady, h.master, h.slave⟩, fun _ => rfl⟩
  | acknowledge =>
    simp only [step, Pair.acknowledge]
    rcases c.chips.master.next c.chips.asking with _ | k
    · exact ⟨h, fun _ => rfl⟩
    · dsimp only
      rcases (if k ∈ c.chips.asking then c.chips.slave.next ∅ else none) with _ | j
      all_goals exact ⟨⟨h.masterReady, h.slaveReady, h.master, h.slave⟩, fun _ => rfl⟩

/-- Along a run the masks are those of the lines not enabled. -/
theorem masks_run (ops : List Op) {c : Controller} {ls : Finset (Fin 16)} (h : InStep c)
    (hm : ∀ k, c.maskBit k = decide (k ∉ ls)) :
    InStep (Simulation.final step c ops) ∧
      ∀ k, (Simulation.final step c ops).maskBit k = decide (k ∉ enabled ls ops) := by
  induction ops generalizing c ls with
  | nil => exact ⟨h, hm⟩
  | cons o ops ih =>
    rw [Simulation.final]
    cases o with
    | enable k =>
      obtain ⟨h', hm'⟩ := enableIrq_spec h k
      refine ih h' fun j => ?_
      show (c.enableIrq (irq k)).maskBit j = _
      rw [hm', hm, ← Bool.decide_and]
      exact decide_eq_decide.2 (by simp only [Finset.mem_insert]; tauto)
    | disable k =>
      obtain ⟨h', hm'⟩ := disableIrq_spec h k
      refine ih h' fun j => ?_
      show (c.disableIrq (irq k)).maskBit j = _
      rw [hm', hm, ← Bool.decide_or]
      exact decide_eq_decide.2 (by simp only [Finset.mem_erase]; tauto)
    | eoi k =>
      obtain ⟨h', hm'⟩ := step_masks h (.eoi k) (by simp) (by simp)
      exact ih h' fun j => (hm' j).trans (hm j)
    | request k =>
      obtain ⟨h', hm'⟩ := step_masks h (.request k) (by simp) (by simp)
      exact ih h' fun j => (hm' j).trans (hm j)
    | acknowledge =>
      obtain ⟨h', hm'⟩ := step_masks h .acknowledge (by simp) (by simp)
      exact ih h' fun j => (hm' j).trans (hm j)

/-- From `i8259_init` on, whatever state it found the chips in, a line is masked at its chip unless the last call of the
driver for it has enabled it, and the chips have the masks that the driver has. -/
theorem masked_run {c : Controller} (hm : c.masterMask = 0xFF) (hs : c.slaveMask = 0xFF) (ops : List Op) (k : Fin 16) :
    let c' := Simulation.final step c.i8259Init ops
    (c'.masked k = true ↔ k ∉ enabled ∅ ops) ∧ c'.chips.master.imr = c'.masterMask ∧ c'.chips.slave.imr = c'.slaveMask := by
  intro c'
  have hinit : InStep c.i8259Init := by
    rw [chips_i8259Init]
    exact ⟨rfl, rfl, hm.symm, hs.symm⟩
  have hbits : ∀ k, c.i8259Init.maskBit k = decide (k ∉ (∅ : Finset (Fin 16))) := by
    have hones : ∀ j : Fin 16, (0xFF : UInt8).toNat.testBit (j.val % 8) = true := by decide
    intro k
    rw [chips_i8259Init]
    unfold maskBit
    dsimp only
    rw [hm, hs, ite_self, hones k]
    exact (decide_eq_true (Finset.notMem_empty k)).symm
  obtain ⟨hstep, hrun⟩ := masks_run ops hinit hbits
  exact ⟨by rw [hstep.masked, hrun, decide_eq_true_eq], hstep.master, hstep.slave⟩

/-- The controller at power on, and what `entry` and `rtc_init` do with it. -/
def powerOn : Controller :=
  let chip : Chip := ⟨0, ∅, ∅, 0, 0, 0, 0, 0⟩
  ⟨0xFF, 0xFF, ⟨chip, chip⟩⟩

def bootOps : List Op := (List.finRange 16).map .disable ++ [.enable 2, .enable 8, .enable 1]

theorem masked_run_boot :
    let c' := Simulation.final step powerOn.i8259Init bootOps
    (c'.masked 1 = true ↔ (1 : Fin 16) ∉ enabled ∅ bootOps) ∧
      c'.chips.master.imr = c'.masterMask ∧ c'.chips.slave.imr = c'.slaveMask :=
  masked_run rfl rfl bootOps 1

end Controller

end Os391
