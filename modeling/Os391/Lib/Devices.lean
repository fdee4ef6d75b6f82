/-
The real-time clock of `rtc.c` and the interrupt controller of `i8259.c`, as far as the kernel's
calls reach them.
-/
import Mathlib.Tactic

namespace Os391

/-- Registers A and B of the real-time clock, the interrupt flag, the masks of the interrupt
controller and the end-of-interrupt bytes sent to each of its two chips. -/
structure Devices where
  rtcA : UInt8
  rtcB : UInt8
  intrFlag : Nat
  masterMask : UInt8
  slaveMask : UInt8
  masterEoi : Nat
  slaveEoi : Nat
  deriving DecidableEq

namespace Devices

/-- `enable_irq`: lines 8 to 15 are on the slave. -/
def enableIrq (d : Devices) (irq : UInt32) : Devices :=
  let mask : UInt32 := ~~~(1 <<< irq)
  if irq &&& 8 ≠ 0 then { d with slaveMask := d.slaveMask &&& ((mask &&& 0xFF00) >>> 8).toUInt8 }
  else { d with masterMask := d.masterMask &&& (mask &&& 0xFF).toUInt8 }

/-- `send_eoi`: the slave's interrupts are acknowledged on both chips. -/
def sendEoi (d : Devices) (irq : UInt32) : Devices :=
  { d with
    slaveEoi := if irq &&& 8 ≠ 0 then d.slaveEoi + 1 else d.slaveEoi
    masterEoi := d.masterEoi + 1 }

/-- `rtc_init`, which is all of `rtc_open`: periodic interrupts on, the rate lowest. -/
def rtcInit (d : Devices) : Devices :=
  ({ d with rtcB := d.rtcB ||| 0x40, rtcA := (d.rtcA &&& 0xF0) ||| 0x0F }.enableIrq 2).enableIrq 8

/-- The loop of `rtc_write` over `i = 2, 4, … ≤ POW2_MAX`: whether `intr_freq` is one of them. -/
def po2Flag (freq : Int) : Nat → Int → Bool
  | 0, _ => false
  | n + 1, i => if i ≤ 1024 then freq == i || po2Flag freq n (i * 2) else false

/-- The loop of `rtc_set`: the rate goes down by one for each doubling below the frequency. -/
def writeFreq (freq : Int) : Nat → Int → UInt8 → UInt8
  | 0, _, w => w
  | n + 1, i, w => if i < freq then writeFreq freq n (i * 2) (w - 1) else w

/-- `rtc_set`. -/
def rtcSet (d : Devices) (freq : Int) : Devices :=
  let freq := if freq < 2 then 2 else if freq > 1024 then 1024 else freq
  { d with rtcA := (d.rtcA &&& 0xF0) ||| writeFreq freq 32 2 0x0F }

/-- `rtc_write` of the four bytes at a non-NULL buffer. -/
def rtcWrite (d : Devices) (freq : Int) (nbytes : Int) : Int × Devices :=
  if nbytes ≠ 4 then (-1, d)
  else if po2Flag freq 32 2 then (0, d.rtcSet freq)
  else (-1, d)

end Devices

end Os391
