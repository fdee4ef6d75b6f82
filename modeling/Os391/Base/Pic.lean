/-
Two 8259 interrupt controllers, the second one behind a line of the first: what is written to their ports, the requests
they hold, and the vector that the processor gets for one.
-/
import Mathlib.Tactic

namespace Pic

-- the eight lines of a chip, and the sixteen of both
scoped instance chip_neZero : NeZero 8 := ⟨by decide⟩
scoped instance pair_neZero : NeZero 16 := ⟨by decide⟩

/-- One chip: its mask, the lines that ask and those in service, and what it was initialised with. `expects` is the
initialisation word it waits for at its data port, 0 if that port is the mask. -/
structure Chip where
  imr : UInt8
  irr : Finset (Fin 8)
  isr : Finset (Fin 8)
  vector : UInt8
  cascade : UInt8
  icw1 : UInt8
  icw4 : UInt8
  expects : Nat
  deriving DecidableEq

namespace Chip

/-- A line is masked. -/
def masked (c : Chip) (k : Fin 8) : Bool := c.imr.toNat.testBit k

/-- An end of interrupt that names no line is for the one of highest priority. -/
def endOfInterrupt (c : Chip) : Chip :=
  { c with isr := c.isr.filter fun k => ∃ j ∈ c.isr, j < k }

/-- A write to the first port: the first initialisation word has bit 4 set, and of the other commands only the ends of
interrupt do something here. -/
def command (v : UInt8) (c : Chip) : Chip :=
  if v &&& 0x10 ≠ 0 then { c with imr := 0, irr := ∅, isr := ∅, icw1 := v, icw4 := 0, expects := 2 }
  else if v &&& 0x08 ≠ 0 then c
  else if v &&& 0xE0 = 0x20 then c.endOfInterrupt
  else if v &&& 0xE0 = 0x60 then { c with isr := c.isr.erase (Fin.ofNat 8 v.toNat) }
  else c

/-- A write to the second port: the initialisation words that the first one announces, then the mask. -/
def data (v : UInt8) (c : Chip) : Chip :=
  let last := if c.icw1 &&& 1 ≠ 0 then 4 else 0
  if c.expects = 2 then { c with vector := v &&& 0xF8, expects := if c.icw1 &&& 2 ≠ 0 then last else 3 }
  else if c.expects = 3 then { c with cascade := v, expects := last }
  else if c.expects = 4 then { c with icw4 := v, expects := 0 }
  else { c with imr := v }

/-- A line asks. -/
def request (k : Fin 8) (c : Chip) : Chip := { c with irr := insert k c.irr }

/-- A line may interrupt: it is not masked, and none of its priority or above is in service. -/
def admits (c : Chip) (k : Fin 8) : Bool := c.expects = 0 && !c.masked k && ∀ j ∈ c.isr, k < j

/-- Of the lines that ask, and of further ones, the first that may interrupt. -/
def next (c : Chip) (more : Finset (Fin 8)) : Option (Fin 8) :=
  (List.finRange 8).find? fun k => (k ∈ c.irr ∨ k ∈ more) && c.admits k

/-- The processor takes the interrupt of a line. -/
def acknowledge (k : Fin 8) (c : Chip) : Chip := { c with irr := c.irr.erase k, isr := insert k c.isr }

end Chip

/-- The two chips. -/
structure Pair where
  master : Chip
  slave : Chip
  deriving DecidableEq

namespace Pair

/-- A line of the two asks, those from 8 on at the slave. -/
def request (k : Fin 16) (p : Pair) : Pair :=
  if k.val < 8 then { p with master := p.master.request (Fin.ofNat 8 k) }
  else { p with slave := p.slave.request (Fin.ofNat 8 k) }

/-- The lines of the master through which the slave asks. -/
def asking (p : Pair) : Finset (Fin 8) :=
  if (p.slave.next ∅).isSome then Finset.univ.filter fun k => p.master.cascade.toNat.testBit k else ∅

/-- The vector that the processor gets, if it takes an interrupt. -/
def acknowledge (p : Pair) : Option UInt8 × Pair :=
  match p.master.next p.asking with
  | none => (none, p)
  | some k =>
    let master := p.master.acknowledge k
    match (if k ∈ p.asking then p.slave.next ∅ else none) with
    | some j => (some (p.slave.vector + UInt8.ofNat j), { master := master, slave := p.slave.acknowledge j })
    | none => (some (p.master.vector + UInt8.ofNat k), { p with master := master })

end Pair

end Pic
