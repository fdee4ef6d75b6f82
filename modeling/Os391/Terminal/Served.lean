/-
The interrupts from the lines of the controller to the drivers: the chips choose a vector, the table its handler, and
the handler's ends of interrupt let the next one through. Two lines are served, and no request on them is lost.
-/
import Os391.Kernel.Descriptors
import Os391.Kernel.Pic
import Os391.Terminal.Devices

namespace Os391

open Pic

/-! ## The platform -/

/-- The two chips, and the system that they interrupt. -/
structure Platform where
  chips : Pair
  sys : System

/-- What comes to the platform: a request on a line, a call of the running process, or a moment at which the processor
takes interrupts, with what the keyboard would send. -/
inductive Input
  | request (k : Fin 16)
  | call (op : Kernel.Op) (h : ∀ k r, op ≠ .key k r)
  | interrupt (scancode : UInt8) (c : Keyboard.Open) (r : Regs)

/-- What it answers: the handler that runs, and how that or the call ends. -/
structure Answer where
  handler : Option Handler
  outcome : Option Outcome
  deriving DecidableEq

/-- The event that a handler makes of an interrupt; the others stop the kernel. -/
def eventOf (scancode : UInt8) (c : Keyboard.Open) (r : Regs) : Handler → Option System.Event
  | .keyboardHandler => some (.keyboard scancode c r)
  | .rtcHandler => some .rtc
  | _ => none

/-- An event of the system, with how it ends. An event without outcome leaves the system in it. -/
def System.answer (img : Image) (e : Option System.Event) (x : System) : Option Outcome × System :=
  match e.bind (x.step img) with
  | some (o, y) => (some o, y)
  | none => (none, x)

namespace Platform

/-- What a driver sends to a chip: its mask, and some ends of interrupt. -/
def settleChip (mask : UInt8) (eois : Nat) (c : Chip) : Chip := Chip.endOfInterrupt^[eois] { c with imr := mask }

/-- What the drivers have sent, from the devices before and after. -/
def settle (d d' : Devices) (p : Pair) : Pair :=
  { master := settleChip d'.masterMask (d'.masterEoi - d.masterEoi) p.master
    slave := settleChip d'.slaveMask (d'.slaveEoi - d.slaveEoi) p.slave }

/-- An event of the system at the platform. -/
def answer (img : Image) (h : Option Handler) (e : Option System.Event) (p : Platform) : Answer × Platform :=
  let y := p.sys.answer img e
  (⟨h, y.1⟩, ⟨settle p.sys.kernel.dev y.2.kernel.dev p.chips, y.2⟩)

def step (img : Image) (p : Platform) : Input → Answer × Platform
  | .request k => (⟨none, none⟩, { p with chips := p.chips.request k })
  | .call op h => p.answer img none (some (.call op h))
  | .interrupt scancode c r =>
    match p.chips.acknowledge with
    | (none, _) => (⟨none, none⟩, p)
    | (some v, chips) =>
      let h := handlerOf v.toNat
      answer img h (eventOf scancode c r h) ⟨chips, p.sys⟩

end Platform

/-! ## What is served -/

/-- The system with the requests that wait. -/
structure Waiting where
  pending : Finset (Fin 16)
  sys : System

namespace Waiting

/-- The line that is served next: the keyboard before the clock. -/
def first (w : Waiting) : Option (Fin 16 × Handler) :=
  if 1 ∈ w.pending then some (1, .keyboardHandler) else if 8 ∈ w.pending then some (8, .rtcHandler) else none

def step (img : Image) (w : Waiting) : Input → Answer × Waiting
  | .request k => (⟨none, none⟩, { w with pending := insert k w.pending })
  | .call op h =>
    let y := w.sys.answer img (some (.call op h))
    (⟨none, y.1⟩, { w with sys := y.2 })
  | .interrupt scancode c r =>
    match w.first with
    | none => (⟨none, none⟩, w)
    | some (k, h) =>
      let y := w.sys.answer img (eventOf scancode c r h)
      (⟨h, y.1⟩, ⟨w.pending.erase k, y.2⟩)

end Waiting

namespace Platform

/-! ## Ready chips -/

/-- A chip between two interrupts: nothing in service. -/
structure Ready (vector mask : UInt8) (c : Chip) : Prop where
  expects : c.expects = 0
  isr : c.isr = ∅
  vector : c.vector = vector
  imr : c.imr = mask

/-- The platform between two interrupts, with the keyboard, the slave and the clock enabled. -/
structure Idle (p : Platform) : Prop where
  master : Ready 0x20 0xF9 p.chips.master
  slave : Ready 0x28 0xFE p.chips.slave
  cascade : p.chips.master.cascade = 4
  quiet : 2 ∉ p.chips.master.irr
  masterMask : p.sys.kernel.dev.masterMask = 0xF9
  slaveMask : p.sys.kernel.dev.slaveMask = 0xFE

/-- The requests that the chips hold. -/
def pending (p : Platform) : Finset (Fin 16) :=
  Finset.univ.filter fun k =>
    if k.val < 8 then Fin.ofNat 8 k ∈ p.chips.master.irr else Fin.ofNat 8 k ∈ p.chips.slave.irr

variable {c : Chip} {vector mask : UInt8}

theorem Ready.admits (h : Ready vector mask c) (k : Fin 8) : c.admits k = !mask.toNat.testBit k := by
  unfold Chip.admits Chip.masked
  rw [h.expects, h.isr, h.imr]
  simp

/-- The lines of a chip that may interrupt. -/
theorem Ready.next_eq (h : Ready vector mask c) (more : Finset (Fin 8)) :
    c.next more = ([0, 1, 2, 3, 4, 5, 6, 7] : List (Fin 8)).find? fun k =>
      (k ∈ c.irr ∨ k ∈ more) && !mask.toNat.testBit k := by
  unfold Chip.next
  simp only [h.admits]
  rfl

theorem Ready.next_slave (h : Ready vector 0xFE c) : c.next ∅ = if 0 ∈ c.irr then some 0 else none := by
  have hbits : (0xFE : UInt8).toNat = 0xFE := rfl
  rw [h.next_eq, hbits]
  by_cases h0 : 0 ∈ c.irr <;> simp [h0, Nat.testBit]

theorem Ready.next_master (h : Ready vector 0xF9 c) (more : Finset (Fin 8)) :
    c.next more = if 1 ∈ c.irr ∨ 1 ∈ more then some 1 else if 2 ∈ c.irr ∨ 2 ∈ more then some 2 else none := by
  have hbits : (0xF9 : UInt8).toNat = 0xF9 := rfl
  rw [h.next_eq, hbits]
  by_cases h1 : 1 ∈ c.irr ∨ 1 ∈ more <;> by_cases h2 : 2 ∈ c.irr ∨ 2 ∈ more <;>
    simp [h1, h2, Nat.testBit]

variable {p : Platform}

theorem Idle.asking (h : Idle p) : p.chips.asking = if 0 ∈ p.chips.slave.irr then {2} else ∅ := by
  have hcascade : (Finset.univ.filter fun k : Fin 8 => (4 : UInt8).toNat.testBit k) = {2} := by decide
  unfold Pair.asking
  rw [h.slave.next_slave, h.cascade, hcascade]
  by_cases h0 : 0 ∈ p.chips.slave.irr <;> simp [h0]

/-- The vector that the processor gets. -/
theorem Idle.acknowledge (h : Idle p) :
    p.chips.acknowledge =
      if 1 ∈ p.chips.master.irr then (some 0x21, { p.chips with master := p.chips.master.acknowledge 1 })
      else if 0 ∈ p.chips.slave.irr then (some 0x28, ⟨p.chips.master.acknowledge 2, p.chips.slave.acknowledge 0⟩)
      else (none, p.chips) := by
  have hquiet := h.quiet
  unfold Pair.acknowledge
  rw [h.asking, h.master.next_master, h.slave.next_slave, h.master.vector, h.slave.vector]
  by_cases h1 : 1 ∈ p.chips.master.irr <;> by_cases h0 : 0 ∈ p.chips.slave.irr <;> simp [h1, h0, hquiet]

/-! ## Ends of interrupt -/

/-- A chip with one line in service, and as many ends of interrupt as it takes. -/
theorem settleChip_ready (k : Fin 8) (n : Nat) (hexpects : c.expects = 0) (hvector : c.vector = vector)
    (hisr : c.isr = ∅ ∨ c.isr = {k} ∧ 1 ≤ n) {sent : UInt8} (hsent : sent = mask) :
    Ready vector mask (settleChip sent n c) ∧ (settleChip sent n c).irr = c.irr ∧
      (settleChip sent n c).cascade = c.cascade := by
  have hend : ∀ (n : Nat) (c : Chip), c.isr = ∅ → Chip.endOfInterrupt^[n] c = c := by
    rintro n ⟨imr, irr, isr, vector, cascade, icw1, icw4, expects⟩ (rfl : isr = ∅)
    exact Function.iterate_fixed (by simp [Chip.endOfInterrupt]) n
  subst hsent
  unfold settleChip
  rcases hisr with hisr | ⟨hisr, hn⟩
  · rw [hend n { c with imr := sent } hisr]
    exact ⟨⟨hexpects, hisr, hvector, rfl⟩, rfl, rfl⟩
  · obtain ⟨n, rfl⟩ := Nat.exists_eq_add_of_le' hn
    have hlast : (Chip.endOfInterrupt { c with imr := sent }).isr = ∅ := by
      unfold Chip.endOfInterrupt
      simp [hisr]
    rw [Function.iterate_succ_apply, hend n _ hlast]
    exact ⟨⟨hexpects, hlast, hvector, rfl⟩, rfl, rfl⟩

/-- The devices after an event: the masks are still those, and only ends of interrupt have been added. -/
structure Further (d d' : Devices) : Prop where
  masterMask : d.masterMask = 0xF9 → d'.masterMask = 0xF9
  slaveMask : d.slaveMask = 0xFE → d'.slaveMask = 0xFE
  master : d.masterEoi ≤ d'.masterEoi
  slave : d.slaveEoi ≤ d'.slaveEoi

theorem further_step {set : Option Int} {d d' : Devices} (h : DriverStep set d d') : Further d d' := by
  cases h with
  | rest | flag => exact ⟨id, id, le_rfl, le_rfl⟩
  | eoi d irq =>
    refine ⟨id, id, Nat.le_succ _, ?_⟩
    unfold Devices.sendEoi
    dsimp only
    split_ifs
    · exact Nat.le_succ _
    · exact le_rfl
  | init =>
    rw [Devices.rtcInit_eq]
    refine ⟨fun h => ?_, fun h => ?_, le_rfl, le_rfl⟩
    · show d.masterMask &&& 0xFB = 0xF9
      rw [h]
      decide
    · show d.slaveMask &&& 0xFE = 0xFE
      rw [h]
      decide
  | set d hf => exact ⟨id, id, le_rfl, le_rfl⟩

theorem Further.trans {d d' d'' : Devices} (h : Further d d') (h' : Further d' d'') : Further d d'' :=
  ⟨h'.masterMask ∘ h.masterMask, h'.slaveMask ∘ h.slaveMask, h.master.trans h'.master, h.slave.trans h'.slave⟩

/-- What an event adds: of a keyboard interrupt one end of interrupt at least, of one of the clock one to each chip. -/
theorem further_event {img : Image} {e : System.Event} {x y : System} {o : Outcome} (h : x.step img e = some (o, y)) :
    Further x.kernel.dev y.kernel.dev ∧
      match e with
      | .call _ _ => True
      | .keyboard _ _ _ => x.kernel.dev.masterEoi + 1 ≤ y.kernel.dev.masterEoi
      | .rtc => x.kernel.dev.masterEoi + 1 ≤ y.kernel.dev.masterEoi ∧ x.kernel.dev.slaveEoi + 1 ≤ y.kernel.dev.slaveEoi := by
  cases e with
  | call op hop =>
    obtain ⟨⟨o', s'⟩, hs, he⟩ := Option.map_eq_some_iff.1 h
    cases he
    exact ⟨further_step (Kernel.step_drivers hs), trivial⟩
  | keyboard scancode c r =>
    obtain ⟨o1, s1, hread, hsent⟩ := @Kernel.keyboardRead_sent img (Keyboard.decode x.flags scancode c).2 r x.kernel
    have hkey := further_step (@Kernel.step_drivers img (.key (Keyboard.decode x.flags scancode c).2 r) _ _ _ hread)
    have hlast := hkey.trans (further_step (.eoi s1.dev 1))
    rw [show x.step img (.keyboard scancode c r) = System.readKeyboard img scancode c r x from rfl, System.readKeyboard] at h
    simp only [hread, Option.map_some] at h
    rcases hsent with ⟨⟨eip, rfl⟩, -, heois⟩ | ⟨hback, -⟩
    · cases h
      have hone := congrArg Prod.snd heois
      exact ⟨hkey, hone.ge⟩
    · cases o1 with
      | enter eip => exact absurd rfl (hback eip)
      | ret | indeterminate | resume | handled =>
        cases h
        exact ⟨hlast, Nat.succ_le_succ hkey.master⟩
  | rtc =>
    cases h
    have hflag : Further x.kernel.dev { x.kernel.dev with intrFlag := x.kernel.dev.intrFlag + 1 } :=
      further_step (.flag _ _)
    have hsent := System.rtc_sends x
    have hmaster := congrArg Prod.snd hsent
    have hslave := congrArg Prod.fst hsent
    refine ⟨(hflag.trans (further_step (.eoi _ 8))).trans (further_step (.eoi _ 2)), ?_, ?_⟩
    · exact (Nat.le_succ _).trans hmaster.ge
    · exact hslave.ge

/-! ## One step -/

theorem mem_pending {k : Fin 16} : k ∈ p.pending ↔
    if k.val < 8 then Fin.ofNat 8 k ∈ p.chips.master.irr else Fin.ofNat 8 k ∈ p.chips.slave.irr := by
  simp [pending]

/-- What waits, and the system. -/
def waiting (p : Platform) : Waiting := ⟨p.pending, p.sys⟩

theorem first_eq : p.waiting.first =
    if 1 ∈ p.chips.master.irr then some (1, .keyboardHandler)
    else if 0 ∈ p.chips.slave.irr then some (8, .rtcHandler) else none := by
  have h1 : (1 : Fin 16) ∈ p.pending ↔ 1 ∈ p.chips.master.irr := mem_pending
  have h8 : (8 : Fin 16) ∈ p.pending ↔ 0 ∈ p.chips.slave.irr := mem_pending
  unfold Waiting.first waiting
  simp only [h1, h8]

/-- An event of the system while at most one line of each chip is in service, where it sends ends of interrupt for
those. -/
theorem answer_idle {img : Image} (h : Option Handler) {e : Option System.Event} {chips : Pair} {x : System}
    (hmask : x.kernel.dev.masterMask = 0xF9 ∧ x.kernel.dev.slaveMask = 0xFE) (j k : Fin 8)
    (hmaster : chips.master.expects = 0 ∧ chips.master.vector = 0x20 ∧ chips.master.cascade = 4 ∧ 2 ∉ chips.master.irr)
    (hslave : chips.slave.expects = 0 ∧ chips.slave.vector = 0x28)
    (hj : chips.master.isr = ∅ ∨ chips.master.isr = {j} ∧
      x.kernel.dev.masterEoi + 1 ≤ (x.answer img e).2.kernel.dev.masterEoi)
    (hk : chips.slave.isr = ∅ ∨ chips.slave.isr = {k} ∧
      x.kernel.dev.slaveEoi + 1 ≤ (x.answer img e).2.kernel.dev.slaveEoi) :
    Idle (answer img h e ⟨chips, x⟩).2 ∧
      (answer img h e ⟨chips, x⟩).2.waiting = ⟨pending ⟨chips, x⟩, (x.answer img e).2⟩ := by
  have hfurther : Further x.kernel.dev (x.answer img e).2.kernel.dev := by
    unfold System.answer
    rcases hstep : e.bind (x.step img) with _ | ⟨o, y⟩
    · exact ⟨id, id, le_rfl, le_rfl⟩
    · obtain ⟨e', -, he⟩ := Option.bind_eq_some_iff.1 hstep
      exact (further_event he).1
  have hmask' := hfurther.masterMask hmask.1
  have hmask'' := hfurther.slaveMask hmask.2
  obtain ⟨hm, hmirr, hmcascade⟩ := settleChip_ready j
    ((x.answer img e).2.kernel.dev.masterEoi - x.kernel.dev.masterEoi) hmaster.1 hmaster.2.1
    (hj.imp id fun h => ⟨h.1, by omega⟩) hmask'
  obtain ⟨hs, hsirr, -⟩ := settleChip_ready k
    ((x.answer img e).2.kernel.dev.slaveEoi - x.kernel.dev.slaveEoi) hslave.1 hslave.2
    (hk.imp id fun h => ⟨h.1, by omega⟩) hmask''
  refine ⟨⟨hm, hs, hmcascade.trans hmaster.2.2.1, fun h => hmaster.2.2.2 (hmirr ▸ h), hmask', hmask''⟩, ?_⟩
  have hpending : pending (answer img h e ⟨chips, x⟩).2 = pending ⟨chips, x⟩ := by
    ext k
    rw [mem_pending, mem_pending]
    show (if k.val < 8 then Fin.ofNat 8 k ∈ (settleChip _ _ chips.master).irr
      else Fin.ofNat 8 k ∈ (settleChip _ _ chips.slave).irr) ↔ _
    rw [hmirr, hsirr]
  rw [waiting, hpending]
  rfl

/-- A keyboard interrupt and one of the clock are answered, with the ends of interrupt that they owe. -/
theorem served_eois (img : Image) (x : System) (scancode : UInt8) (c : Keyboard.Open) (r : Regs) :
    x.kernel.dev.masterEoi + 1 ≤ (x.answer img (some (.keyboard scancode c r))).2.kernel.dev.masterEoi ∧
      x.kernel.dev.masterEoi + 1 ≤ (x.answer img (some .rtc)).2.kernel.dev.masterEoi ∧
      x.kernel.dev.slaveEoi + 1 ≤ (x.answer img (some .rtc)).2.kernel.dev.slaveEoi := by
  obtain ⟨o, s', hread, -⟩ := @Kernel.keyboardRead_sent img (Keyboard.decode x.flags scancode c).2 r x.kernel
  have hkey : ∃ o y, x.step img (.keyboard scancode c r) = some (o, y) := by
    show ∃ o y, System.readKeyboard img scancode c r x = some (o, y)
    unfold System.readKeyboard
    exact ⟨_, _, congrArg (Option.map _) hread⟩
  obtain ⟨o, y, hy⟩ := hkey
  have hrtc : x.step img .rtc = some (.handled, x.rtcInterrupt) := rfl
  refine ⟨?_, (further_event hrtc).2⟩
  unfold System.answer
  simp only [Option.bind_some, hy]
  exact (further_event hy).2

/-- Lines of one chip are told apart by their numbers there. -/
theorem line_inj : ∀ j k : Fin 16, (j.val < 8 ↔ k.val < 8) → (Fin.ofNat 8 j = Fin.ofNat 8 k ↔ j = k) := by decide

theorem request_waiting (hp : Idle p) {k : Fin 16} (hk : k ≠ 2) :
    Idle { p with chips := p.chips.request k } ∧
      pending { p with chips := p.chips.request k } = insert k p.pending := by
  unfold Pair.request
  by_cases h8 : k.val < 8
  · rw [if_pos h8]
    refine ⟨⟨⟨hp.master.expects, hp.master.isr, hp.master.vector, hp.master.imr⟩, hp.slave, hp.cascade, ?_,
      hp.masterMask, hp.slaveMask⟩, ?_⟩
    · show (Fin.ofNat 8 (2 : Fin 16).val) ∉ insert (Fin.ofNat 8 k) p.chips.master.irr
      rw [Finset.mem_insert, line_inj 2 k (iff_of_true (by decide) h8)]
      exact fun h => h.elim (hk ·.symm) hp.quiet
    · ext j
      rw [mem_pending, Finset.mem_insert, mem_pending]
      by_cases hj : j.val < 8
      · rw [if_pos hj, if_pos hj, ← line_inj j k (iff_of_true hj h8)]
        exact Finset.mem_insert
      · rw [if_neg hj, if_neg hj]
        exact (or_iff_right (show ¬ j = k by rintro rfl; exact hj h8)).symm
  · rw [if_neg h8]
    refine ⟨⟨hp.master, ⟨hp.slave.expects, hp.slave.isr, hp.slave.vector, hp.slave.imr⟩, hp.cascade, hp.quiet,
      hp.masterMask, hp.slaveMask⟩, ?_⟩
    ext j
    rw [mem_pending, Finset.mem_insert, mem_pending]
    by_cases hj : j.val < 8
    · rw [if_pos hj, if_pos hj]
      exact (or_iff_right (show ¬ j = k by rintro rfl; exact h8 hj)).symm
    · rw [if_neg hj, if_neg hj, ← line_inj j k (iff_of_false hj h8)]
      exact Finset.mem_insert

/-- The keyboard's request taken, and the clock's. -/
theorem pending_keyboard (p : Platform) :
    pending { p with chips := { p.chips with master := p.chips.master.acknowledge 1 } } = p.pending.erase 1 := by
  ext j
  rw [mem_pending, Finset.mem_erase, mem_pending]
  by_cases hj : j.val < 8
  · rw [if_pos hj, if_pos hj, Ne, ← line_inj j 1 (iff_of_true hj (by decide))]
    exact Finset.mem_erase
  · rw [if_neg hj, if_neg hj]
    exact (and_iff_right (show j ≠ 1 by rintro rfl; exact hj (by decide))).symm

theorem pending_rtc (hp : Idle p) :
    pending { p with chips := ⟨p.chips.master.acknowledge 2, p.chips.slave.acknowledge 0⟩ } = p.pending.erase 8 := by
  have hmaster : (p.chips.master.acknowledge 2).irr = p.chips.master.irr := Finset.erase_eq_of_notMem hp.quiet
  ext j
  rw [mem_pending, Finset.mem_erase, mem_pending]
  by_cases hj : j.val < 8
  · rw [if_pos hj, if_pos hj, hmaster]
    exact (and_iff_right (show j ≠ 8 by rintro rfl; exact absurd hj (by decide))).symm
  · rw [if_neg hj, if_neg hj, Ne, ← line_inj j 8 (iff_of_false hj (by decide))]
    exact Finset.mem_erase

/-- A step of the platform is one of the system with its requests. -/
theorem step_waiting {img : Image} (hp : Idle p) {i : Input} (hi : i ≠ .request 2) :
    (p.step img i).1 = (p.waiting.step img i).1 ∧ Idle (p.step img i).2 ∧
      (p.step img i).2.waiting = (p.waiting.step img i).2 := by
  have hmask := And.intro hp.masterMask hp.slaveMask
  cases i with
  | request k =>
    obtain ⟨hidle, hpending⟩ := request_waiting hp fun h => hi (h ▸ rfl)
    exact ⟨rfl, hidle, congrArg (Waiting.mk · p.sys) hpending⟩
  | call op hop =>
    obtain ⟨hidle, hwaiting⟩ := @answer_idle img none (some (.call op hop)) p.chips p.sys hmask 0 0
      ⟨hp.master.expects, hp.master.vector, hp.cascade, hp.quiet⟩ ⟨hp.slave.expects, hp.slave.vector⟩
      (Or.inl hp.master.isr) (Or.inl hp.slave.isr)
    exact ⟨rfl, hidle, hwaiting⟩
  | interrupt scancode c r =>
    obtain ⟨hkey, hmaster, hslave⟩ := served_eois img p.sys scancode c r
    have hone : ∀ k : Fin 8, insert k p.chips.master.isr = {k} := fun k => by rw [hp.master.isr]; rfl
    have hzero : insert 0 p.chips.slave.isr = {0} := by rw [hp.slave.isr]; rfl
    unfold step Waiting.step
    dsimp only
    rw [hp.acknowledge, first_eq]
    by_cases h1 : 1 ∈ p.chips.master.irr
    · rw [if_pos h1, if_pos h1]
      obtain ⟨hidle, hwaiting⟩ := @answer_idle img (some .keyboardHandler) (some (.keyboard scancode c r))
        { p.chips with master := p.chips.master.acknowledge 1 } p.sys hmask 1 0
        ⟨hp.master.expects, hp.master.vector, hp.cascade, fun h => hp.quiet (Finset.mem_of_mem_erase h)⟩
        ⟨hp.slave.expects, hp.slave.vector⟩ (Or.inr ⟨hone 1, hkey⟩) (Or.inl hp.slave.isr)
      exact ⟨rfl, hidle, hwaiting.trans (congrArg (Waiting.mk · _) (pending_keyboard p))⟩
    by_cases h0 : 0 ∈ p.chips.slave.irr
    · rw [if_neg h1, if_pos h0, if_neg h1, if_pos h0]
      obtain ⟨hidle, hwaiting⟩ := @answer_idle img (some .rtcHandler) (some .rtc)
        ⟨p.chips.master.acknowledge 2, p.chips.slave.acknowledge 0⟩ p.sys hmask 2 0
        ⟨hp.master.expects, hp.master.vector, hp.cascade, fun h => hp.quiet (Finset.mem_of_mem_erase h)⟩
        ⟨hp.slave.expects, hp.slave.vector⟩ (Or.inr ⟨hone 2, hmaster⟩) (Or.inr ⟨hzero, hslave⟩)
      exact ⟨rfl, hidle, hwaiting.trans (congrArg (Waiting.mk · _) (pending_rtc hp))⟩
    · rw [if_neg h1, if_neg h0, if_neg h1, if_neg h0]
      exact ⟨rfl, hp, rfl⟩

/-! ## Runs -/

/-- Between two interrupts, as at boot, and whatever comes then: the chips and the drivers serve the requests on the lines of
the keyboard and the clock, each once, the keyboard first, and no others. A request on a line that already waits is the
same request. The ends of interrupt sent too often, to a chip that is not due one or before a shell is entered never hold
a request back. -/
theorem served (img : Image) (hp : Idle p) (inputs : List Input) (hi : ∀ i ∈ inputs, i ≠ .request 2) :
    Simulation.answers (step img) p inputs = Simulation.answers (Waiting.step img) p.waiting inputs ∧
      (Simulation.final (step img) p inputs).waiting = Simulation.final (Waiting.step img) p.waiting inputs ∧
      Idle (Simulation.final (step img) p inputs) := by
  have hstep : ∀ (p : Platform) (w : Waiting) (i : Input), Idle p ∧ p.waiting = w → i ≠ .request 2 →
      (step img p i).1 = (Waiting.step img w i).1 ∧
        Idle (step img p i).2 ∧ (step img p i).2.waiting = (Waiting.step img w i).2 := by
    rintro p w i ⟨hp, rfl⟩ hi
    exact step_waiting hp hi
  obtain ⟨hanswers, hidle, hfinal⟩ := Simulation.refines (R := fun p w => Idle p ∧ p.waiting = w) hstep ⟨hp, rfl⟩ hi
  exact ⟨hanswers, hfinal, hidle⟩

/-- The platform at boot. -/
def boot : Platform := ⟨(Simulation.final Controller.step Controller.powerOn.i8259Init Controller.bootOps).chips, .boot⟩

theorem idle_boot : Idle boot := by
  refine ⟨⟨?_, ?_, ?_, ?_⟩, ⟨?_, ?_, ?_, ?_⟩, ?_, ?_, rfl, rfl⟩ <;> decide +kernel

/-- A key and two ticks at the same time, and Ctrl+C after them. -/
theorem served_boot :
    let c : Keyboard.Open := ⟨fun _ => 0, 0⟩
    let inputs : List Input := [.request 1, .request 8, .request 8, .interrupt 29 c ⟨0, 0⟩, .request 1, .interrupt 46 c ⟨0, 0⟩,
      .interrupt 0 c ⟨0, 0⟩, .interrupt 0 c ⟨0, 0⟩]
    Simulation.answers (step .sample) boot inputs = Simulation.answers (Waiting.step .sample) boot.waiting inputs ∧
      (Simulation.answers (Waiting.step .sample) boot.waiting inputs).filterMap Answer.handler =
        [.keyboardHandler, .keyboardHandler, .rtcHandler] := by
  intro c inputs
  have hi : ∀ i ∈ inputs, i ≠ .request 2 := by
    intro i hi
    simp only [inputs, List.mem_cons, List.not_mem_nil, or_false] at hi
    rcases hi with rfl | rfl | rfl | rfl | rfl | rfl | rfl | rfl <;> simp
  exact ⟨(served .sample idle_boot inputs hi).1, by decide +kernel⟩

end Platform

end Os391
