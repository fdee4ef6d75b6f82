/-
The indices of `text_buf` and `t_linebuffer`. Keystrokes, switches, openings and reads of any processes may come in
any order, the loops of the last two broken up into their turns: `counter` never passes 127, nor does an index.
-/
import Os391.Terminal.Delivery

namespace Os391

open Bytes Machine

namespace Kernel

variable {img : Image}

/-! ## Openings and reads, one turn at a time -/

/-- Where a process stands: in or before a `terminal_read`, or in the loop of `terminal_open`. -/
inductive Call
  | reading (r : Reader)
  | opening (i : Nat)

/-- The kernel, and where each process stands. -/
structure Board where
  kernel : Kernel
  log : Log
  calls : Nat → Call

/-- What may happen. -/
inductive BoardOp
  | key (keystroke : UInt8) (r : Regs)
  | switch (t : TermNum) (r : Regs)
  | open (p : Nat)
  | read (p : Nat) (c : Reading)
  | turn (p : Nat)

/-- `terminal_open` behind its loop. -/
def openRest (s : Kernel) : Kernel :=
  { s with
    counter := 0
    con := s.con.setCursor 0 0
    term2Press := false
    term3Press := false
    dev := s.dev.enableIrq 1 }

/-- A turn of the loop of `terminal_open`, or what is behind the loop. -/
def openTurn (i : Nat) (s : Kernel) : Kernel × Call :=
  if i < 128 then ({ s with textBuf := setText i 0 s.textBuf }, .opening (i + 1)) else (openRest s, .reading .idle)

/-- One of the things that may happen. -/
def boardStep (img : Image) (x : Board) : BoardOp → Option (Outcome × Board)
  | .key k r => (keyboardRead img k r x.kernel).map fun y => (y.1, ⟨y.2, x.log.key x.kernel k r, x.calls⟩)
  | .switch t r => (terminalSwitch img t r x.kernel).map fun y => (y.1, ⟨y.2, x.log, x.calls⟩)
  | .open p =>
    match x.calls p with
    | .reading .idle => some (.handled, { x with calls := Function.update x.calls p (.opening 0) })
    | _ => none
  | .read p c =>
    match x.calls p with
    | .reading .idle => some (.handled, { x with calls := Function.update x.calls p (.reading (.polling c)) })
    | _ => none
  | .turn p =>
    match x.calls p with
    | .reading r => (tick x.kernel x.log r).map fun y =>
        (y.1, ⟨y.2.kernel, y.2.log, Function.update x.calls p (.reading y.2.reader)⟩)
    | .opening i =>
      some (.handled, ⟨(openTurn i x.kernel).1, x.log, Function.update x.calls p (openTurn i x.kernel).2⟩)

/-! ## Indices -/

/-- The loops of `terminal_switch`: one saves `text_buf`, the other clears it or takes it from `t_linebuffer`. -/
def switchIndices (t : TermNum) (s : Kernel) : List Nat :=
  if s.curTerminal = t then [] else List.range 128 ++ List.range 128

/-- The indices of `keyboard_read`. -/
def keyIndices (keystroke : UInt8) (s : Kernel) : List Nat :=
  if keystroke = 9 ∨ keystroke = 0xF8 ∨ keystroke = 0xFF then []
  else if s.con.screenX ≥ numCols - 1 ∨ keystroke = 10 then
    if keystroke = 10 then [s.counter.toNat] else []
  else if keystroke = 8 then
    if atPrompt s.con then []
    else if s.counter = 0 then []
    else [(s.counter - 1).toNat]
  else if keystroke ≥ 32 ∧ keystroke ≤ 126 ∧ s.counter < 127 then [s.counter.toNat]
  else
    match switchKey keystroke with
    | some t => switchIndices t s
    | none => []

/-- The indices of the next turn of a call. -/
def Call.indices : Call → List Nat
  | .reading (.copying c _ i _) => if i < c.len ∧ i < 128 then [i] else []
  | .reading (.testing _ _ i _) => [i]
  | .opening i => if i < 128 then [i] else []
  | _ => []

/-- The indices at which `text_buf` and `t_linebuffer` are read and written. -/
def Board.indices (x : Board) : BoardOp → List Nat
  | .key k _ => keyIndices k x.kernel
  | .switch t _ => switchIndices t x.kernel
  | .open _ | .read .. => []
  | .turn p => (x.calls p).indices

theorem opening_from (img : Image) (g : Log) (calls : Nat → Call) (p : Nat) : ∀ (m i : Nat) (s : Kernel), i + m = 128 →
    (∀ j : Fin 128, j.val < i → s.textBuf j = 0) →
      run (boardStep img) ⟨s, g, Function.update calls p (.opening i)⟩ (List.replicate (m + 1) (.turn p)) =
        some ⟨(terminalOpen s).2, g, Function.update calls p (.reading .idle)⟩
  | 0, i, s, hi, hzero => by
    obtain rfl : i = 128 := hi
    have hclear : s.textBuf = fun _ => 0 := funext fun j => hzero j j.isLt
    have hstep : boardStep img ⟨s, g, Function.update calls p (.opening 128)⟩ (.turn p) =
        some (.handled, ⟨openRest s, g, Function.update calls p (.reading .idle)⟩) := by
      simp only [boardStep, Function.update_self, Function.update_idem]
      rfl
    rw [List.replicate_succ, run, hstep]
    simp only [Option.bind_some, List.replicate_zero, run, openRest, terminalOpen, ← hclear]
  | m + 1, i, s, hi, hzero => by
    have hstep : boardStep img ⟨s, g, Function.update calls p (.opening i)⟩ (.turn p) =
        some (.handled, ⟨{ s with textBuf := setText i 0 s.textBuf }, g, Function.update calls p (.opening (i + 1))⟩) := by
      simp only [boardStep, Function.update_self, Function.update_idem, openTurn, if_pos (show i < 128 by omega)]
    rw [List.replicate_succ, run, hstep]
    refine opening_from img g calls p m (i + 1) { s with textBuf := setText i 0 s.textBuf } (by omega) fun j hj => ?_
    show (if j.val = i then 0 else s.textBuf j) = 0
    split_ifs with hji
    · rfl
    · exact hzero j (by omega)

/-- An opening that no one interrupts is `terminal_open`. -/
theorem opening_terminalOpen (img : Image) (s : Kernel) (g : Log) (calls : Nat → Call) (p : Nat) :
    run (boardStep img) ⟨s, g, Function.update calls p (.opening 0)⟩ (List.replicate 129 (.turn p)) =
      some ⟨(terminalOpen s).2, g, Function.update calls p (.reading .idle)⟩ :=
  opening_from img g calls p 128 0 s rfl fun _ h => absurd h (Nat.not_lt_zero _)

/-! ## The bound -/

/-- `counter` is at most 127, and so is an index at which a character was just copied. -/
structure Bounded (x : Board) : Prop where
  counter : x.kernel.counter.toNat ≤ 127
  testing : ∀ p c line i out, x.calls p = .reading (.testing c line i out) → i ≤ 127

theorem toNat_pred_le {v : UInt32} {n : Nat} (h0 : v ≠ 0) (h : v.toNat ≤ n) : (v - 1).toNat ≤ n := by
  have hpos : v.toNat ≠ 0 := fun h' => h0 (UInt32.toNat_inj.1 h')
  rw [UInt32.toNat_sub_of_le v 1 (show 1 ≤ v.toNat by omega)]
  exact le_trans (Nat.sub_le _ _) h

theorem stroke_counter {k : UInt8} {s s' : Kernel} (h : Stroke s k s') (hs : s.counter.toNat ≤ 127) :
    s'.counter.toNat ≤ 127 := by
  cases h with
  | enter => exact Nat.zero_le _
  | delete hx hp h0 => exact toNat_pred_le h0 hs
  | type hk h10 h8 hx hc =>
    have hlt : s.counter.toNat < 127 := hc.2.2
    show (s.counter + 1).toNat ≤ 127
    rw [toNat_succ (by omega)]
    omega
  | tab | ctrlC | ctrlL | lineBreak | atStart | press | ignored => exact hs

theorem terminalSwitch_counter {t : TermNum} {r : Regs} {s s' : Kernel} {o : Outcome}
    (hr : terminalSwitch img t r s = some (o, s')) (hs : s.counter.toNat ≤ 127) : s'.counter.toNat ≤ 127 := by
  unfold terminalSwitch at hr
  by_cases hcur : s.curTerminal = t
  · rw [if_pos hcur] at hr
    obtain ⟨-, rfl⟩ := Prod.mk.inj (Option.some.inj hr)
    exact hs
  rw [if_neg hcur] at hr
  dsimp only at hr
  split_ifs at hr with hst
  · obtain ⟨-, rfl⟩ := Prod.mk.inj (Option.some.inj hr)
    simpa only [enterTerminal, loadScreen, leaveTerminal, saveScreen] using hs
  · obtain ⟨⟨o', s1⟩, hex, heq⟩ := Option.map_eq_some_iff.1 hr
    obtain ⟨⟨-, -, -, -, -, hcount, -⟩, -⟩ := execute_frame hex
    have hs' : s' = s1 := by
      cases o' <;> exact (Prod.mk.inj heq).2.symm
    rw [hs', hcount]
    exact Nat.zero_le _

theorem keyboardRead_counter {k : UInt8} {r : Regs} {s s' : Kernel} {o : Outcome}
    (hr : keyboardRead img k r s = some (o, s')) (hs : s.counter.toNat ≤ 127) : s'.counter.toNat ≤ 127 := by
  rcases hsw : s.switchTo k with _ | t
  · exact stroke_counter (stroke_of_keyboardRead hsw hr).2 hs
  · obtain ⟨hx, hk, -⟩ := switchTo_some hsw
    rw [keyboardRead_switchKey r hx hk] at hr
    exact terminalSwitch_counter hr hs

theorem range_le : ∀ i ∈ List.range 128, i ≤ 127 := fun _ hi => Nat.le_of_lt_succ (List.mem_range.1 hi)

theorem switchIndices_le (t : TermNum) (s : Kernel) : ∀ i ∈ switchIndices t s, i ≤ 127 := by
  unfold switchIndices
  split_ifs
  · exact fun _ hi => absurd hi List.not_mem_nil
  · exact List.forall_mem_append.2 ⟨range_le, range_le⟩

theorem keyIndices_le (k : UInt8) {s : Kernel} (hs : s.counter.toNat ≤ 127) : ∀ i ∈ keyIndices k s, i ≤ 127 := by
  have hnone : ∀ i ∈ ([] : List Nat), i ≤ 127 := fun _ hi => absurd hi List.not_mem_nil
  have hcounter : ∀ i ∈ [s.counter.toNat], i ≤ 127 := fun i hi => by rwa [List.mem_singleton.1 hi]
  unfold keyIndices
  split_ifs with h1 h2 h3 h4 h5 h0 h6
  · exact hnone
  · exact hcounter
  · exact hnone
  · exact hnone
  · exact hnone
  · intro i hi
    rw [List.mem_singleton.1 hi]
    exact toNat_pred_le h0 hs
  · exact hcounter
  · split
    · exact switchIndices_le _ s
    · exact hnone

/-- Every access of a bounded state is in range. -/
theorem Bounded.indices_le {x : Board} (h : Bounded x) : ∀ op, ∀ i ∈ x.indices op, i ≤ 127
  | .key k _ => keyIndices_le k h.counter
  | .switch t _ => switchIndices_le t x.kernel
  | .open _ | .read .. => fun _ hi => absurd hi List.not_mem_nil
  | .turn p => by
    show ∀ i ∈ (x.calls p).indices, i ≤ 127
    have hnone : ∀ i ∈ ([] : List Nat), i ≤ 127 := fun _ hi => absurd hi List.not_mem_nil
    unfold Call.indices
    split
    · split_ifs with hc
      · intro i hi
        rw [List.mem_singleton.1 hi]
        omega
      · exact hnone
    next c line i out heq =>
      intro i hi
      rw [List.mem_singleton.1 hi]
      exact h.testing p c line _ out heq
    · split_ifs with hc
      · intro i hi
        rw [List.mem_singleton.1 hi]
        omega
      · exact hnone
    · exact hnone

/-- A turn of a read keeps `counter`, and comes to compare a character only at an index in range. -/
theorem tick_bounded {s : Kernel} {g : Log} {r : Reader} {y : Outcome × Session} (h : tick s g r = some y) :
    y.2.kernel.counter = s.counter ∧ ∀ c line i out, y.2.reader = .testing c line i out → i ≤ 127 := by
  cases r with
  | idle => cases h
  | polling c =>
    simp only [tick] at h
    split_ifs at h <;> cases h <;> exact ⟨rfl, fun _ _ _ _ h => by cases h⟩
  | copying c line i out =>
    simp only [tick] at h
    split_ifs at h with hi
    · cases h
      refine ⟨rfl, fun c' line' i' out' h => ?_⟩
      obtain ⟨-, -, rfl, -⟩ := Reader.testing.inj h
      omega
    · cases h
      exact ⟨rfl, fun _ _ _ _ h => by cases h⟩
  | testing c line i out =>
    simp only [tick] at h
    split_ifs at h <;> cases h <;> exact ⟨rfl, fun _ _ _ _ h => by cases h⟩
  | closing ret line out =>
    cases h
    exact ⟨rfl, fun _ _ _ _ h => by cases h⟩

/-- A call moved on to a place where no character has just been copied. -/
theorem Bounded.update {x : Board} {s : Kernel} {g : Log} {p : Nat} {c : Call} (h : Bounded x)
    (hs : s.counter.toNat ≤ 127) (hc : ∀ c' line i out, c = .reading (.testing c' line i out) → i ≤ 127) :
    Bounded ⟨s, g, Function.update x.calls p c⟩ := by
  refine ⟨hs, fun q c' line i out heq => ?_⟩
  by_cases hq : q = p
  · subst hq
    simp only [Function.update_self] at heq
    exact hc c' line i out heq
  · simp only [Function.update_of_ne hq] at heq
    exact h.testing q c' line i out heq

theorem boardStep_bounded {x : Board} {op : BoardOp} {y : Outcome × Board} (h : Bounded x)
    (hs : boardStep img x op = some y) : Bounded y.2 := by
  cases op with
  | key k r =>
    obtain ⟨⟨o, s'⟩, hr, rfl⟩ := Option.map_eq_some_iff.1 hs
    exact ⟨keyboardRead_counter hr h.counter, h.testing⟩
  | switch t r =>
    obtain ⟨⟨o, s'⟩, hr, rfl⟩ := Option.map_eq_some_iff.1 hs
    exact ⟨terminalSwitch_counter hr h.counter, h.testing⟩
  | «open» p =>
    simp only [boardStep] at hs
    split at hs
    · cases hs
      exact h.update h.counter fun _ _ _ _ heq => by cases heq
    · cases hs
  | read p c =>
    simp only [boardStep] at hs
    split at hs
    · cases hs
      exact h.update h.counter fun _ _ _ _ heq => by cases heq
    · cases hs
  | turn p =>
    simp only [boardStep] at hs
    split at hs
    · obtain ⟨z, hz, rfl⟩ := Option.map_eq_some_iff.1 hs
      obtain ⟨hcount, htest⟩ := tick_bounded hz
      exact h.update (hcount ▸ h.counter) fun c line i out heq => htest c line i out (Call.reading.inj heq)
    next i hi =>
      cases hs
      unfold openTurn
      split_ifs
      · exact h.update h.counter fun _ _ _ _ heq => by cases heq
      · exact h.update (Nat.zero_le _) fun _ _ _ _ heq => by cases heq

/-- In every run `counter` stays at most 127, and no buffer of the terminals is accessed outside its 128 bytes. -/
theorem indices_along (img : Image) (ops : List BoardOp) :
    Along (boardStep img) (fun x op => x.kernel.counter.toNat ≤ 127 ∧ ∀ i ∈ x.indices op, i ≤ 127)
      ⟨boot, ⟨fun _ => [], [], false, []⟩, fun _ => .reading .idle⟩ ops := by
  have hstart : Bounded ⟨boot, ⟨fun _ => [], [], false, []⟩, fun _ => .reading .idle⟩ :=
    ⟨Nat.zero_le _, fun p c line i out h => by cases h⟩
  exact along_mono (I := Bounded) (fun x op hx _ => ⟨hx.counter, hx.indices_le op⟩)
    (fun x op y hx _ hs => boardStep_bounded hx hs) hstart (along_true ops _)

end Kernel

end Os391
