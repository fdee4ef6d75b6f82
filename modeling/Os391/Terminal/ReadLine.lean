/-
What `terminal_read` does with an entered line: the copy, and the count that `read_helper` only assigns where the
copy comes to the newline.
-/
import Os391.Terminal.Delivery

namespace Os391

open Bytes Machine

namespace Kernel

variable {s s' : Kernel} {d : Fin 8} {buf : Int} {len p : Nat}

/-- The newline of the entered line stands at `p`. -/
def LineEnds (textBuf : Fin 128 → UInt8) (p : Nat) : Prop :=
  p < 128 ∧ textAt textBuf p = 10 ∧ ∀ i < p, textAt textBuf i ≠ 10

/-- The line is stored as far as the length goes, with its newline if there is room, nothing is written at or
beyond the length, and `entered` is cleared. -/
structure StoresLine (s s' : Kernel) (buf : Int) (len p : Nat) : Prop where
  line : ∀ i < min p len, s'.userView buf i = textAt s.textBuf i
  newline : p < len → s'.userView buf p = 10
  frame : ∀ dir a, ¬ (dir = s.cr3 ∧ buf ≤ a ∧ a < buf + len) → s'.user dir a = s.user dir a
  entered : s'.entered = false

/-- A read of the line returns the number of characters stored before the newline. -/
def ReadsLine (s : Kernel) (d : Fin 8) (buf : Int) (len p : Nat) : Prop :=
  ∃ s', terminalRead d buf len s = some (.ret (min p len : Nat), s') ∧ StoresLine s s' buf len p

/-- The copy stops at the newline or at the length, whichever comes first. -/
theorem newlineAt_lineEnds {textBuf : Fin 128 → UInt8} (h : LineEnds textBuf p) (len : Nat) :
    newlineAt textBuf len = if p < len then some p else none := by
  obtain ⟨hp, hnl, hno⟩ := h
  split
  case isTrue hlt => exact newlineAt_some (by omega) hnl hno
  case isFalse hge => exact newlineAt_none fun i hi => hno i (by omega)

/-- The store is right whatever the length; the count is assigned where the newline is stored. -/
theorem terminalRead_stores (h : LineEnds s.textBuf p) (he : s.entered = true) (hd : d ≠ 1) :
    ∃ s', terminalRead d buf len s = some (if p < len then .ret p else .indeterminate, s') ∧
      StoresLine s s' buf len p := by
  obtain ⟨hp, hnl, hno⟩ := h
  -- what the loop stores
  obtain ⟨n, hn⟩ : ∃ n, n = if p < len then p + 1 else len := ⟨_, rfl⟩
  have hcover : min p len ≤ n ∧ (p < len → p < n) ∧ n ≤ len := by split at hn <;> omega
  have hread : terminalRead d buf len s = some (if p < len then .ret p else .indeterminate,
      { s.userPut buf n (textAt s.textBuf) with entered := false }) := by
    unfold terminalRead
    rw [if_neg hd, if_pos he, newlineAt_lineEnds ⟨hp, hnl, hno⟩]
    by_cases hlt : p < len
    · rw [hn, if_pos hlt, if_pos hlt, if_pos hlt]
      rfl
    · have hmin : min len 128 = len := by omega
      rw [hn, if_neg hlt, if_neg hlt, if_neg hlt, hmin]
      rfl
  refine ⟨_, hread, ?_, ?_, ?_, rfl⟩
  · intro i hi
    exact userView_userPut s buf (textAt s.textBuf) (show i < n by omega)
  · intro hlt
    exact (userView_userPut s buf (textAt s.textBuf) (hcover.2.1 hlt)).trans hnl
  · intro dir a ha
    refine userPut_frame s buf n _ dir a fun h => ha ⟨h.1, h.2.1, ?_⟩
    omega

/-- A read of an entered line does what it should exactly when the length has room for the newline. -/
theorem readsLine_iff (h : LineEnds s.textBuf p) (he : s.entered = true) (hd : d ≠ 1) :
    ReadsLine s d buf len p ↔ p < len := by
  obtain ⟨s1, hread, hstores⟩ := @terminalRead_stores s d buf len p h he hd
  constructor
  · rintro ⟨s2, hread', -⟩
    rw [hread] at hread'
    by_contra hlt
    rw [if_neg hlt] at hread'
    cases hread'
  · intro hlt
    rw [if_pos hlt, ← Nat.min_eq_left hlt.le] at hread
    exact ⟨s1, hread, hstores⟩

/-- `ab` and Enter. -/
def enteredAb : Kernel :=
  (run (step .sample) firstShell [.key 97 ⟨0, 0⟩, .key 98 ⟨0, 0⟩, .key 10 ⟨0, 0⟩]).getD firstShell

theorem readsLine_ab : ReadsLine enteredAb 0 0x8000000 128 2 :=
  (readsLine_iff ⟨by decide, by decide +kernel, by decide +kernel⟩ (by decide +kernel) (by decide)).2 (by decide)

/-- A read of one byte of it, as a program does that waits for Enter, returns no count. -/
theorem short_read :
    LineEnds enteredAb.textBuf 2 ∧ enteredAb.entered = true ∧
      ((terminalRead 0 0x8000000 1 enteredAb).map fun x => x.1) = some .indeterminate ∧
      ¬ ReadsLine enteredAb 0 0x8000000 1 2 := by
  have hread : ((terminalRead 0 0x8000000 1 enteredAb).map fun x => x.1) = some .indeterminate := by decide +kernel
  refine ⟨⟨by decide, by decide +kernel, by decide +kernel⟩, by decide +kernel, hread, ?_⟩
  rintro ⟨s', h, -⟩
  rw [h] at hread
  cases hread

end Kernel

end Os391
