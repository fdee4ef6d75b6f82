/-
A switch to another terminal and back. `terminal_switch` saves the descriptors of the PCB copy and
not those of `pcblock`, and on the way back builds `pcblock` from them and the rest of that copy: a
process finds its table and arguments again exactly when its copy agreed with `pcblock`, in the
descriptors when it was left and in the rest when it comes back.
-/
import Os391.Files.Frame
import Os391.Terminal.Spec

namespace Os391

open Bytes Machine

namespace Kernel

variable {img : Image}

/-! ## Steps of other processes -/

/-- The terminal an operation switches to. -/
def target (s : Kernel) : Op → Option TermNum
  | .key k _ => s.switchTo k
  | _ => none

/-- A step in which the process under `pid` takes no part and which does not bring terminal `c` back. -/
def Elsewhere (pid : Int) (c : TermNum) (s : Kernel) (op : Op) : Prop := s.findPid ≠ pid ∧ s.target op ≠ some c

instance (pid : Int) (c : TermNum) (s : Kernel) (op : Op) : Decidable (Elsewhere pid c s op) :=
  inferInstanceAs (Decidable (_ ∧ _))

/-- A step in which no `execute` saves its caller or starts a program under `pid`. -/
def SparesCopy (pid : Int) (s : Kernel) (op : Op) : Prop :=
  s.curPid ≠ pid ∧ ∀ x ∈ s.call op, ∀ n ∈ x.2.2.claimed x.1, pid ≠ n.val

instance (pid : Int) (s : Kernel) (op : Op) : Decidable (SparesCopy pid s op) :=
  inferInstanceAs (Decidable (_ ∧ _))

/-- Terminal `c` is started but not displayed, and what is saved for it is `T`. -/
structure Away (c : TermNum) (T : Terminal) (s : Kernel) : Prop where
  hidden : s.curTerminal ≠ c
  started : s.started c = true
  saved : s.terminals c = T

/-- The state in which an `execute` is called keeps what is saved. -/
theorem call_away {c : TermNum} {T : Terminal} {s s0 : Kernel} {op : Op} {command : CString} {r : Regs}
    (h : Away c T s) (ht : s.target op ≠ some c) (hc : s.call op = some (command, r, s0)) : Away c T s0 := by
  rcases call_cases hc with ⟨rfl, rfl⟩ | ⟨status, n, rfl, hp, h3, rfl, rfl⟩ | ⟨k, t, rfl, hs, hst, rfl, rfl⟩
  · exact h
  · exact ⟨h.hidden, (started_congr rfl rfl c).trans h.started, h.saved⟩
  · refine ⟨?_, ?_, ?_⟩
    · rw [activate_curTerminal, leftFor_curTerminal]
      exact fun h => ht (by rw [← h]; exact hs)
    · apply started_activate
      rw [started_leftFor]
      exact h.started
    · rw [activate_terminals, leftFor_terminals r h.hidden]
      exact h.saved

theorem step_away {c : TermNum} {T : Terminal} {s : Kernel} {op : Op} {x : Outcome × Kernel} (h : Away c T s)
    (htarget : s.target op ≠ some c) (hs : step img s op = some x) : Away c T x.2 := by
  obtain ⟨o, s'⟩ := x
  rcases hcall : s.call op with _ | ⟨command, r, s0⟩
  · rcases step_noCall hcall hs with hop | rfl | ⟨t, -, rfl⟩ | ⟨con, textBuf, counter, entered, dev, rfl⟩ |
      ⟨k, r, t, rfl, ht, -, rfl⟩ | ⟨status, r, n, -, -, -, rfl⟩
    · obtain ⟨p', fdIndex, fdVal, fdRtc, slots, con, dev, user, entered, rfl, -⟩ := fileCall_eq hop hs
      exact ⟨h.hidden, (started_congr rfl rfl c).trans h.started, h.saved⟩
    · exact h
    · exact ⟨h.hidden, (started_congr rfl rfl c).trans h.started, h.saved⟩
    · exact ⟨h.hidden, (started_congr rfl rfl c).trans h.started, h.saved⟩
    · -- a switch to a third terminal
      have htc : t ≠ c := fun htc => htarget (by rw [← htc]; exact ht)
      refine ⟨?_, ?_, ?_⟩
      · rw [enterTerminal_curTerminal, leftFor_curTerminal]
        exact htc
      · rw [started_enterTerminal, started_leftFor]
        exact h.started
      · rw [enterTerminal_terminals, leftFor_terminals r h.hidden]
        exact h.saved
    · obtain ⟨-, hterm, hct, hf2, hf3, -⟩ := haltProgram_frame n s
      exact ⟨by rw [hct]; exact h.hidden, (started_congr hf2 hf3 c).trans h.started, by rw [hterm]; exact h.saved⟩
  · have h0 := call_away h htarget hcall
    obtain ⟨o', hex, -⟩ := step_call hcall hs
    obtain ⟨⟨hterm, hct, hf2, hf3, -⟩, -⟩ := execute_frame hex
    refine ⟨by rw [hct]; exact h0.hidden, ?_, by rw [hterm]; exact h0.saved⟩
    rw [started_congr hf2 hf3]
    exact h0.started

theorem call_slots {s s0 : Kernel} {op : Op} {command : CString} {r : Regs} (hc : s.call op = some (command, r, s0)) :
    s0.slots = s.slots ∧ s0.curPid = s.curPid := by
  rcases call_cases hc with ⟨rfl, rfl⟩ | ⟨status, n, rfl, hp, h3, rfl, rfl⟩ | ⟨k, t, rfl, hs, hst, rfl, rfl⟩
  · exact ⟨rfl, rfl⟩
  · exact ⟨rfl, rfl⟩
  · refine ⟨by rw [activate_slots, leftFor_slots], ?_⟩
    rw [curPid, findPid, activate_cr3, leftFor_cr3]
    rfl

/-- While others run and nothing is started under `pid`, the copy stays. -/
theorem step_copy {pid : Int} {s : Kernel} {op : Op} {x : Outcome × Kernel} (hpid : s.findPid ≠ pid)
    (hq : SparesCopy pid s op) (hs : step img s op = some x) : x.2.slots pid = s.slots pid := by
  obtain ⟨o, s'⟩ := x
  obtain ⟨hcur, hclaim⟩ := hq
  rcases hcall : s.call op with _ | ⟨command, r, s0⟩
  · rcases step_noCall hcall hs with hop | rfl | ⟨t, -, rfl⟩ | ⟨con, textBuf, counter, entered, dev, rfl⟩ |
      ⟨k, r, t, -, -, -, rfl⟩ | ⟨status, r, n, -, -, -, rfl⟩
    · obtain ⟨p', fdIndex, fdVal, fdRtc, slots, con, dev, user, entered, rfl, hsl⟩ := fileCall_eq hop hs
      exact hsl pid hpid.symm
    · rfl
    · rfl
    · rfl
    · rw [enterTerminal_slots, leftFor_slots]
    · rw [(haltProgram_frame n s).1]
  · obtain ⟨o', hex, -⟩ := step_call hcall hs
    obtain ⟨-, hslots⟩ := execute_frame hex
    obtain ⟨hs0, hcur0⟩ := call_slots hcall
    rw [hslots pid (by rw [hcur0]; exact hcur.symm) (hclaim _ hcall), hs0]

/-! ## The round trip -/

/-- From state `s` the user switches to another started terminal, which gives `s1`; after the steps
`ops` of other processes, in state `s2`, the terminal left is switched back to, which gives `s'`. -/
structure RoundTrip (img : Image) (s s1 : Kernel) (ops : List Op) (s2 s' : Kernel) : Prop where
  running : s.started s.curTerminal = true
  leave : ∃ k r t, s.switchTo k = some t ∧ s.started t = true ∧ step img s (.key k r) = some (.handled, s1)
  others : Along (step img) (Elsewhere s.findPid s.curTerminal) s1 ops
  between : run (step img) s1 ops = some s2
  back : ∃ k r, s2.switchTo k = some s.curTerminal ∧ step img s2 (.key k r) = some (.handled, s')

/-- The PCB copy of the process agrees with its block: in the descriptor table when its terminal is
left in state `s`, and in the entries and arguments when it is switched back to in state `s2`. -/
structure CopyAgrees (s s2 : Kernel) : Prop where
  files : (s.slots s.findPid).fileStruct = s.pcblock.fileStruct
  dentries : (s2.slots s.findPid).dentry = s.pcblock.dentry
  argName : (s2.slots s.findPid).argName = s.pcblock.argName
  dataArgSize : (s2.slots s.findPid).dataArgSize = s.pcblock.dataArgSize

/-- What a process finds in `pcblock` after the round trip: the descriptors of its copy as it was
before, and the rest of the copy as it is now. -/
theorem roundTrip_pcblock {s s1 s2 s' : Kernel} {ops : List Op} (h : RoundTrip img s s1 ops s2 s') :
    s1.slots = s.slots ∧
      s'.pcblock = { s2.slots s.findPid with fileStruct := (s.slots s.findPid).fileStruct } := by
  obtain ⟨hc, ⟨k, r, t, ht, hst, h1⟩, helse, hrun, ⟨k', r', ht', h2⟩⟩ := h
  rw [key_started ht hst] at h1
  obtain ⟨-, rfl⟩ := Prod.mk.inj (Option.some.inj h1)
  refine ⟨by rw [enterTerminal_slots, leftFor_slots], ?_⟩
  -- what is saved for the terminal left
  have haway : Away s.curTerminal ((leftFor t r s).terminals s.curTerminal) (enterTerminal t (leftFor t r s)) := by
    refine ⟨?_, ?_, by rw [enterTerminal_terminals]⟩
    · rw [enterTerminal_curTerminal, leftFor_curTerminal]
      exact (switchTo_ne ht).symm
    · rw [started_enterTerminal, started_leftFor]
      exact hc
  have haway2 := run_inv (I := Away s.curTerminal ((leftFor t r s).terminals s.curTerminal))
    (fun _ _ _ ha he hs => step_away ha he.2 hs) haway helse hrun
  rw [key_started ht' haway2.started] at h2
  obtain ⟨-, rfl⟩ := Prod.mk.inj (Option.some.inj h2)
  have hsaved : (leftFor s.curTerminal r' s2).terminals s.curTerminal = (leftFor t r s).terminals s.curTerminal :=
    (leftFor_terminals r' haway2.hidden).trans haway2.saved
  have hfile : ((leftFor t r s).terminals s.curTerminal).fileStruct = (s.slots s.findPid).fileStruct := by
    show (Function.update s.terminals s.curTerminal _ s.curTerminal).fileStruct = _
    rw [Function.update_self]
    rfl
  have hcr3 : ((leftFor t r s).terminals s.curTerminal).cr3 = s.cr3 := by
    show (Function.update s.terminals s.curTerminal _ s.curTerminal).cr3 = _
    rw [Function.update_self]
    rfl
  show ({ s2.slots (getPidFromCr3 ((leftFor s.curTerminal r' s2).terminals s.curTerminal).cr3) with
    fileStruct := ((leftFor s.curTerminal r' s2).terminals s.curTerminal).fileStruct } : Pcb) = _
  rw [hsaved, hfile, hcr3]
  rfl

/-- After a round trip a process has its descriptor table, its entries and its arguments exactly when
its PCB copy agrees with them; and if nothing was started under its pid meanwhile, exactly when the
copy agreed in all of them when the terminal was left. As everywhere, the programs started meanwhile have at most
`stagingRoom` bytes: a longer one is staged over the copies. -/
theorem round_trip_restores_iff (img : Image) (s s1 : Kernel) (ops : List Op) (s2 s' : Kernel)
    (h : RoundTrip img s s1 ops s2 s') :
    (SameFiles s.pcblock s'.pcblock ↔ CopyAgrees s s2) ∧
    (Along (step img) (SparesCopy s.findPid) s1 ops →
      (SameFiles s.pcblock s'.pcblock ↔ SameFiles s.pcblock (s.slots s.findPid))) := by
  obtain ⟨hs1, hp⟩ := roundTrip_pcblock h
  constructor
  · rw [hp]
    exact ⟨fun hs => ⟨hs.files, hs.dentries, hs.argName, hs.dataArgSize⟩,
      fun hs => ⟨hs.files, hs.dentries, hs.argName, hs.dataArgSize⟩⟩
  · intro hspares
    have hcopy : s2.slots s.findPid = s.slots s.findPid := run_inv (I := fun u => u.slots s.findPid = s.slots s.findPid)
      (fun _ _ _ hu hq hs => (step_copy hq.1.1 hq.2 hs).trans hu) (by rw [hs1]) (along_and h.others hspares) h.between
    rw [hp, hcopy]

/-! ## Two round trips of the first shell -/

/-- The state after Alt+F2, the one after some calls of the process there, and the one after Alt+F1. -/
def atSecond (s : Kernel) : Kernel := ((step .sample s (.key 0xF6 ⟨0, 0⟩)).getD (.handled, s)).2
def afterOthers (ops : List Op) (s : Kernel) : Kernel := (run (step .sample) (atSecond s) ops).getD (atSecond s)
def backAtFirst (ops : List Op) (s : Kernel) : Kernel :=
  ((step .sample (afterOthers ops s) (.key 0xF5 ⟨0, 0⟩)).getD (.handled, s)).2

/-- The round trip of the first shell, from what can be computed of it. -/
theorem roundTrip_backAtFirst {s : Kernel} {ops : List Op}
    (h : s.curTerminal = .t1 ∧ s.switchTo 0xF6 = some .t2 ∧ s.started .t2 = true ∧
      (step .sample s (.key 0xF6 ⟨0, 0⟩)).map Prod.fst = some .handled ∧
      Along (step .sample) (Elsewhere s.findPid .t1) (atSecond s) ops ∧
      (run (step .sample) (atSecond s) ops).isSome = true ∧ (afterOthers ops s).switchTo 0xF5 = some .t1 ∧
      (step .sample (afterOthers ops s) (.key 0xF5 ⟨0, 0⟩)).map Prod.fst = some .handled) :
    RoundTrip .sample s (atSecond s) ops (afterOthers ops s) (backAtFirst ops s) := by
  obtain ⟨hcur, ht, hst, h1, ha, hr, ht', h2⟩ := h
  refine ⟨?_, ⟨0xF6, ⟨0, 0⟩, .t2, ht, hst, eq_some_of_fst _ h1⟩, ?_, run_getD hr, 0xF5, ⟨0, 0⟩, ?_, eq_some_of_fst _ h2⟩ <;>
    rw [hcur]
  · rfl
  · exact ha
  · exact ht'

/-- Both shells are started, and the first one has just opened `frame0.txt`. -/
def bothStarted : Kernel :=
  (run (step .sample) boot
    [.execute (some shell) ⟨0, 0⟩, .key 0xF6 ⟨0, 0⟩, .key 0xF5 ⟨0, 0⟩, .open (some frame0)]).getD boot

/-- `open` has copied the block, so nothing is lost while the second shell opens a file of its own. -/
theorem round_trip_restores_opened :
    RoundTrip .sample bothStarted (atSecond bothStarted) [.open (some frame1)]
      (afterOthers [.open (some frame1)] bothStarted) (backAtFirst [.open (some frame1)] bothStarted) ∧
    Along (step .sample) (SparesCopy bothStarted.findPid) (atSecond bothStarted) [.open (some frame1)] ∧
    SameFiles bothStarted.pcblock (backAtFirst [.open (some frame1)] bothStarted).pcblock := by
  have h : RoundTrip .sample bothStarted (atSecond bothStarted) [.open (some frame1)]
      (afterOthers [.open (some frame1)] bothStarted) (backAtFirst [.open (some frame1)] bothStarted) :=
    roundTrip_backAtFirst (by decide +kernel)
  have hspares : Along (step .sample) (SparesCopy bothStarted.findPid) (atSecond bothStarted) [.open (some frame1)] := by
    decide +kernel
  refine ⟨h, hspares, ((round_trip_restores_iff .sample _ _ _ _ _ h).2 hspares).2 ⟨?_, ?_, ?_, ?_⟩⟩
  all_goals decide +kernel

/-- The first shell has also read a byte. -/
def readByte : Kernel := ((step .sample bothStarted (.read 2 0x08050000 1)).getD (.handled, bothStarted)).2

/-- The copy does not know of the read, and after the switches the position is 0 again. -/
theorem round_trip_loses_position :
    (step .sample bothStarted (.read 2 0x08050000 1)).map Prod.fst = some (.ret 1) ∧
      RoundTrip .sample readByte (atSecond readByte) [] (afterOthers [] readByte) (backAtFirst [] readByte) ∧
      (readByte.pcblock.fileStruct 2).fpos = 1 ∧ ((backAtFirst [] readByte).pcblock.fileStruct 2).fpos = 0 ∧
      ¬ SameFiles readByte.pcblock (backAtFirst [] readByte).pcblock := by
  have hpos : (readByte.pcblock.fileStruct 2).fpos = 1 ∧ ((backAtFirst [] readByte).pcblock.fileStruct 2).fpos = 0 := by
    decide +kernel
  obtain ⟨h1, h0⟩ := hpos
  have h : RoundTrip .sample readByte (atSecond readByte) [] (afterOthers [] readByte) (backAtFirst [] readByte) :=
    roundTrip_backAtFirst (by decide +kernel)
  refine ⟨by decide +kernel, h, h1, h0, fun hs => ?_⟩
  rw [hs.files, h1] at h0
  cases h0

end Kernel

end Os391
