/-
Writes to the file system. The table of the file system holds `terminal_write` where `filesystem_write`
belongs, so a write to an open file goes to the screen unless `write` itself turns it away.
-/
import Os391.Base.Run
import Os391.Files.Frame

namespace Os391

open Bytes Machine Kernel

/-! ## Descriptors open on files -/

/-- The descriptors that `open` has returned for a directory or a regular file and that are still open, of
each process by its pid. -/
abbrev FileFds := Int → Fin 8 → Bool

namespace FileFds

def set (F : FileFds) (pid fd : Int) (b : Bool) : FileFds := fun p d => if p = pid ∧ fd = d.val then b else F p d

/-- A process that has ended has none. -/
def clear (F : FileFds) (pid : Int) : FileFds := fun p d => if p = pid then false else F p d

/-- A program that is entered starts with none. -/
def enter (F : FileFds) (r : Outcome × Kernel) : FileFds :=
  match r.1 with
  | .enter _ => F.clear r.2.findPid
  | _ => F

/-- What a step that ends in `r` makes of them. -/
def after (img : Image) (F : FileFds) (s : Kernel) (op : Op) (r : Outcome × Kernel) : FileFds :=
  match op with
  | .open (some name) =>
    match r.1 with
    | .ret fd => F.set s.findPid fd ((img.named name).any fun e => e.fileType ≠ 0)
    | _ => F
  | .close fd => if r.1 = .ret 0 then F.set s.findPid fd false else F
  | .halt .. => (F.clear s.findPid).enter r
  | _ => F.enter r

/-- The terminal's descriptors are none of them. -/
def PastOne (F : FileFds) : Prop := ∀ p d, F p d = true → 2 ≤ d.val

theorem PastOne.clear {F : FileFds} (h : F.PastOne) (pid : Int) : (F.clear pid).PastOne := by
  intro p d hd
  unfold FileFds.clear at hd
  split at hd
  · cases hd
  · exact h p d hd

theorem PastOne.set {F : FileFds} (h : F.PastOne) (pid : Int) {fd : Int} {b : Bool}
    (hb : b = true → 0 ≤ fd → 2 ≤ fd) : (F.set pid fd b).PastOne := by
  intro p d hd
  unfold FileFds.set at hd
  split at hd
  case isTrue hpd =>
    have h2 := hb hd (by omega)
    omega
  case isFalse => exact h p d hd

/-- `open` returns no descriptor below 2 for a name it finds. -/
theorem open_pastOne {img : Image} {name : CString} {s s' : Kernel} {fd : Int} {e : Dentry}
    (h : sysOpen img (some name) s = some (fd, s')) (he : img.named name = some e) (hfd : 0 ≤ fd) : 2 ≤ fd := by
  rcases sysOpen_cases img name s with ⟨d, hd, ho⟩ | ⟨-, -, ho⟩ | ⟨-, -, ho⟩
  · obtain ⟨rtc, dev, hopen⟩ := openAt_named d s he
    rw [ho, hopen] at h
    have hv := (Prod.mk.inj (Option.some.inj h)).1
    have hd2 := hd.1
    omega
  · rw [ho] at h
    have hv := (Prod.mk.inj (Option.some.inj h)).1
    omega
  · rw [ho] at h
    cases h

theorem PastOne.enter {F : FileFds} (h : F.PastOne) (r : Outcome × Kernel) : (F.enter r).PastOne := by
  unfold FileFds.enter
  split
  · exact h.clear _
  · exact h

theorem PastOne.after {img : Image} {F : FileFds} {s : Kernel} {op : Op} {r : Outcome × Kernel} (h : F.PastOne)
    (hs : step img s op = some r) : (F.after img s op r).PastOne := by
  cases op with
  | «open» filename =>
    cases filename with
    | none => exact h.enter r
    | some name =>
      obtain ⟨⟨fd, s'⟩, hopen, rfl⟩ := Option.map_eq_some_iff.1 hs
      refine h.set s.findPid fun hany hfd => ?_
      rcases he : img.named name with _ | e
      · rw [he] at hany
        cases hany
      · exact open_pastOne hopen he hfd
  | close fd =>
    unfold FileFds.after
    dsimp only
    split
    · exact h.set _ fun hf => by cases hf
    · exact h
  | halt => exact (h.clear _).enter r
  | execute | read | write | getargs | vidmap | setHandler | sigreturn | key => exact h.enter r

end FileFds

/-! ## A write to one -/

namespace Kernel

/-- What `write` turns away itself, or the driver of another table: no buffer, a negative length, a
descriptor whose flags have been lost, or a frequency that `rtc_write` does not take. -/
def TurnsAway (s : Kernel) (d : Fin 8) (buf nbytes : Int) : Prop :=
  buf = 0 ∨ nbytes < 0 ∨ (s.pcblock.fileStruct d).flags = 0 ∨
    (s.pcblock.fileStruct d).fopsPtr = some .rtcFops ∧
      (nbytes ≠ 4 ∨ Devices.po2Flag (word (s.userView buf) 0).toInt32.toInt 32 2 = false)

/-- A write returns -1 and leaves the screen, the cursor and all descriptors as they are. -/
def RefusesWrite (s : Kernel) (d : Fin 8) (buf nbytes : Int) : Prop :=
  ∃ s', sysWrite d.val buf nbytes s = some (.ret (-1), s') ∧ s'.con = s.con ∧ s'.pcblock = s.pcblock ∧
    s'.slots = s.slots ∧ s'.terminals = s.terminals

theorem rtcWrite_refused_iff (dev : Devices) (freq nbytes : Int) :
    (dev.rtcWrite freq nbytes).1 = -1 ↔ nbytes ≠ 4 ∨ Devices.po2Flag freq 32 2 = false := by
  unfold Devices.rtcWrite
  by_cases hn : nbytes = 4
  · rcases hp : Devices.po2Flag freq 32 2 with _ | _ <;> simp [hn]
  · simp [hn]

/-- `write_helper` never returns -1. -/
theorem terminalWrite_ne (d : Fin 8) (hd : 2 ≤ d.val) (text : Buf) (len : Nat) (s : Kernel) :
    (terminalWrite d text len s).1 ≠ .ret (-1) := by
  unfold terminalWrite
  rw [if_neg (by rintro rfl; simp at hd)]
  unfold Console.writeHelper
  dsimp only
  split
  case h_1 v hv =>
    split at hv
    · obtain rfl := Option.some.inj hv
      intro h
      exact absurd (Outcome.ret.inj h) (by decide)
    · cases hv
  case h_2 =>
    intro h
    cases h

theorem refusesWrite_iff (s : Kernel) {d : Fin 8} (hd : 2 ≤ d.val) (buf nbytes : Int) :
    RefusesWrite s d buf nbytes ↔ TurnsAway s d buf nbytes := by
  unfold RefusesWrite TurnsAway sysWrite
  by_cases hbuf : buf = 0
  · rw [if_pos hbuf]
    exact ⟨fun _ => Or.inl hbuf, fun _ => ⟨s, rfl, rfl, rfl, rfl, rfl⟩⟩
  rw [if_neg hbuf]
  by_cases hopen : (s.pcblock.fileStruct d).flags = 0 ∨ nbytes < 0
  · -- `write` does not get to the table
    have hcheck : checkFd d.val nbytes s = none := by
      unfold checkFd
      rw [dif_pos (by omega)]
      exact if_pos hopen
    have hw : writeFd d.val (s.userView buf) nbytes s = some (.ret (-1), s) := by
      unfold writeFd
      rw [hcheck]
    refine ⟨fun _ => ?_, fun _ => ⟨s, hw, rfl, rfl, rfl, rfl⟩⟩
    rcases hopen with h | h
    · exact Or.inr (Or.inr (Or.inl h))
    · exact Or.inr (Or.inl h)
  · have hflags : (s.pcblock.fileStruct d).flags ≠ 0 := fun h => hopen (Or.inl h)
    have hn : ¬ nbytes < 0 := fun h => hopen (Or.inr h)
    have hcheck : checkFd d.val nbytes s = some d := by
      unfold checkFd
      rw [dif_pos (by omega)]
      exact if_neg hopen
    unfold writeFd
    rw [hcheck]
    simp only [hbuf, hn, hflags, false_or]
    cases hf : (s.pcblock.fileStruct d).fopsPtr with
    | none => simp
    | some table =>
      cases table with
      | rtcFops =>
        -- only the clock changes
        rw [← rtcWrite_refused_iff s.dev]
        simp
      | terminalFops | filesystemFops =>
        have hne := terminalWrite_ne d hd (s.userView buf) nbytes.toNat s
        constructor
        · rintro ⟨s', hw, -⟩
          exact absurd (congrArg Prod.fst (Option.some.inj hw)) hne
        · rintro ⟨h, -⟩
          cases h

/-! ## Runs -/

/-- The kernel with what is open on files. -/
def fdStep (img : Image) (x : Kernel × FileFds) (op : Op) : Option (Outcome × Kernel × FileFds) :=
  (step img x.1 op).map fun r => (r.1, r.2, x.2.after img x.1 op r)

/-- A write to a directory or a regular file that is open returns -1 and leaves the screen, the cursor and
all descriptors as they are. -/
def WriteRefused (img : Image) (x : Kernel × FileFds) (op : Op) : Prop :=
  ∀ (d : Fin 8) buf nbytes, op = .write d.val buf nbytes → x.2 x.1.findPid d = true →
    ∃ s', step img x.1 op = some (.ret (-1), s') ∧ s'.con = x.1.con ∧ s'.pcblock = x.1.pcblock ∧
      s'.slots = x.1.slots ∧ s'.terminals = x.1.terminals

/-- Every write to such a descriptor is one that `write` turns away. -/
def WriteTurnedAway (x : Kernel × FileFds) (op : Op) : Prop :=
  ∀ (d : Fin 8) buf nbytes, op = .write d.val buf nbytes → x.2 x.1.findPid d = true → x.1.TurnsAway d buf nbytes

theorem writeRefused_iff (img : Image) {x : Kernel × FileFds} (hx : x.2.PastOne) (op : Op) :
    WriteRefused img x op ↔ WriteTurnedAway x op := by
  constructor
  · rintro h d buf nbytes rfl hd
    exact (refusesWrite_iff x.1 (hx _ d hd) buf nbytes).1 (h d buf nbytes rfl hd)
  · rintro h d buf nbytes rfl hd
    exact (refusesWrite_iff x.1 (hx _ d hd) buf nbytes).2 (h d buf nbytes rfl hd)

/-- From boot on, along every run, the writes to open directories and regular files are refused exactly
when all of them are ones that `write` turns away itself. -/
theorem writes_refused_iff (img : Image) (ops : List Op) :
    Along (fdStep img) (WriteRefused img) (boot, fun _ _ => false) ops ↔
      Along (fdStep img) WriteTurnedAway (boot, fun _ _ => false) ops := by
  refine along_iff (I := fun x => x.2.PastOne) (fun x op hx => writeRefused_iff img hx op) ?_ ?_
  · rintro x op r hx - hr
    obtain ⟨r', hs, rfl⟩ := Option.map_eq_some_iff.1 hr
    exact hx.after hs
  · rintro p d hd
    cases hd

/-- The first shell opens `frame0.txt`. -/
def openFrame0 : List Op := [.execute (some shell) ⟨0, 0⟩, .open (some frame0)]

/-- A character written to the file appears on the screen. -/
theorem write_reaches_screen :
    ∃ x r, run (fdStep .sample) (boot, fun _ _ => false) openFrame0 = some x ∧ x.2 x.1.findPid 2 = true ∧
      step .sample x.1 (.write 2 0x8048000 1) = some r ∧ r.1 = .indeterminate ∧
      r.2.con.screenX ≠ x.1.con.screenX ∧ ¬ WriteRefused .sample x (.write 2 0x8048000 1) := by
  let x := (run (fdStep .sample) (boot, fun _ _ => false) openFrame0).getD (boot, fun _ _ => false)
  have hrun : run (fdStep .sample) (boot, fun _ _ => false) openFrame0 = some x := run_getD (by decide +kernel)
  have hfd : x.2 x.1.findPid 2 = true := by decide +kernel
  have hstep : ((step .sample x.1 (.write 2 0x8048000 1)).map fun r => (r.1, decide (r.2.con.screenX = x.1.con.screenX))) =
      some (.indeterminate, false) := by decide +kernel
  obtain ⟨r, hr, hout⟩ := Option.map_eq_some_iff.1 hstep
  obtain ⟨hret, hx⟩ := Prod.mk.inj hout
  refine ⟨x, r, hrun, hfd, hr, hret, of_decide_eq_false hx, ?_⟩
  intro h
  obtain ⟨s', hs', -⟩ := h 2 0x8048000 1 rfl hfd
  have hr' := congrArg Prod.fst (Option.some.inj (hs'.symm.trans hr))
  rw [hret] at hr'
  cases hr'

end Kernel

end Os391
