/-
The saved screens. What a switch to a started terminal shows is what its save area and its entry in
`terminals` hold, and these hold what was displayed when the terminal was left last: the three areas lie
apart, and nothing else writes them but a program load that is too long.
-/
import Os391.Base.Run
import Os391.Process.Staging
import Os391.Terminal.Spec

namespace Os391

open Bytes Machine

/-- What is seen of a terminal: the bytes of the 80x25 screen, the cursor and the line buffer. -/
@[ext]
structure View where
  screen : Fin 4000 → UInt8
  x : Int
  y : Int
  line : Fin 128 → UInt8

namespace Kernel

variable {img : Image}

/-- What is displayed. -/
def view (s : Kernel) : View := ⟨fun i => s.con.video i.val, s.con.screenX, s.con.screenY, s.textBuf⟩

/-- What is saved for a terminal. -/
def savedView (s : Kernel) (t : TermNum) : View :=
  ⟨fun i => s.mem (termArea t + i.val), (s.terminals t).posX, (s.terminals t).posY, (s.terminals t).tLinebuffer⟩

/-! ## terminal_switch -/

/-- The state between the two halves of a `terminal_switch`. -/
def left (t : TermNum) (r : Regs) (s : Kernel) : Kernel := { leaveTerminal r s with curTerminal := t }

theorem left_started (t u : TermNum) (r : Regs) (s : Kernel) : (left t r s).started u = s.started u := by
  cases u <;> rfl

/-- `terminal_switch` to a terminal that is not displayed. -/
theorem terminalSwitch_other {t : TermNum} {s : Kernel} (r : Regs) (h : s.curTerminal ≠ t) :
    terminalSwitch img t r s =
      if s.started t then some (.handled, enterTerminal t (left t r s))
      else (execute img (some shell) r (activate t (left t r s))).map fun e =>
        match e.1 with
        | .enter eip => (.enter eip, e.2)
        | _ => (.handled, e.2) := by
  unfold terminalSwitch
  rw [if_neg h, ← left_started t t r s]
  rfl

/-- The bytes of an area lie in it. -/
theorem inArea (t : TermNum) (i : Fin 4000) : InArea t (termArea t + i.val) := by
  unfold InArea areaSize
  omega

/-- Two areas have no byte in common. -/
theorem not_inArea {t u : TermNum} (h : u ≠ t) (i : Fin 4000) : ¬ InArea t (termArea u + i.val) := by
  unfold InArea areaSize
  cases t <;> cases u <;> first | exact absurd rfl h | (simp only [termArea]; omega)

/-- Leaving a terminal saves what is displayed. -/
theorem left_savedView_self (t : TermNum) (r : Regs) (s : Kernel) : (left t r s).savedView s.curTerminal = s.view := by
  have hmem : ∀ i : Fin 4000, (left t r s).mem (termArea s.curTerminal + i.val) = s.con.video i.val := by
    intro i
    show s.mem.put (termArea s.curTerminal) areaSize (s.con.video.view 0) _ = _
    rw [Mem.put_inside (inArea s.curTerminal i), Mem.view]
    congr 1
    omega
  have hterm : ((left t r s).terminals s.curTerminal).posX = s.con.screenX ∧
      ((left t r s).terminals s.curTerminal).posY = s.con.screenY ∧
      ((left t r s).terminals s.curTerminal).tLinebuffer = s.textBuf := by
    show (Function.update s.terminals s.curTerminal _ s.curTerminal).posX = _ ∧
      (Function.update s.terminals s.curTerminal _ s.curTerminal).posY = _ ∧
      (Function.update s.terminals s.curTerminal _ s.curTerminal).tLinebuffer = _
    rw [Function.update_self]
    exact ⟨rfl, rfl, rfl⟩
  unfold savedView view
  simp only [hmem, hterm]

/-- What is saved for the other terminals stays. -/
theorem left_savedView {u : TermNum} (t : TermNum) (r : Regs) {s : Kernel} (h : u ≠ s.curTerminal) :
    (left t r s).savedView u = s.savedView u := by
  have hmem : ∀ i : Fin 4000, (left t r s).mem (termArea u + i.val) = s.mem (termArea u + i.val) := by
    intro i
    show s.mem.put (termArea s.curTerminal) areaSize (s.con.video.view 0) _ = _
    exact Mem.put_outside (not_inArea h i)
  have hterm : (left t r s).terminals u = s.terminals u := Function.update_of_ne h _ _
  unfold savedView
  simp only [hmem, hterm]

/-- A started terminal shows what is saved for it. -/
theorem enterTerminal_view (t : TermNum) (s : Kernel) : (enterTerminal t s).view = s.savedView t := by
  have hcon : (enterTerminal t s).con.video = s.con.video.put 0 areaSize (s.mem.view (termArea t)) := by
    simp only [enterTerminal, loadScreen, Console.setCursor]
  have hvideo : ∀ i : Fin 4000, (enterTerminal t s).con.video i.val = s.mem (termArea t + i.val) := by
    intro i
    rw [hcon, Mem.put_inside (by unfold areaSize; omega)]
    simp only [Mem.view, sub_zero, Int.toNat_natCast]
  have hrest : (enterTerminal t s).con.screenX = (s.terminals t).posX ∧
      (enterTerminal t s).con.screenY = (s.terminals t).posY ∧
      (enterTerminal t s).textBuf = (s.terminals t).tLinebuffer := by
    simp only [enterTerminal, loadScreen, Console.setCursor, and_self]
  unfold savedView view
  simp only [hvideo, hrest]

/-- What is saved depends on the terminals and on the bytes of the areas only. -/
theorem savedView_congr {s s' : Kernel} (hterm : s'.terminals = s.terminals)
    (hmem : ∀ t a, InArea t a → s'.mem a = s.mem a) (u : TermNum) : s'.savedView u = s.savedView u := by
  unfold savedView
  simp only [hterm, hmem u _ (inArea u _)]

theorem enterTerminal_savedView (t u : TermNum) (s : Kernel) : (enterTerminal t s).savedView u = s.savedView u :=
  savedView_congr (enterTerminal_terminals t s) (fun _ _ _ => by simp only [enterTerminal, loadScreen]) u

/-! ## Program loads -/

/-- Loading the program of a command writes no byte of the save areas. -/
def SparesAreas (img : Image) (command : CString) : Prop :=
  ∀ q ∈ words command, ∀ t a, InArea t a → ¬ LoadWrites img q.cmdView a

/-- An `execute` of such a command leaves what is saved alone. -/
theorem execute_savedView {command : CString} {r : Regs} {s s' : Kernel} {o : Outcome} (hc : SparesAreas img command)
    (h : execute img (some command) r s = some (o, s')) (u : TermNum) : s'.savedView u = s.savedView u := by
  have hterm := (execute_frame h).1.1
  refine savedView_congr hterm ?_ u
  intro t a ha
  have hload : ∀ n q inode, words command = some q → img.executable q.cmdView = some inode →
      staged img inode (claim command r n q s).mem a = s.mem a := by
    intro n q inode hq he
    by_contra hne
    refine hc q hq t a ha ⟨claim command r n q s, ?_⟩
    rw [loader_mem he]
    exact hne
  rcases execute_cases h with ⟨-, -, con, dev, rfl⟩ |
      ⟨n, q, -, hq, ⟨-, -, d, rfl⟩ | ⟨inode, d, fpos, he, ⟨-, rfl⟩ | ⟨eip, -, rfl⟩⟩⟩
  · rw [choosePid_eq]
  · rfl
  · exact hload n q inode hq he
  · exact hload n q inode hq he

/-! ## Runs -/

/-- What happens to the displayed terminal: a call of `terminal_switch`, any change of the screen, the cursor
and the line buffer, or any call or keystroke. -/
inductive ScreenOp
  | switch (t : TermNum) (r : Regs)
  | draw (con : Console) (textBuf : Fin 128 → UInt8)
  | op (op : Op)

/-- One of these. -/
def screenStep (img : Image) (s : Kernel) : ScreenOp → Option (Outcome × Kernel)
  | .switch t r => terminalSwitch img t r s
  | .draw con textBuf => some (.handled, { s with con := con, textBuf := textBuf })
  | .op op => step img s op

/-- The kernel with what each terminal showed when it was left last. -/
abbrev Shown := Kernel × (TermNum → Option View)

/-- A step that displays another terminal leaves the one displayed before. -/
def shownStep (img : Image) (x : Shown) (i : ScreenOp) : Option (Outcome × Shown) :=
  (screenStep img x.1 i).map fun r =>
    (r.1, r.2, if r.2.curTerminal = x.1.curTerminal then x.2 else Function.update x.2 x.1.curTerminal (some x.1.view))

/-- The terminal a call of `terminal_switch` asks for, made directly or by `keyboard_read`. -/
def asked (s : Kernel) : ScreenOp → Option TermNum
  | .switch t _ => some t
  | .op (.key k _) => if s.con.screenX ≥ numCols - 1 then none else switchKey k
  | _ => none

/-- The command a step executes. -/
def loads (s : Kernel) : ScreenOp → Option CString
  | .switch t _ => if s.curTerminal = t ∨ s.started t = true then none else some shell
  | .draw .. => none
  | .op op => (s.call op).map Prod.fst

/-- A switch to the displayed terminal changes nothing that is seen; one to another started terminal shows
what that one showed when it was left last. -/
def Restores (img : Image) (x : Shown) (i : ScreenOp) : Prop :=
  ∀ t ∈ asked x.1 i,
    (t = x.1.curTerminal → ∃ r, screenStep img x.1 i = some r ∧ r.2.view = x.1.view) ∧
    (t ≠ x.1.curTerminal → x.1.started t = true →
      ∃ v, x.2 t = some v ∧ ∃ r, screenStep img x.1 i = some r ∧ r.2.curTerminal = t ∧ r.2.view = v)

/-- What is saved for the started terminals that are not displayed is what they showed. -/
def Kept (x : Shown) : Prop :=
  ∀ t, t ≠ x.1.curTerminal → x.1.started t = true → x.2 t = some (x.1.savedView t)

/-- A step that displays no other terminal and writes no save area. -/
theorem Kept.frame {s s' : Kernel} {H : TermNum → Option View} (h : Kept (s, H)) (hct : s'.curTerminal = s.curTerminal)
    (hst : ∀ u, s'.started u = s.started u) (hsaved : ∀ u, s'.savedView u = s.savedView u) : Kept (s', H) := by
  intro t ht hs
  simp only at ht hs ⊢
  rw [hct] at ht
  rw [hst] at hs
  rw [hsaved]
  exact h t ht hs

/-- After a terminal was left for `t` what is saved for all terminals but `t` is what they showed. -/
theorem Kept.left {s s' : Kernel} {H : TermNum → Option View} {t : TermNum} {r : Regs} (h : Kept (s, H))
    (hct : s'.curTerminal = t) (hst : ∀ u, u ≠ t → s'.started u = true → s.started u = true)
    (hsaved : ∀ u, s'.savedView u = (left t r s).savedView u) :
    Kept (s', Function.update H s.curTerminal (some s.view)) := by
  intro u hu hs
  simp only at hu hs ⊢
  rw [hct] at hu
  rw [hsaved]
  by_cases hc : u = s.curTerminal
  · subst hc
    rw [Function.update_self, left_savedView_self]
  · rw [Function.update_of_ne hc, left_savedView t r hc]
    exact h u hc (hst u hu hs)

/-- A `terminal_switch`, with the terminal it leaves noted. -/
theorem switch_kept {s s' : Kernel} {H : TermNum → Option View} {t : TermNum} {r : Regs} {o : Outcome}
    (h : Kept (s, H)) (hload : s.curTerminal ≠ t → s.started t ≠ true → SparesAreas img shell)
    (hs : terminalSwitch img t r s = some (o, s')) :
    Kept (s', if s'.curTerminal = s.curTerminal then H else Function.update H s.curTerminal (some s.view)) := by
  by_cases hc : s.curTerminal = t
  · unfold terminalSwitch at hs
    rw [if_pos hc] at hs
    cases hs
    rw [if_pos rfl]
    exact h
  rw [terminalSwitch_other r hc] at hs
  have hleft : (left t r s).curTerminal = t := rfl
  by_cases hst : s.started t = true
  · rw [if_pos hst] at hs
    obtain ⟨-, rfl⟩ := Prod.mk.inj (Option.some.inj hs)
    have hct : (enterTerminal t (left t r s)).curTerminal = t := by rw [enterTerminal_curTerminal, hleft]
    rw [if_neg (by rw [hct]; exact Ne.symm hc)]
    refine h.left hct ?_ fun u => enterTerminal_savedView t u _
    intro u _ hu
    rwa [started_enterTerminal, left_started] at hu
  · rw [if_neg hst] at hs
    obtain ⟨⟨o', s1⟩, hex, heq⟩ := Option.map_eq_some_iff.1 hs
    have hs1 : s1 = s' := by
      cases o' <;> exact (Prod.mk.inj heq).2
    subst hs1
    obtain ⟨⟨-, hct, hf2, hf3, -⟩, -⟩ := execute_frame hex
    have hct' : s1.curTerminal = t := hct
    rw [if_neg (by rw [hct']; exact Ne.symm hc)]
    refine h.left (r := r) hct' ?_ ?_
    · intro u hu hsu
      rwa [started_congr hf2 hf3, started_activate_ne hu, left_started] at hsu
    · intro u
      rw [execute_savedView (hload hc hst) hex]
      rfl

/-- A call or keystroke that makes no `terminal_switch` to another terminal. -/
theorem op_kept {s s' : Kernel} {H : TermNum → Option View} {op : Op} {o : Outcome} (h : Kept (s, H))
    (hload : ∀ c ∈ (s.call op).map Prod.fst, SparesAreas img c) (hop : ∀ k r, op = .key k r → s.switchTo k = none)
    (hs : step img s op = some (o, s')) : s'.curTerminal = s.curTerminal ∧ Kept (s', H) := by
  rcases hcall : s.call op with _ | ⟨command, r, s0⟩
  · rcases step_noCall hcall hs with hf | rfl | ⟨t, -, rfl⟩ | ⟨con, textBuf, counter, entered, dev, rfl⟩ |
      ⟨k, r, t, rfl, ht, -, rfl⟩ | ⟨status, r, n, rfl, -, -, rfl⟩
    · obtain ⟨p, fdIndex, fdVal, fdRtc, slots, con, dev, user, entered, rfl, -⟩ := fileCall_eq hf hs
      exact ⟨rfl, h.frame rfl (fun _ => started_congr rfl rfl _) fun _ => rfl⟩
    · exact ⟨rfl, h⟩
    · exact ⟨rfl, h.frame rfl (fun _ => started_congr rfl rfl _) fun _ => rfl⟩
    · exact ⟨rfl, h.frame rfl (fun _ => started_congr rfl rfl _) fun _ => rfl⟩
    · rw [hop k r rfl] at ht
      cases ht
    · obtain ⟨-, hterm, hct, hf2, hf3, -⟩ := haltProgram_frame n s
      refine ⟨hct, h.frame hct (fun _ => started_congr hf2 hf3 _) (savedView_congr hterm ?_)⟩
      intro _ _ _
      obtain ⟨v, hv⟩ := haltProgram_eq n s
      rw [hv]
  · have hspare : SparesAreas img command := hload command (by rw [hcall]; rfl)
    obtain ⟨o', hex, -⟩ := step_call hcall hs
    obtain ⟨⟨-, hct, hf2, hf3, -⟩, -⟩ := execute_frame hex
    have hsaved := execute_savedView hspare hex
    rcases call_cases hcall with ⟨rfl, rfl⟩ | ⟨status, n, rfl, -, -, rfl, rfl⟩ | ⟨k, t, rfl, ht, -⟩
    · exact ⟨hct, h.frame hct (fun _ => started_congr hf2 hf3 _) hsaved⟩
    · exact ⟨hct, h.frame hct (fun _ => started_congr hf2 hf3 _) hsaved⟩
    · rw [hop k r rfl] at ht
      cases ht

theorem started_pressed (t u : TermNum) (s : Kernel) : (pressed t s).started u = s.started u :=
  started_congr rfl rfl u

theorem Kept.pressed {s : Kernel} {H : TermNum → Option View} (h : Kept (s, H)) (t : TermNum) :
    Kept (pressed t s, H) :=
  h.frame rfl (fun u => started_pressed t u s) fun _ => rfl

theorem screenStep_kept {x : Shown} {i : ScreenOp} {y : Outcome × Shown} (h : Kept x)
    (hload : ∀ c ∈ loads x.1 i, SparesAreas img c) (hy : shownStep img x i = some y) : Kept y.2 := by
  obtain ⟨s, H⟩ := x
  obtain ⟨⟨o, s'⟩, hs, rfl⟩ := Option.map_eq_some_iff.1 hy
  cases i with
  | switch t r =>
    refine switch_kept h ?_ hs
    intro hc hst
    exact hload shell (by simp only [loads]; rw [if_neg (by rintro (h | h) <;> contradiction)]; rfl)
  | draw con textBuf =>
    cases hs
    simp only [if_true]
    exact h.frame rfl (fun _ => started_congr rfl rfl _) fun _ => rfl
  | op op =>
    by_cases hop : ∀ k r, op = .key k r → s.switchTo k = none
    · obtain ⟨hct, hk⟩ := op_kept h hload hop hs
      simp only [hct, if_true]
      exact hk
    · push Not at hop
      obtain ⟨k, r, rfl, hne⟩ := hop
      obtain ⟨t, ht⟩ := Option.ne_none_iff_exists'.1 hne
      obtain ⟨hx, hkey, -⟩ := switchTo_some ht
      have hswitch : terminalSwitch img t r (pressed t s) = some (o, s') := by
        rw [← keyboardRead_switchKey r hx hkey]
        exact hs
      have hshell : (pressed t s).curTerminal ≠ t → (pressed t s).started t ≠ true → SparesAreas img shell := by
        intro _ hst
        rw [started_pressed] at hst
        refine hload shell ?_
        simp only [loads, call, ht, if_neg hst]
        rfl
      have hk := switch_kept (h.pressed t) hshell hswitch
      have hcur : (pressed t s).curTerminal = s.curTerminal := rfl
      have hview : (pressed t s).view = s.view := rfl
      rw [hcur, hview] at hk
      exact hk

/-- What a `terminal_switch` shows. -/
theorem switch_restores {s : Kernel} {H : TermNum → Option View} {t : TermNum} (r : Regs) (h : Kept (s, H)) :
    (t = s.curTerminal → ∃ y, terminalSwitch img t r s = some y ∧ y.2.view = s.view) ∧
    (t ≠ s.curTerminal → s.started t = true →
      ∃ v, H t = some v ∧ ∃ y, terminalSwitch img t r s = some y ∧ y.2.curTerminal = t ∧ y.2.view = v) := by
  constructor
  · intro hc
    refine ⟨_, if_pos hc.symm, rfl⟩
  · intro hc hst
    refine ⟨s.savedView t, h t hc hst, (.handled, enterTerminal t (left t r s)), ?_, ?_, ?_⟩
    · rw [terminalSwitch_other r (Ne.symm hc), if_pos hst]
    · rw [enterTerminal_curTerminal]
      rfl
    · rw [enterTerminal_view, left_savedView t r hc]

theorem restores_of_kept {x : Shown} {i : ScreenOp} (h : Kept x) : Restores img x i := by
  obtain ⟨s, H⟩ := x
  intro t ht
  cases i with
  | switch t' r =>
    obtain rfl : t' = t := Option.some.inj ht
    exact switch_restores r h
  | draw => cases ht
  | op op =>
    cases op with
    | key k r =>
      simp only [asked] at ht
      split at ht
      · cases ht
      · rename_i hx
        have hstep : screenStep img s (.op (.key k r)) = terminalSwitch img t r (pressed t s) :=
          keyboardRead_switchKey r hx ht
        rw [hstep]
        rw [← started_pressed t t s]
        exact switch_restores r (h.pressed t)
    | _ => cases ht

/-- From any state in which only terminal 1 is started and displayed: however terminals are switched, and
whatever is drawn and run in between, as long as no load writes a save area every switch to a started terminal
shows what it showed when it was left last, and a switch to the displayed one changes nothing. -/
theorem screens_restored (img : Image) (s : Kernel) (hc : s.curTerminal = .t1) (h2 : s.term2Flag = false)
    (h3 : s.term3Flag = false) (ops : List ScreenOp)
    (hload : Along (shownStep img) (fun x i => ∀ c ∈ loads x.1 i, SparesAreas img c) (s, fun _ => none) ops) :
    Along (shownStep img) (Restores img) (s, fun _ => none) ops := by
  have hinit : Kept (s, fun _ => none) := by
    intro t ht hst
    cases t with
    | t1 => exact absurd hc.symm ht
    | t2 => exact absurd hst (by simp [started, h2])
    | t3 => exact absurd hst (by simp [started, h3])
  exact along_mono (I := Kept) (fun _ _ h _ => restores_of_kept h) (fun _ _ _ h hq hy => screenStep_kept h hq hy) hinit hload

/-- `shell` is short enough for a load to spare the save areas. -/
theorem sparesAreas_shell : SparesAreas .sample shell := by
  have hw : (words shell).map (fun q => Image.sample.executable q.cmdView) = some (some 1) := by decide +kernel
  intro q hq
  rw [Option.mem_def.1 hq] at hw
  have he : Image.sample.executable q.cmdView = some 1 := Option.some.inj hw
  exact fun _ _ ha => short_spares_areas he (by decide +kernel) ha

/-- A drawing, with the cursor at `(x, 3)` and the line buffer full of one character. -/
def drawing (x : Int) (c : UInt8) : ScreenOp := .draw ⟨fun _ => c, x, 3⟩ fun _ => c

/-- From boot: something is drawn, terminal 2 is started, something else is drawn there, and terminal 1 is
displayed again, twice. -/
theorem screens_restored_drawn :
    Along (shownStep .sample) (Restores .sample) (boot, fun _ => none)
      [drawing 5 65, .switch .t2 ⟨1, 2⟩, drawing 6 66, .switch .t1 ⟨3, 4⟩, .switch .t1 ⟨5, 6⟩] := by
  refine screens_restored .sample boot rfl rfl rfl _ ?_
  -- the only command executed here is the shell of terminal 2
  have hshell : ∀ i ∈ [drawing 5 65, .switch .t2 ⟨1, 2⟩, drawing 6 66, .switch .t1 ⟨3, 4⟩, .switch .t1 ⟨5, 6⟩],
      ∀ s : Kernel, ∀ c ∈ loads s i, c = shell := by
    simp only [List.mem_cons, List.not_mem_nil, or_false]
    rintro i (rfl | rfl | rfl | rfl | rfl) s c hc
    all_goals
      simp only [drawing, loads, Option.mem_def] at hc
      first | cases hc | (split at hc <;> cases hc; rfl)
  refine along_mono (I := fun _ => True) ?_ (fun _ _ _ _ _ _ => trivial) trivial (along_of_mem _ hshell)
  intro x i _ hi c hc
  rw [hi x.1 c hc]
  exact sparesAreas_shell

end Kernel

end Os391
