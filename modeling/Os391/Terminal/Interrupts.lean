/-
The interrupt handlers and the ends of interrupt they send. `read_keyboard` sends one to the master when it is
done, but some branches of `keyboard_read` and `terminal_switch` have sent one already; `rtc_interrupt` sends
one to the slave, which `send_eoi` passes on to the master, and one more to the master.
-/
import Os391.Lib.Keyboard
import Os391.Process.Loading
import Os391.Terminal.Cursor

namespace Os391

open Bytes Machine

/-! ## The handlers -/

/-- The kernel and the flags of the keyboard driver. -/
structure System where
  flags : Keyboard.Flags
  kernel : Kernel

namespace System

variable (img : Image)

/-- `read_keyboard`. It does not come back when a shell is entered. -/
def readKeyboard (scancode : UInt8) (c : Keyboard.Open) (r : Regs) (x : System) : Option (Outcome × System) :=
  let d := Keyboard.decode x.flags scancode c
  (x.kernel.keyboardRead img d.2 r).map fun e =>
    match e.1 with
    | .enter eip => (.enter eip, ⟨d.1, e.2⟩)
    | _ => (.handled, ⟨d.1, { e.2 with dev := e.2.dev.sendEoi 1 }⟩)

/-- `rtc_interrupt`. What it reads from register C is thrown away. -/
def rtcInterrupt (x : System) : System :=
  { x with kernel := { x.kernel with
      dev := (({ x.kernel.dev with intrFlag := x.kernel.dev.intrFlag + 1 } : Devices).sendEoi 8).sendEoi 2 } }

/-- What happens to the system: a call of the running process, or an interrupt. -/
inductive Event
  | call (op : Kernel.Op) (h : ∀ k r, op ≠ .key k r)
  | keyboard (scancode : UInt8) (c : Keyboard.Open) (r : Regs)
  | rtc

def step (x : System) : Event → Option (Outcome × System)
  | .call op _ => (x.kernel.step img op).map fun e => (e.1, ⟨x.flags, e.2⟩)
  | .keyboard scancode c r => readKeyboard img scancode c r x
  | .rtc => some (.handled, rtcInterrupt x)

/-- The system at boot. -/
def boot : System := ⟨.boot, .boot⟩

end System

/-! ## Ends of interrupt -/

/-- The ends of interrupt sent to the slave and to the master. -/
def Devices.eois (d : Devices) : Nat × Nat := (d.slaveEoi, d.masterEoi)

namespace System

/-- The ends of interrupt an event is to send: one to the master for the keyboard, one to each chip for the clock,
which is on the slave. -/
def due : Event → Nat × Nat
  | .call _ _ => (0, 0)
  | .keyboard _ _ _ => (0, 1)
  | .rtc => (1, 1)

/-- An event sends what is due. -/
def SendsDue (img : Image) (x : System) (e : Event) : Prop :=
  ∀ r, step img x e = some r → r.2.kernel.dev.eois = x.kernel.dev.eois + due e

end System

namespace Kernel

variable {img : Image}

/-- The shell is a program, and its entry point as staged does not read as the error value. -/
def ShellLoads (img : Image) (s : Kernel) : Prop :=
  ∃ q inode, words shell = some q ∧ img.executable q.cmdView = some inode ∧
    word ((staged img inode s.mem).view newLoad) 24 ≠ 0xFFFFFFFF

/-- `keyboard_read` sends nothing of its own, or enters a shell: the value is not Ctrl+C, no backspace that deletes
nothing, and a key that switches finds a terminal not started and a shell that loads. -/
def Quiet (img : Image) (s : Kernel) (keystroke : UInt8) : Prop :=
  keystroke ≠ 0xF8 ∧
    ¬ (keystroke = 8 ∧ s.con.screenX < numCols - 1 ∧ (atPrompt s.con = true ∨ s.counter = 0)) ∧
    ∀ t, s.switchTo keystroke = some t → s.started t ≠ true ∧ ShellLoads img s

@[simp] theorem eois_sendEoi (d : Devices) (irq : UInt32) :
    (d.sendEoi irq).eois = d.eois + (if irq &&& 8 ≠ 0 then 1 else 0, 1) := by
  unfold Devices.sendEoi Devices.eois
  split <;> rfl

/-- One to the master alone. -/
theorem eois_sendEoi_one (d : Devices) : (d.sendEoi 1).eois = d.eois + (0, 1) := eois_sendEoi d 1

theorem leftFor_dev (t : TermNum) (r : Regs) (s : Kernel) : (leftFor t r s).dev = s.dev := rfl

theorem enterTerminal_dev (t : TermNum) (s : Kernel) : (enterTerminal t s).dev = s.dev.sendEoi 1 := rfl

theorem activate_dev (t : TermNum) (s : Kernel) : (activate t s).dev = s.dev.sendEoi 1 := rfl

@[simp] theorem eois_rtcInit (d : Devices) : d.rtcInit.eois = d.eois := rfl

@[simp] theorem eois_rtcWrite (d : Devices) (freq nbytes : Int) : (d.rtcWrite freq nbytes).2.eois = d.eois := by
  unfold Devices.rtcWrite
  split
  · rfl
  · split <;> rfl

/-! ## Calls -/

theorem writeFd_eois {fd nbytes : Int} {text : Buf} {s s' : Kernel} {o : Outcome}
    (h : writeFd fd text nbytes s = some (o, s')) : s'.dev.eois = s.dev.eois := by
  unfold writeFd at h
  split at h
  · cases h; rfl
  split at h
  · cases h
  · cases h
    exact eois_rtcWrite _ _ _
  all_goals
    unfold terminalWrite at h
    split at h <;> cases h <;> rfl

theorem sysRead_eois {fd buf nbytes : Int} {s s' : Kernel} {o : Outcome}
    (h : sysRead img fd buf nbytes s = some (o, s')) : s'.dev.eois = s.dev.eois := by
  unfold sysRead at h
  split at h
  · cases h; rfl
  split at h
  · cases h; rfl
  split at h
  · cases h
  · cases h; rfl
  · unfold terminalRead at h
    split at h
    · cases h; rfl
    split at h
    · simp only at h
      split at h <;> cases h <;> rfl
    · cases h
  · unfold filesystemRead at h
    simp only at h
    split at h
    · obtain ⟨r, -, hr⟩ := Option.map_eq_some_iff.1 h
      cases hr; rfl
    · cases h
      unfold storeFpos
      split <;> rfl

theorem openAt_eois (name : CString) (fd : Fin 8) (s : Kernel) : (openAt img name fd s).2.dev.eois = s.dev.eois := by
  unfold openAt filesystemOpen
  simp only
  split_ifs <;> rfl

theorem execute_eois {command : CString} {r : Regs} {s s' : Kernel} {o : Outcome}
    (h : execute img (some command) r s = some (o, s')) : s'.dev.eois = s.dev.eois := by
  have hchosen : (choosePid command s).dev = s.dev := by rw [choosePid_eq]
  rcases hc : s.claimed command with _ | n
  · rw [execute_unclaimed hc] at h
    obtain ⟨⟨o', w⟩, hw, he⟩ := Option.map_eq_some_iff.1 h
    cases he
    rw [writeFd_eois hw, hchosen]
  · rcases execute_cases h with ⟨hn, -⟩ | ⟨n', q, -, -, ⟨-, -, d, rfl⟩ | ⟨inode, d, fpos, -, ⟨-, rfl⟩ | ⟨eip, -, rfl⟩⟩⟩
    · rw [hc] at hn
      cases hn
    all_goals rfl

/-- A call sends no end of interrupt. -/
theorem call_eois {op : Op} {s s' : Kernel} {o : Outcome} (hop : ∀ k r, op ≠ .key k r)
    (h : step img s op = some (o, s')) : s'.dev.eois = s.dev.eois := by
  rcases hc : s.call op with _ | ⟨command, r, s0⟩
  · cases op with
    | key k r => exact absurd rfl (hop k r)
    | execute command r =>
      cases command with
      | none => cases h; rfl
      | some command => cases hc
    | halt status r =>
      obtain ⟨n, -, -, rfl⟩ := halt_noCall hc h
      obtain ⟨v, hv⟩ := haltProgram_eq n s
      rw [hv]
    | read fd buf nbytes => exact sysRead_eois h
    | write fd buf nbytes =>
      unfold step sysWrite at h
      simp only at h
      split at h
      · cases h; rfl
      · exact writeFd_eois h
    | «open» filename =>
      obtain ⟨⟨v, s1⟩, h1, h2⟩ := Option.map_eq_some_iff.1 h
      cases h2
      cases filename with
      | none => cases h1; rfl
      | some name =>
        rcases sysOpen_cases img name s with ⟨fd, -, ho⟩ | ⟨-, -, ho⟩ | ⟨-, -, ho⟩ <;> rw [ho] at h1
        · rw [← @openAt_eois img name fd s, Option.some.inj h1]
        · cases h1; rfl
        · cases h1
    | close fd =>
      cases h
      rcases sysClose_cases fd s with ⟨k, -, -, -, v, hcl⟩ | ⟨-, hcl⟩ <;> rw [hcl]
    | getargs buf nbytes =>
      obtain ⟨⟨v, s1⟩, h1, h2⟩ := Option.map_eq_some_iff.1 h
      cases h2
      obtain ⟨user, rfl⟩ := getargs_eq h1
      rfl
    | vidmap screenStart =>
      cases h
      obtain ⟨user, hv⟩ := vidmap_eq screenStart s
      rw [hv]
    | setHandler | sigreturn => cases h; rfl
  · obtain ⟨o', hex, -⟩ := step_call hc h
    rw [execute_eois hex]
    rcases call_cases hc with ⟨-, rfl⟩ | ⟨-, n, -, -, -, -, rfl⟩ | ⟨k, t, rfl, -⟩
    · rfl
    · rfl
    · exact absurd rfl (hop k r)

/-! ## Keystrokes -/

/-- What a keystroke that stays sends before `read_keyboard` sends its own. -/
theorem stroke_eois {k : UInt8} {s s' : Kernel} (h : Stroke s k s') :
    s'.dev.eois = s.dev.eois ↔
      k ≠ 0xF8 ∧ ¬ (k = 8 ∧ s.con.screenX < numCols - 1 ∧ (atPrompt s.con = true ∨ s.counter = 0)) := by
  have hmore : ∀ irq, (s.dev.sendEoi irq).eois ≠ s.dev.eois := by
    intro irq he
    rw [eois_sendEoi] at he
    have := congrArg Prod.snd he
    simp at this
  cases h with
  | ctrlC => exact ⟨fun he => absurd he (hmore _), fun h => absurd rfl h.1⟩
  | atStart hx hp =>
    exact ⟨fun he => absurd he (hmore _), fun h => absurd ⟨rfl, by omega, hp⟩ h.2⟩
  | tab | ctrlL | enter => exact ⟨fun _ => ⟨by decide, fun h => absurd h.1 (by decide)⟩, fun _ => rfl⟩
  | delete hx hp h0 =>
    refine ⟨fun _ => ⟨by decide, ?_⟩, fun _ => rfl⟩
    rintro ⟨-, -, h | h⟩
    · exact hp h
    · exact h0 h
  | lineBreak hk h10 hx =>
    refine ⟨fun _ => ⟨fun h => hk (Or.inr (Or.inl h)), ?_⟩, fun _ => rfl⟩
    rintro ⟨-, h, -⟩
    omega
  | type hk h10 h8 hx hc | press hk h10 h8 hx hc ht | ignored hk h10 h8 hx hc =>
    exact ⟨fun _ => ⟨fun h => hk (Or.inr (Or.inl h)), fun h => h8 h.1⟩, fun _ => rfl⟩

/-! ## First switches -/

/-- The word of the entry point, from memory and the file. -/
theorem staged_entry_congr (inode : UInt32) {m m' : Mem} (h : ∀ k : Nat, k < 28 → m (newLoad + k) = m' (newLoad + k)) :
    word ((staged img inode m).view newLoad) 24 = word ((staged img inode m').view newLoad) 24 := by
  have hbyte : ∀ k, k < 28 → (staged img inode m).view newLoad k = (staged img inode m').view newLoad k := by
    intro k hk
    rw [staged_view, staged_view]
    by_cases hlen : k < (img.dataLength inode).toNat
    · exact Image.readData_congr _ _ hlen
    · rw [Image.readData_outside (Nat.not_lt.1 hlen), Image.readData_outside (Nat.not_lt.1 hlen)]
      exact h k hk
  exact word_congr fun k _ => hbyte (24 + k) (by omega)

/-- The save areas lie outside the first bytes at `NEW_LOAD`. -/
theorem leftFor_staging (t : TermNum) (r : Regs) (s : Kernel) {k : Nat} (hk : k < 28) :
    (activate t (leftFor t r s)).mem (newLoad + k) = s.mem (newLoad + k) := by
  have hout : ¬ (termArea s.curTerminal ≤ newLoad + k ∧ newLoad + k < termArea s.curTerminal + areaSize) := by
    cases s.curTerminal <;> simp only [termArea, newLoad, areaSize] <;> omega
  exact Mem.put_outside hout

/-- A shell with an entry to claim is entered exactly when it loads. -/
theorem execute_enters {r : Regs} {s : Kernel} (hc : s.claimed shell ≠ none) :
    ∃ o s', execute img (some shell) r s = some (o, s') ∧ ((∃ eip, o = .enter eip) ↔ ShellLoads img s) := by
  obtain ⟨n, hn⟩ := Option.ne_none_iff_exists'.1 hc
  obtain ⟨q, hq⟩ := Option.isSome_iff_exists.1 (by decide +kernel : (words shell).isSome = true)
  have hloads : ShellLoads img s ↔ ∃ inode, img.executable q.cmdView = some inode ∧
      word ((staged img inode s.mem).view newLoad) 24 ≠ 0xFFFFFFFF := by
    constructor
    · rintro ⟨q', inode, hq', h⟩
      rw [hq] at hq'
      cases hq'
      exact ⟨inode, h⟩
    · rintro ⟨inode, h⟩
      exact ⟨q, inode, hq, h⟩
  rw [hloads, execute_claimed hn, hq, Option.map_some]
  simp only
  rcases he : img.executable q.cmdView with _ | inode
  · obtain ⟨d, hd⟩ := loader_refused (claim shell r n q s) he
    rw [hd]
    refine ⟨_, _, rfl, ?_⟩
    constructor
    · rintro ⟨eip, h⟩
      cases h
    · rintro ⟨inode, h, -⟩
      cases h
  · obtain ⟨hret, -⟩ := loader_outcome (claim shell r n q s) he
    have hmem : (claim shell r n q s).mem = s.mem := rfl
    rw [hret, hmem]
    by_cases hword : word ((staged img inode s.mem).view newLoad) 24 = 0xFFFFFFFF
    · rw [if_pos hword]
      refine ⟨_, _, rfl, ?_⟩
      constructor
      · rintro ⟨eip, h⟩
        cases h
      · rintro ⟨inode', h, hne⟩
        cases h
        exact absurd hword hne
    · rw [if_neg hword]
      exact ⟨_, _, rfl, fun _ => ⟨inode, rfl, hword⟩, fun _ => ⟨_, rfl⟩⟩

theorem shellLoads_first (t : TermNum) (r : Regs) (s : Kernel) :
    ShellLoads img (activate t (leftFor t r s)) ↔ ShellLoads img s := by
  have hword : ∀ inode, word ((staged img inode (activate t (leftFor t r s)).mem).view newLoad) 24 =
      word ((staged img inode s.mem).view newLoad) 24 :=
    fun inode => staged_entry_congr inode fun k hk => leftFor_staging t r s hk
  unfold ShellLoads
  simp only [hword]

/-! ## keyboard_read -/

/-- What a keystroke has sent when `keyboard_read` comes back, and when it enters a shell instead. -/
def SentByKey (img : Image) (s : Kernel) (k : UInt8) (o : Outcome) (s' : Kernel) : Prop :=
  ((∃ eip, o = .enter eip) ∧ Quiet img s k ∧ s'.dev.eois = s.dev.eois + (0, 1)) ∨
    ((∀ eip, o ≠ .enter eip) ∧ (s'.dev.eois = s.dev.eois ↔ Quiet img s k))

theorem quiet_switch {s : Kernel} {k : UInt8} {t : TermNum} (ht : s.switchTo k = some t) :
    Quiet img s k ↔ s.started t ≠ true ∧ ShellLoads img s := by
  have hkeys : k ≠ 0xF8 ∧ k ≠ 8 := by
    rcases switchKey_eq (switchTo_some ht).2.1 with rfl | rfl | rfl <;> decide
  constructor
  · exact fun h => h.2.2 t ht
  · refine fun h => ⟨hkeys.1, fun h8 => hkeys.2 h8.1, fun t' ht' => ?_⟩
    rw [ht] at ht'
    cases ht'
    exact h

theorem eois_ne_add (p : Nat × Nat) : p + (0, 1) ≠ p := by
  intro h
  have := congrArg Prod.snd h
  simp at this

theorem keyboardRead_sent (k : UInt8) (r : Regs) (s : Kernel) :
    ∃ o s', keyboardRead img k r s = some (o, s') ∧ SentByKey img s k o s' := by
  rcases ht : s.switchTo k with _ | t
  · obtain ⟨s', hs, hstroke⟩ := @keyboardRead_stroke img k r s ht
    have hquiet : Quiet img s k ↔ k ≠ 0xF8 ∧
        ¬ (k = 8 ∧ s.con.screenX < numCols - 1 ∧ (atPrompt s.con = true ∨ s.counter = 0)) := by
      unfold Quiet
      simp [ht]
    refine ⟨_, s', hs, Or.inr ⟨fun eip h => (by cases h), ?_⟩⟩
    rw [hquiet]
    exact stroke_eois hstroke
  by_cases hst : s.started t = true
  · have hread : keyboardRead img k r s = some (.handled, enterTerminal t (leftFor t r s)) := key_started ht hst
    refine ⟨_, _, hread, Or.inr ⟨fun eip h => (by cases h), ?_⟩⟩
    have hsent : (enterTerminal t (leftFor t r s)).dev.eois = s.dev.eois + (0, 1) := by
      rw [enterTerminal_dev, leftFor_dev, eois_sendEoi_one]
    rw [quiet_switch ht, hsent]
    exact ⟨fun h => absurd h (eois_ne_add _), fun h => absurd hst h.1⟩
  · obtain ⟨o, s', hex, henter⟩ := @execute_enters img r _ (claimed_first r hst)
    have hsent : s'.dev.eois = s.dev.eois + (0, 1) := by
      rw [execute_eois hex, activate_dev, leftFor_dev, eois_sendEoi_one]
    have hquiet : Quiet img s k ↔ ∃ eip, o = .enter eip := by
      rw [quiet_switch ht, henter, shellLoads_first]
      exact and_iff_right hst
    have hread := @keyboardRead_switch img k r s t ht
    rw [started_leftFor, if_neg hst, hex, Option.map_some] at hread
    by_cases hentered : ∃ eip, o = .enter eip
    · obtain ⟨eip, rfl⟩ := hentered
      exact ⟨_, s', hread, Or.inl ⟨⟨eip, rfl⟩, hquiet.2 ⟨eip, rfl⟩, hsent⟩⟩
    · have hdone : keyboardRead img k r s = some (.handled, s') := by
        rw [hread]
        cases o <;> first | rfl | exact absurd ⟨_, rfl⟩ hentered
      refine ⟨_, s', hdone, Or.inr ⟨fun eip h => (by cases h), ?_⟩⟩
      rw [hquiet, hsent]
      exact ⟨fun h => absurd h (eois_ne_add _), fun h => absurd h hentered⟩

end Kernel

namespace System

variable {img : Image}

/-! ## Events -/

/-- A keyboard interrupt sends one end of interrupt exactly when `keyboard_read` is quiet. -/
theorem keyboard_sendsDue (x : System) (scancode : UInt8) (c : Keyboard.Open) (r : Regs) :
    SendsDue img x (.keyboard scancode c r) ↔ x.kernel.Quiet img (Keyboard.decode x.flags scancode c).2 := by
  obtain ⟨o, s', hread, hsent⟩ := @Kernel.keyboardRead_sent img (Keyboard.decode x.flags scancode c).2 r x.kernel
  rcases hsent with ⟨⟨eip, rfl⟩, hquiet, heois⟩ | ⟨hback, hiff⟩
  · refine ⟨fun _ => hquiet, fun _ y hy => ?_⟩
    simp only [step, readKeyboard, hread, Option.map_some] at hy
    cases hy
    exact heois
  · have hstep : step img x (.keyboard scancode c r) = some (.handled,
        ⟨(Keyboard.decode x.flags scancode c).1, { s' with dev := s'.dev.sendEoi 1 }⟩) := by
      simp only [step, readKeyboard, hread, Option.map_some]
    have hlast : (s'.dev.sendEoi 1).eois = s'.dev.eois + (0, 1) := Kernel.eois_sendEoi_one _
    rw [← hiff]
    constructor
    · intro h
      exact add_right_cancel (hlast.symm.trans (h _ hstep))
    · intro h y hy
      rw [hstep] at hy
      cases hy
      exact hlast.trans (congrArg (· + (0, 1)) h)

/-- A clock interrupt sends one end of interrupt too many. -/
theorem rtc_sends (x : System) : (rtcInterrupt x).kernel.dev.eois = x.kernel.dev.eois + (1, 2) := by
  show ((_ : Devices).sendEoi 2).eois = _
  rw [Kernel.eois_sendEoi, Kernel.eois_sendEoi]
  rfl

/-- The events that send what is due: the calls, and the keyboard interrupts with a quiet `keyboard_read`. -/
def QuietEvent (img : Image) (x : System) : Event → Prop
  | .call _ _ => True
  | .keyboard scancode c _ => x.kernel.Quiet img (Keyboard.decode x.flags scancode c).2
  | .rtc => False

theorem sendsDue_iff (x : System) (e : Event) : SendsDue img x e ↔ QuietEvent img x e := by
  cases e with
  | call op h =>
    refine ⟨fun _ => trivial, fun _ y hy => ?_⟩
    obtain ⟨e, he, heq⟩ := Option.map_eq_some_iff.1 hy
    cases heq
    exact Kernel.call_eois h he
  | keyboard scancode c r => exact keyboard_sendsDue x scancode c r
  | rtc =>
    refine ⟨fun h => ?_, fun h => h.elim⟩
    have := congrArg Prod.snd ((rtc_sends x).symm.trans (h _ rfl))
    simp [due] at this

/-! ## Runs -/

/-- What a list of events is to send. -/
def totalDue (events : List Event) : Nat × Nat := (events.map due).sum

/-- Events that send what is due send, together, what is due for all of them. -/
theorem eois_total : ∀ {events : List Event} {x y : System}, Along (step img) (SendsDue img) x events →
    run (step img) x events = some y → y.kernel.dev.eois = x.kernel.dev.eois + totalDue events
  | [], x, y, _, hy => by
    cases hy
    rfl
  | e :: events, x, y, ⟨hdue, hrest⟩, hy => by
    obtain ⟨r, hr, hy⟩ := run_cons_some hy
    rw [eois_total (hrest r hr) hy, hdue r hr, add_assoc]
    rfl

/-- In a run, each event sends what is due exactly when the run has no clock interrupt and each keyboard interrupt
a quiet `keyboard_read`; and then the ends of interrupt sent match the interrupts. -/
theorem eois_run (img : Image) (x : System) (events : List Event) :
    (Along (step img) (SendsDue img) x events ↔ Along (step img) (QuietEvent img) x events) ∧
    (Along (step img) (QuietEvent img) x events →
      ∀ y, run (step img) x events = some y → y.kernel.dev.eois = x.kernel.dev.eois + totalDue events) := by
  have hiff : Along (step img) (SendsDue img) x events ↔ Along (step img) (QuietEvent img) x events :=
    along_iff (I := fun _ => True) (fun x e _ => sendsDue_iff x e) (fun _ _ _ _ _ _ => trivial) trivial
  exact ⟨hiff, fun ha y hy => eois_total (hiff.2 ha) hy⟩

/-- Ctrl pressed, then C: two ends of interrupt to the master for the second byte and one to the slave. A clock
interrupt sends two to the master. -/
theorem controlC_sends :
    let c : Keyboard.Open := ⟨fun _ => 0, 0⟩
    let events : List Event := [.keyboard 29 c ⟨0, 0⟩, .keyboard 46 c ⟨0, 0⟩]
    totalDue events = (0, 2) ∧
      ((run (step .sample) boot events).map fun y => y.kernel.dev.eois) = some (1, 3) ∧
      ((run (step .sample) boot [.rtc]).map fun y => y.kernel.dev.eois) = some (1, 2) ∧
      ¬ Along (step .sample) (SendsDue .sample) boot events ∧ ¬ SendsDue .sample boot .rtc := by
  intro c events
  have hrun : ((run (step .sample) boot events).map fun y => y.kernel.dev.eois) = some (1, 3) := by decide +kernel
  refine ⟨by decide, hrun, by decide +kernel, fun h => ?_, fun h => ?_⟩
  · obtain ⟨y, hy, heois⟩ := Option.map_eq_some_iff.1 hrun
    rw [eois_total h hy] at heois
    exact absurd heois (by decide)
  · exact (sendsDue_iff boot .rtc).1 h

end System

end Os391
