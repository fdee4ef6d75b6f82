/-
`cat` and `ls` on the kernel. What they read they write to the screen, piece by piece, and go by what `write` returns,
which is a local that nothing has set as long as the screen does not scroll.
-/
import Os391.Files.Listing
import Os391.Lib.Text
import Os391.Process.Getargs
import Os391.User.OnKernel

namespace Os391

open Bytes

namespace Kernel

/-! ## The programs -/

variable {img : Image}

/-- What a call returns, with a value for a local that was never assigned. -/
def returned (junk : Kernel → Int) : Option (Outcome × Kernel) → Option (Int × Kernel)
  | some (.ret v, s) => some (v, s)
  | some (.indeterminate, s) => some (junk s, s)
  | _ => none

/-- `ece391_fdputs` of a text to descriptor 1. -/
def fdputs (text : String) (s : Kernel) : Option Kernel :=
  (writeFd 1 (fun i => (ascii text.toList).getD i 0) text.length s).map Prod.snd

/-- The string in a buffer of so many bytes. -/
def stringAt (f : Buf) (n : Nat) : CString where
  bytes := ((List.range n).map f).takeWhile (· ≠ 0)
  noNul h := by simpa using List.mem_takeWhile_imp h

/-- The loop of `cat`, with so many reads; `none` when they are too few or a call does not come back. -/
def catLoop (img : Image) (junk : Kernel → Int) (fd buf : Int) : Nat → Kernel → Option (Int × Kernel)
  | 0, _ => none
  | k + 1, s =>
    (returned junk (sysRead img fd buf 1024 s)).bind fun r =>
      if r.1 = 0 then some (0, r.2)
      else if r.1 = -1 then (fdputs "file read failed\n" r.2).map (3, ·)
      else (returned junk (sysWrite 1 buf r.1 r.2)).bind fun w =>
        if w.1 = -1 then some (3, w.2) else catLoop img junk fd buf k w.2

/-- `main` of `cat`, with the address of its buffer. -/
def cat (img : Image) (junk : Kernel → Int) (buf : Int) (k : Nat) (s : Kernel) : Option (Int × Kernel) :=
  (getargs buf 1024 s).bind fun r =>
    if r.1 ≠ 0 then (fdputs "could not read arguments\n" r.2).map (3, ·)
    else (sysOpen img (some (stringAt (r.2.userView buf) 1024)) r.2).bind fun o =>
      if o.1 = -1 then (fdputs "file not found\n" o.2).map (2, ·) else catLoop img junk o.1 buf k o.2

/-- `SBUFSIZE`. -/
def sbufsize : Nat := 33

/-- The loop of `ls`. -/
def lsLoop (img : Image) (junk : Kernel → Int) (fd buf : Int) : Nat → Kernel → Option (Int × Kernel)
  | 0, _ => none
  | k + 1, s =>
    (returned junk (sysRead img fd buf (sbufsize - 1) s)).bind fun r =>
      if r.1 = 0 then some (0, r.2)
      else if r.1 = -1 then (fdputs "directory entry read failed\n" r.2).map (3, ·)
      else
        let s := r.2.userPut (buf + r.1) 1 fun _ => 10
        (returned junk (sysWrite 1 buf (r.1 + 1) s)).bind fun w =>
          if w.1 = -1 then some (3, w.2) else lsLoop img junk fd buf k w.2

theorem zero_notMem_dot : 0 ∉ ascii ['.'] := by decide

/-- The name of the directory. -/
def dot : CString := ⟨ascii ['.'], zero_notMem_dot⟩

/-- `main` of `ls`. -/
def ls (img : Image) (junk : Kernel → Int) (buf : Int) (k : Nat) (s : Kernel) : Option (Int × Kernel) :=
  (sysOpen img (some dot) s).bind fun o =>
    if o.1 = -1 then (fdputs "directory open failed\n" o.2).map (2, ·) else lsLoop img junk o.1 buf k o.2

/-! ## What the calls leave alone -/

/-- The other processes, the line that is typed, and the descriptors on the terminal. -/
structure KeptByCalls (s s' : Kernel) : Prop where
  cr3 : s'.cr3 = s.cr3
  tasks : s'.tasks = s.tasks
  pc : s'.pc = s.pc
  restarts : s'.term1Rst = s.term1Rst ∧ s'.term2Rst = s.term2Rst ∧ s'.term3Rst = s.term3Rst
  presses : s'.term2Press = s.term2Press ∧ s'.term3Press = s.term3Press
  counter : s'.counter = s.counter
  entered : s'.entered = s.entered
  slots : ∀ i, i ≠ s.findPid → s'.slots i = s.slots i
  kinds : ∀ d : Fin 8, d.val < 2 → (s'.pcblock.fileStruct d).flags = (s.pcblock.fileStruct d).flags ∧
    (s'.pcblock.fileStruct d).fopsPtr = (s.pcblock.fileStruct d).fopsPtr
  fdIndex : 2 ≤ s.fdIndex → 2 ≤ s'.fdIndex

theorem KeptByCalls.trans {s s' s'' : Kernel} (h : KeptByCalls s s') (h' : KeptByCalls s' s'') : KeptByCalls s s'' where
  cr3 := h'.cr3.trans h.cr3
  tasks := h'.tasks.trans h.tasks
  pc := h'.pc.trans h.pc
  restarts := ⟨h'.restarts.1.trans h.restarts.1, h'.restarts.2.1.trans h.restarts.2.1, h'.restarts.2.2.trans h.restarts.2.2⟩
  presses := ⟨h'.presses.1.trans h.presses.1, h'.presses.2.trans h.presses.2⟩
  counter := h'.counter.trans h.counter
  entered := h'.entered.trans h.entered
  slots i hi := by
    have hpid : s'.findPid = s.findPid := congrArg getPidFromCr3 h.cr3
    exact (h'.slots i (hpid ▸ hi)).trans (h.slots i hi)
  kinds d hd := ⟨(h'.kinds d hd).1.trans (h.kinds d hd).1, (h'.kinds d hd).2.trans (h.kinds d hd).2⟩
  fdIndex hle := h'.fdIndex (h.fdIndex hle)

/-- A state with another screen, other bytes of the program or other devices. -/
theorem keptByCalls_with (s : Kernel) (con : Console) (user : PageDir → Mem) (dev : Devices) :
    KeptByCalls s { s with con := con, user := user, dev := dev } :=
  ⟨rfl, rfl, rfl, ⟨rfl, rfl, rfl⟩, ⟨rfl, rfl⟩, rfl, rfl, fun _ _ => rfl, fun _ _ => ⟨rfl, rfl⟩, id⟩

/-- A read of a file waits for no line. -/
theorem sysRead_keptByCalls {d : Fin 8} {buf nbytes : Int} {s s' : Kernel} {o : Outcome}
    (hfops : (s.pcblock.fileStruct d).fopsPtr = some .filesystemFops) (h : sysRead img d.val buf nbytes s = some (o, s')) :
    KeptByCalls s s' := by
  have hentered : s'.entered = s.entered := by
    unfold sysRead at h
    split at h
    · cases h
      rfl
    · rename_i hbuf
      rcases hcheck : checkFd d.val nbytes s with _ | e
      · rw [hcheck] at h
        cases h
        rfl
      · obtain rfl : e = d := by
          unfold checkFd at hcheck
          split at hcheck
          · split at hcheck
            · cases hcheck
            · exact (Option.some.inj hcheck).symm.trans (Fin.ext (Int.toNat_natCast _))
          · cases hcheck
        rw [hcheck] at h
        simp only [hfops] at h
        unfold filesystemRead at h
        simp only at h
        split at h
        · obtain ⟨x, -, hx⟩ := Option.map_eq_some_iff.1 h
          cases hx
          rfl
        · cases h
          rcases (img.readData _ _ _ _).fpos with _ | _ <;> rfl
  obtain ⟨e, v, fdVal, user, entered, dev, rfl⟩ := sysRead_eq h
  exact ⟨rfl, rfl, rfl, ⟨rfl, rfl, rfl⟩, ⟨rfl, rfl⟩, rfl, hentered, fun _ _ => rfl,
    fun k _ => ⟨(sameKinds_setFpos s.pcblock e v k).1, (sameKinds_setFpos s.pcblock e v k).2.1⟩, id⟩

/-! ## Writing to the screen -/

/-- Descriptor 1 is on the terminal, which shows a window of some paper. -/
structure Prints (s : Kernel) (top : Nat) (p : Paper UInt8) : Prop where
  flags : (s.pcblock.fileStruct 1).flags ≠ 0
  fopsPtr : (s.pcblock.fileStruct 1).fopsPtr = some .terminalFops
  shows : Console.Shows s.con top p

/-- Printable characters and ends of lines. -/
def Text (text : List UInt8) : Prop := ∀ b ∈ text, b = 10 ∨ Console.Printable b

instance decidableText (text : List UInt8) : Decidable (Text text) :=
  inferInstanceAs (Decidable (∀ b ∈ text, b = 10 ∨ Console.Printable b))

/-- A text written is typed on the paper. -/
theorem writeFd_prints {s : Kernel} {top : Nat} {p : Paper UInt8} (h : Prints s top p) {text : Buf} {bytes : List UInt8}
    (hbytes : (List.range bytes.length).map text = bytes) (htext : Text bytes)
    (hfit : Paper.Fits 79 p.col (bytes.splitOn 10)) :
    ∃ o con, writeFd 1 text bytes.length s = some (o, { s with con := con }) ∧ (o = .indeterminate ∨ o = .ret 26) ∧
      Prints { s with con := con } (Paper.followText 10 24 top p bytes) (Paper.write 10 p bytes) := by
  have hchars : Console.chars text 0 bytes.length = bytes := by
    rw [Console.chars, ← List.range_eq_range', hbytes]
  have htyped : ∀ m < bytes.length, text (0 + m) = 10 ∨ Console.Printable (text (0 + m)) := fun m hm => by
    rw [Nat.zero_add]
    refine htext _ ?_
    rw [← hbytes]
    exact List.mem_map_of_mem (List.mem_range.2 hm)
  have hloop := Console.Shows.writeLoop bytes.length 0 false h.shows htyped (by rw [hchars]; exact hfit)
  rw [hchars] at hloop
  have hcheck : checkFd 1 bytes.length s = some 1 := checkFd_open (d := 1) h.flags
  have hwrite : writeFd 1 text bytes.length s = some (terminalWrite 1 text bytes.length s) := by
    unfold writeFd
    rw [hcheck]
    simp only [h.fopsPtr, Int.toNat_natCast]
  refine ⟨_, (s.con.writeHelper text bytes.length).2, hwrite.trans rfl, ?_, h.flags, h.fopsPtr, hloop⟩
  unfold Console.writeHelper
  dsimp only
  split_ifs
  · exact Or.inr rfl
  · exact Or.inl rfl

theorem Text.append {a b : List UInt8} (h : Text (a ++ b)) : Text a ∧ Text b :=
  ⟨fun c hc => h c (List.mem_append_left _ hc), fun c hc => h c (List.mem_append_right _ hc)⟩

theorem Prints.congr {s s' : Kernel} {top : Nat} {p : Paper UInt8} (h : Prints s top p) (hkept : KeptByRead s s') :
    Prints s' top p :=
  ⟨by rw [(hkept.kinds 1).1]; exact h.flags, by rw [(hkept.kinds 1).2.1]; exact h.fopsPtr,
    by rw [hkept.con]; exact h.shows⟩

/-- A `write` that is not taken for one that failed. -/
theorem returned_write {junk : Kernel → Int} (hjunk : ∀ s, junk s ≠ -1) {o : Outcome} (ho : o = .indeterminate ∨ o = .ret 26)
    (s : Kernel) : ∃ v, v ≠ -1 ∧ returned junk (some (o, s)) = some (v, s) := by
  rcases ho with rfl | rfl
  · exact ⟨junk s, hjunk s, rfl⟩
  · exact ⟨26, by decide, rfl⟩

/-- The loop of `cat` types what is left of the file. -/
theorem catLoop_prints (hw : img.WellFormed) {junk : Kernel → Int} (hjunk : ∀ s, junk s ≠ -1) {buf : Int} (hbuf : buf ≠ 0)
    {d : Fin 8} {inode : UInt32} : ∀ {k pos top : Nat} {p : Paper UInt8} {s : Kernel},
    OpenAt img s d inode pos → pos ≤ (img.dataLength inode).toNat → Prints s top p →
    Text ((img.file inode).drop pos) → Paper.Fits 79 p.col (((img.file inode).drop pos).splitOn 10) →
    ((img.file inode).drop pos).length < k →
      ∃ s', catLoop img junk d.val buf k s = some (0, s') ∧ KeptByCalls s s' ∧
        Prints s' (Paper.followText 10 24 top p ((img.file inode).drop pos)) (Paper.write 10 p ((img.file inode).drop pos))
  | 0, _, _, _, _, _, _, _, _, _, hk => absurd hk (Nat.not_lt_zero _)
  | k + 1, pos, top, p, s, hopen, hpos, hprints, htext, hfit, hk => by
    obtain ⟨s1, hread, hbytes, hopen1, hpos1, hdrop, -, hkept⟩ := sysRead_open hw hbuf (show 1024 ≤ 4096 by decide) hopen hpos
    have hsplit := List.take_append_drop 1024 ((img.file inode).drop pos)
    rw [← hdrop] at hsplit
    generalize hpiece : ((img.file inode).drop pos).take 1024 = piece at hread hbytes hopen1 hpos1 hdrop hsplit
    have hread' : returned junk (sysRead img d.val buf 1024 s) = some ((piece.length : Int), s1) := congrArg (returned junk) hread
    have hleft := sysRead_keptByCalls hopen.fopsPtr hread
    unfold catLoop
    rw [hread', Option.bind_some]
    dsimp only
    by_cases hzero : piece = []
    · subst hzero
      have hnil : (img.file inode).drop pos = [] := (List.take_eq_nil_iff.1 hpiece).resolve_left (by decide)
      rw [hnil, if_pos (by simp)]
      exact ⟨s1, rfl, hleft, hprints.congr hkept⟩
    · have hlength : 0 < piece.length := List.length_pos_of_ne_nil hzero
      rw [← hsplit] at htext hfit
      obtain ⟨htext1, htext2⟩ := htext.append
      obtain ⟨hfit1, hfit2⟩ := Paper.fits_append hfit
      obtain ⟨o, con, hwrite, ho, hprints1⟩ := writeFd_prints (hprints.congr hkept) hbytes htext1 hfit1
      obtain ⟨v, hv, hreturned⟩ := returned_write hjunk ho { s1 with con := con }
      have hwrite' : returned junk (sysWrite 1 buf piece.length s1) = some (v, { s1 with con := con }) := by
        rw [sysWrite, if_neg hbuf, hwrite, hreturned]
      rw [if_neg (by omega), if_neg (by omega), hwrite', Option.bind_some]
      dsimp only
      rw [if_neg hv]
      obtain ⟨s', hs', hleft', hprints'⟩ := catLoop_prints hw hjunk hbuf (k := k) (s := { s1 with con := con })
        (hopen1.congr rfl rfl) hpos1 hprints1 htext2 hfit2 (by
          have hlen := congrArg List.length hsplit
          rw [List.length_append] at hlen
          omega)
      refine ⟨s', hs', (hleft.trans (keptByCalls_with s1 con s1.user s1.dev)).trans hleft', ?_⟩
      rw [← hsplit, Paper.followText_append, Paper.write_append]
      exact hprints'

/-! ## Bytes put behind what was read -/

theorem userView_put_self (s : Kernel) (buf : Int) (n : Nat) (b : UInt8) :
    (s.userPut (buf + n) 1 fun _ => b).userView buf n = b := by
  have hself := userView_userPut s (buf + n) (fun _ => b) Nat.zero_lt_one
  have hadd : buf + (n : Int) + ((0 : Nat) : Int) = buf + n := by omega
  have hview : (s.userPut (buf + n) 1 fun _ => b).userView buf n =
      (s.userPut (buf + n) 1 fun _ => b).userView (buf + n) 0 := by
    show (s.userPut _ 1 _).user _ (buf + (n : Int)) = (s.userPut _ 1 _).user _ (_ + ((0 : Nat) : Int))
    rw [hadd]
  rw [hview, hself]

theorem userView_put_below (s : Kernel) (buf : Int) {n i : Nat} (b : UInt8) (hi : i < n) :
    (s.userPut (buf + n) 1 fun _ => b).userView buf i = s.userView buf i :=
  userPut_frame s (buf + n) 1 _ s.cr3 (buf + i) (by omega)

/-! ## cat -/

/-- A string that ends in a buffer is the one found there. -/
theorem stringAt_isString {f : Buf} {name : CString} {n : Nat} (h : IsString f name.bytes) (hlen : name.bytes.length < n) :
    stringAt f n = name := by
  obtain ⟨m, rfl⟩ := Nat.exists_eq_add_of_lt hlen
  have hbytes : (List.range name.bytes.length).map f = name.bytes := by
    apply List.ext_getElem
    · simp
    · intro i h1 h2
      rw [List.getElem_map, List.getElem_range, h.2 i (Nat.le_of_lt h2), List.getD_eq_getElem _ _ h2]
  have hzero : f name.bytes.length = 0 := (h.2 _ (le_refl _)).trans (List.getD_eq_default _ _ (le_refl _))
  have hsplit : (List.range (name.bytes.length + m + 1)).map f =
      name.bytes ++ 0 :: (List.range m).map fun i => f (name.bytes.length + (i + 1)) := by
    rw [Nat.add_assoc, List.range_add, List.map_append, hbytes, List.range_succ_eq_map, List.map_map, List.map_cons,
      List.map_map, Function.comp_apply, Nat.add_zero, hzero]
    rfl
  have htake : (stringAt f (name.bytes.length + m + 1)).bytes = name.bytes := by
    show ((List.range (name.bytes.length + m + 1)).map f).takeWhile (· ≠ 0) = name.bytes
    rw [hsplit, List.takeWhile_append_of_pos, List.takeWhile_cons_of_neg (by simp), List.append_nil]
    intro b hb
    have hne : b ≠ 0 := fun h0 => name.noNul (h0 ▸ hb)
    simpa using hne
  cases hs : stringAt f (name.bytes.length + m + 1)
  rw [hs] at htake
  cases name
  cases htake
  rfl

theorem Entered.prints {command : CString} {s0 s : Kernel} {top : Nat} {p : Paper UInt8} (h : Entered command s0 s)
    (hshows : Console.Shows s0.con top p) : Prints s top p := by
  have hone := h.fresh 1
  rw [if_pos (by decide)] at hone
  exact ⟨by rw [hone.1]; decide, hone.2, by rw [h.con]; exact hshows⟩

theorem Entered.leastFree {command : CString} {s0 s : Kernel} (h : Entered command s0 s) : s.pcblock.LeastFree 2 := by
  have htwo := h.fresh 2
  rw [if_neg (by decide)] at htwo
  exact leastFree_of (by decide) htwo fun j hj hlt => absurd hlt (by show ¬ j.val < 2; omega)

/-- `getargs` finds the argument. -/
theorem Entered.getargs {command name : CString} {s0 s : Kernel} (h : Entered command s0 s)
    (harg : argumentOf (scanned command) = name.bytes) (hlen : name.bytes.length ≤ 40) {buf : Int} (hbuf : buf ≠ 0) :
    ∃ s', Kernel.getargs buf 1024 s = some (0, s') ∧ stringAt (s'.userView buf) 1024 = name ∧ ∃ user, s' = { s with user := user } := by
  obtain ⟨q, hwords, hname, hsize⟩ := h.argument
  obtain ⟨-, hq, hbytes⟩ := parseCmd_argument hwords
  rw [harg] at hq hbytes
  obtain ⟨s', hget, -, -, hinside, -, hclear⟩ := getargs_puts (s := s) hbuf (by rw [hsize]; omega) 1024
  rw [hsize, hq, Nat.min_eq_left (by omega)] at hinside hclear
  refine ⟨s', hget, stringAt_isString ⟨name.noNul, fun i hi => ?_⟩ (by omega), getargs_eq hget⟩
  rcases Nat.eq_or_lt_of_le hi with rfl | hi
  · rw [hclear _ (le_refl _) (by omega), List.getD_eq_default _ _ (le_refl _)]
  · rw [hinside i (by omega) hi, hname]
    exact hbytes ⟨i, by omega⟩ hi

/-- An `open` of a name that exists. -/
theorem sysOpen_keptByCalls {name : CString} {e : Dentry} {s s' : Kernel} {d : Fin 8} (hl : s.pcblock.LeastFree d)
    (hname : img.named name = some e) (h : sysOpen img (some name) s = some ((d.val : Int), s')) :
    KeptByCalls s s' ∧ s'.fdIndex = d.val := by
  obtain ⟨rtc, dev, hopen⟩ := sysOpen_named hl hname
  obtain rfl := (Prod.mk.inj (Option.some.inj (hopen.symm.trans h))).2
  have hfile : ∀ k : Fin 8, k.val < 2 → (s.pcblock.opened d s.fdVal e).fileStruct k = s.pcblock.fileStruct k := by
    intro k hk
    have h2 := hl.1
    exact Function.update_of_ne (by rintro rfl; omega) _ _
  refine ⟨⟨rfl, rfl, rfl, ⟨rfl, rfl, rfl⟩, ⟨rfl, rfl⟩, rfl, rfl, fun i hi => Function.update_of_ne hi _ _, fun k hk => ?_,
    fun _ => hl.1⟩, rfl⟩
  show ((s.pcblock.opened d s.fdVal e).fileStruct k).flags = _ ∧ ((s.pcblock.opened d s.fdVal e).fileStruct k).fopsPtr = _
  rw [hfile k hk]
  exact ⟨rfl, rfl⟩

/-- `cat` from its start on. -/
theorem Entered.cat_ends {command name : CString} {s0 s : Kernel} (h : Entered command s0 s) (hw : img.WellFormed)
    (harg : argumentOf (scanned command) = name.bytes) (hlen : name.bytes.length ≤ 40) {inode : UInt32}
    (hname : NamesFile img name inode) (htext : Text (img.file inode)) {top : Nat} {p : Paper UInt8}
    (hshows : Console.Shows s0.con top p) (hfit : Paper.Fits 79 p.col ((img.file inode).splitOn 10)) {junk : Kernel → Int}
    (hjunk : ∀ s, junk s ≠ -1) {buf : Int} (hbuf : buf ≠ 0) {k : Nat} (hk : (img.file inode).length < k) :
    ∃ s', cat img junk buf k s = some (0, s') ∧ KeptByCalls s s' ∧ 2 ≤ s'.fdIndex ∧
      Prints s' (Paper.followText 10 24 top p (img.file inode)) (Paper.write 10 p (img.file inode)) := by
  obtain ⟨s1, hget, hstring, user, rfl⟩ := h.getargs harg hlen hbuf
  have hleast : ({ s with user := user } : Kernel).pcblock.LeastFree 2 := h.leastFree
  obtain ⟨s2, hopen, ho⟩ := sysOpen_file hleast hname
  obtain ⟨e, he, -⟩ := hname
  obtain ⟨hleft, hindex⟩ := sysOpen_keptByCalls hleast he hopen
  have hprints : Prints s2 top p := by
    obtain ⟨hflags, hfops, hcon⟩ := h.prints hshows
    have hone := ho.files 1 (by decide)
    exact ⟨by rw [hone]; exact hflags, by rw [hone]; exact hfops, by rw [ho.con]; exact hcon⟩
  obtain ⟨s', hs', hleft', hprints'⟩ := catLoop_prints hw hjunk hbuf (k := k) ho.openAt (Nat.zero_le _) hprints htext hfit hk
  refine ⟨s', ?_, ((keptByCalls_with s s.con user s.dev).trans hleft).trans hleft', hleft'.fdIndex (by rw [hindex]; decide),
    hprints'⟩
  unfold cat
  rw [hget, Option.bind_some]
  dsimp only
  rw [if_neg (not_not.2 rfl), hstring, hopen, Option.bind_some]
  exact hs'

/-- `cat` with the name of a regular file, of at most 40 bytes, types the file on the screen, wherever its reads cut the
lines, and returns 0. The image is well-formed, the file is of printable characters in lines that end by column 79, and
what `write` returns without assigning it is not -1, which `cat` takes for a failure. -/
theorem cat_prints (hw : img.WellFormed) {command name : CString} {r : Regs} {s0 s : Kernel} {eip : UInt32}
    (hstart : execute img (some command) r s0 = some (.enter eip, s)) (harg : argumentOf (scanned command) = name.bytes)
    (hlen : name.bytes.length ≤ 40) {inode : UInt32} (hname : NamesFile img name inode) (htext : Text (img.file inode))
    {top : Nat} {p : Paper UInt8} (hshows : Console.Shows s0.con top p)
    (hfit : Paper.Fits 79 p.col ((img.file inode).splitOn 10)) {junk : Kernel → Int} (hjunk : ∀ s, junk s ≠ -1) {buf : Int}
    (hbuf : buf ≠ 0) {k : Nat} (hk : (img.file inode).length < k) : ∃ s', cat img junk buf k s = some (0, s') ∧
      Console.Shows s'.con (Paper.followText 10 24 top p (img.file inode)) (Paper.write 10 p (img.file inode)) := by
  obtain ⟨s', hs', -, -, hprints⟩ :=
    (execute_programEntered hstart).cat_ends hw harg hlen hname htext hshows hfit hjunk hbuf hk
  exact ⟨s', hs', hprints.shows⟩

/-- A directory with itself, `cat`, `ls`, the clock, a text of two lines and `shell`. -/
def library : Image := .ofPieces [
  (0, [6, 0, 0, 0, 3, 0, 0, 0, 2]),
  (64, ascii ['.']), (96, [1]),
  (128, ascii ['c', 'a', 't']), (160, [2]),
  (192, ascii ['r', 't', 'c']), (224, [0]),
  (256, ascii ['l', 's']), (288, [2]),
  (320, ascii ['f', 'r', 'a', 'm', 'e', '0', '.', 't', 'x', 't']), (352, [2, 0, 0, 0, 1]),
  (384, shell.bytes), (416, [2]),
  -- inodes 0 and 1: lengths 40 and 5, each with the data block of its number
  (4096, [40]), (8192, [5, 0, 0, 0, 1]), (16384, [0x7f, 0x45, 0x4c, 0x46]), (20480, [97, 98, 10, 99, 100])]

theorem library_wellFormed : library.WellFormed := by
  have hinode : ∀ inode : UInt32, inode < library.numInodes - 1 → inode = 0 ∨ inode = 1 := by
    intro inode hlt
    have hnum : library.numInodes - 1 = 2 := by decide +kernel
    rw [hnum] at hlt
    have hlt' : inode.toNat < 2 := UInt32.lt_iff_toNat_lt.1 hlt
    have hcases : inode.toNat = 0 ∨ inode.toNat = 1 := by omega
    exact hcases.imp UInt32.toNat_inj.1 UInt32.toNat_inj.1
  have hlength : (library.dataLength 0).toNat = 40 ∧ (library.dataLength 1).toNat = 5 := by decide +kernel
  constructor
  · intro inode hlt
    unfold Image.maxBlocks Image.oneBlockSize
    rcases hinode inode hlt with rfl | rfl <;> omega
  · intro inode hlt i hi
    unfold Image.oneBlockSize at hi
    rcases hinode inode hlt with rfl | rfl <;> obtain rfl : i = 0 := by omega
    all_goals decide +kernel

/-- `cat frame0.txt` as the first program. -/
def firstCat : Kernel := ((execute library (some catFrame0) ⟨0, 0⟩ boot).getD (.handled, boot)).2

theorem execute_firstCat : execute library (some catFrame0) ⟨0, 0⟩ boot = some (.enter 0, firstCat) :=
  eq_some_of_fst _ (by decide +kernel)

/-- The cleared screen of the start. -/
theorem shows_boot : Console.Shows boot.con 0 boot.con.paper := by
  refine Console.shows_paper (Console.plain_clear _) (fun j hj => ?_) (le_refl _) (le_refl _) (Or.inl (by decide))
  unfold boot Console.getChar Console.clear Console.cell numRows numCols
  dsimp only
  rw [if_pos (by omega), if_pos (by omega)]

/-- The two lines on the screen. -/
theorem cat_prints_frame0 : ∃ s', cat library (fun _ => 0) 1 6 firstCat = some (0, s') ∧
    s'.con.getChar 1 0 = 98 ∧ s'.con.getChar 0 1 = 99 := by
  have hfile : library.file 1 = [97, 98, 10, 99, 100] := by decide +kernel
  obtain ⟨s', hs', hshows⟩ := cat_prints (k := 6) library_wellFormed execute_firstCat
    catFrame0_argument (by decide) (show NamesFile library frame0 1 from ⟨library.dentryAt 4, by decide +kernel⟩)
    (by rw [hfile]; decide +kernel) shows_boot (by rw [hfile]; decide +kernel) (show ∀ _ : Kernel, (0 : Int) ≠ -1 from fun _ => by decide)
    (show (1 : Int) ≠ 0 by decide) (by rw [hfile]; decide +kernel)
  rw [hfile] at hshows
  exact ⟨s', hs', (hshows.rows 0 1 (by decide) (by decide)).trans (by decide +kernel),
    (hshows.rows 1 0 (by decide) (by decide)).trans (by decide +kernel)⟩

/-! ## ls -/

/-- The directory is opened as the least free descriptor. -/
theorem sysOpen_dir {name : CString} {e : Dentry} {s : Kernel} {d : Fin 8} (hl : s.pcblock.LeastFree d)
    (hname : img.named name = some e) (htype : e.fileType = 1) : ∃ s', sysOpen img (some name) s = some ((d.val : Int), s') ∧
      DirAt s' d 0 ∧ (∀ k, k ≠ d → s'.pcblock.fileStruct k = s.pcblock.fileStruct k) ∧ s'.con = s.con := by
  obtain ⟨rtc, dev, hopen⟩ := sysOpen_named hl hname
  have hself : (s.pcblock.opened d s.fdVal e).fileStruct d = ⟨some .filesystemFops, 0, 1⟩ := by
    show Function.update s.pcblock.fileStruct d (openedFile e (s.pcblock.fileStruct d)) d = _
    rw [Function.update_self, openedFile, htype, if_neg (by decide)]
  refine ⟨_, hopen, ⟨?_, ?_, ?_, ?_⟩, fun k hk => Function.update_of_ne hk _ _, rfl⟩
  · show ((s.pcblock.opened d s.fdVal e).fileStruct d).flags ≠ 0
    rw [hself]
    exact show (1 : UInt32) ≠ 0 by decide
  · show ((s.pcblock.opened d s.fdVal e).fileStruct d).fopsPtr = _
    rw [hself]
  · show ((s.pcblock.opened d s.fdVal e).dentry d).fileType = 1
    simp only [Pcb.opened, Pcb.setDentry, Pcb.setFile]
    by_cases hv : s.fdVal = d
    · rw [hv]
      simp only [Function.update_self, Dentry.withHead, htype]
    · rw [Function.update_of_ne (Ne.symm hv)]
      simp only [Function.update_self, Dentry.withHead, htype]
  · show ((s.pcblock.opened d s.fdVal e).fileStruct d).fpos.toNat = 0
    rw [hself]
    rfl

/-- The names that `ls` comes to from a position on: it takes an empty one for the end. -/
def listing (img : Image) (pos : Nat) : List (List UInt8) := ((img.entriesFrom pos).map img.entryName).takeWhile (· ≠ [])

/-- A line for each name. -/
def listed (names : List (List UInt8)) : List UInt8 := names.flatMap fun name => name ++ [10]

/-- The end of the line is put behind what was read. -/
theorem userView_newline {s : Kernel} {buf : Int} {piece : List UInt8}
    (h : (List.range piece.length).map (s.userView buf) = piece) :
    (List.range (piece ++ [10]).length).map ((s.userPut (buf + piece.length) 1 fun _ => 10).userView buf) = piece ++ [10] := by
  rw [List.length_append, List.length_singleton, List.range_succ, List.map_append, List.map_singleton,
    userView_put_self s buf piece.length 10]
  congr 1
  rw [← h, List.length_map, List.length_range]
  exact List.map_congr_left fun i hi => userView_put_below s buf 10 (List.mem_range.1 hi)

/-- The loop of `ls` types the names that are left. -/
theorem lsLoop_prints (hends : img.EndsListed)
    (hterm : ∀ k, k < img.numDirEntries.toNat → img.stopsAt k = true → img.Terminated k) {junk : Kernel → Int}
    (hjunk : ∀ s, junk s ≠ -1) {buf : Int} (hbuf : buf ≠ 0) {d : Fin 8} : ∀ {k pos top : Nat} {p : Paper UInt8} {s : Kernel},
    DirAt s d pos → pos ≤ img.numDirEntries.toNat → Prints s top p → Text (listed (listing img pos)) →
    Paper.Fits 79 p.col ((listed (listing img pos)).splitOn 10) → (listing img pos).length < k →
      ∃ s', lsLoop img junk d.val buf k s = some (0, s') ∧ KeptByCalls s s' ∧
        Prints s' (Paper.followText 10 24 top p (listed (listing img pos))) (Paper.write 10 p (listed (listing img pos)))
  | 0, _, _, _, _, _, _, _, _, _, hk => absurd hk (Nat.not_lt_zero _)
  | k + 1, pos, top, p, s, hdir, hpos, hprints, htext, hfit, hk => by
    have hend : ∀ s1, readCall img s ⟨d, buf, sbufsize - 1⟩ = some (Reply.ofPiece [], s1) → listing img pos = [] →
        ∃ s', lsLoop img junk d.val buf (k + 1) s = some (0, s') ∧ KeptByCalls s s' ∧
          Prints s' (Paper.followText 10 24 top p (listed (listing img pos)))
            (Paper.write 10 p (listed (listing img pos))) := by
      intro s1 hcall hnil
      obtain ⟨hread, -⟩ := sysRead_of_readCall hcall
      have hread' : returned junk (sysRead img d.val buf (sbufsize - 1) s) = some (0, s1) := congrArg (returned junk) hread
      unfold lsLoop
      rw [hread', Option.bind_some, if_pos rfl, hnil]
      exact ⟨s1, rfl, sysRead_keptByCalls hdir.fopsPtr hread, hprints.congr (sysRead_kept hread)⟩
    rcases readCall_listed (q := ⟨d, buf, sbufsize - 1⟩) hends hdir hpos hbuf with ⟨hnil, s1, hcall, -⟩ | ⟨e, es, hes, hread⟩
    · exact hend s1 hcall (by rw [listing, hnil]; rfl)
    · obtain ⟨-, he, hstop, -, hrest⟩ := Image.entriesFrom_cons hpos hes
      have hstring := Image.entryString_of_terminated (hterm e he hstop)
      rcases hread with ⟨hnone, -⟩ | ⟨str, s1, hstr, hcall, hdir1⟩
      · rw [hstring] at hnone
        cases hnone
      obtain rfl := Option.some.inj (hstring.symm.trans hstr)
      by_cases hempty : img.entryName e = []
      · rw [hempty] at hcall
        exact hend s1 hcall (by rw [listing, hes, List.map_cons, List.takeWhile_cons_of_neg (by simpa using hempty)])
      · obtain ⟨hread, hbytes⟩ := sysRead_of_readCall hcall
        have hcons : listing img pos = img.entryName e :: listing img (e + 1) := by
          rw [listing, hes, List.map_cons, List.takeWhile_cons_of_pos (by simpa using hempty), hrest]
          rfl
        have hlist : listed (listing img pos) = (img.entryName e ++ [10]) ++ listed (listing img (e + 1)) := by
          rw [hcons, listed, List.flatMap_cons]
          rfl
        rw [hlist] at htext hfit ⊢
        obtain ⟨htext1, htext2⟩ := htext.append
        obtain ⟨hfit1, hfit2⟩ := Paper.fits_append hfit
        have hlength : 0 < (img.entryName e).length := List.length_pos_of_ne_nil hempty
        let s2 := s1.userPut (buf + (img.entryName e).length) 1 fun _ => 10
        have hprints1 := hprints.congr (sysRead_kept hread)
        obtain ⟨o, con, hwrite, ho, hprints2⟩ := writeFd_prints (s := s2) ⟨hprints1.flags, hprints1.fopsPtr, hprints1.shows⟩
          (userView_newline hbytes) htext1 hfit1
        obtain ⟨v, hv, hreturned⟩ := returned_write hjunk ho { s2 with con := con }
        have hread' : returned junk (sysRead img d.val buf (sbufsize - 1) s) = some (((img.entryName e).length : Int), s1) :=
          congrArg (returned junk) hread
        have hcast : (((img.entryName e).length : Int) + 1) = ((img.entryName e ++ [10]).length : Int) := by
          rw [List.length_append, List.length_singleton]
          rfl
        have hwrite' : returned junk (sysWrite 1 buf ((img.entryName e).length + 1) s2) = some (v, { s2 with con := con }) := by
          rw [sysWrite, if_neg hbuf, hcast, hwrite, hreturned]
        unfold lsLoop
        rw [hread', Option.bind_some]
        dsimp only
        rw [if_neg (by omega), if_neg (by omega), hwrite', Option.bind_some]
        dsimp only
        rw [if_neg hv]
        have hdir2 : DirAt { s2 with con := con } d (e + 1) := ⟨hdir1.flags, hdir1.fopsPtr, hdir1.fileType, hdir1.fpos⟩
        obtain ⟨s', hs', hleft, hprints'⟩ := lsLoop_prints hends hterm hjunk hbuf (k := k) hdir2 he hprints2 htext2 hfit2 (by
          rw [hcons, List.length_cons] at hk
          omega)
        have hleft1 := (sysRead_keptByCalls hdir.fopsPtr hread).trans (keptByCalls_with s1 con s2.user s1.dev)
        refine ⟨s', hs', hleft1.trans hleft, ?_⟩
        rw [Paper.followText_append, Paper.write_append p (img.entryName e ++ [10])]
        exact hprints'

/-- From the start on these are the names of the entries that are no devices. -/
theorem listing_zero (h : Listable img) : listing img 0 = img.names.takeWhile (· ≠ []) := by
  rw [listing, entriesFrom_zero]
  exact Padded.takeWhile_of_getD (Padded.filter_getD_iff.2 ((onlyAfter_iff img).2 h.types))

/-- `ls` from its start on. -/
theorem Entered.ls_ends {command : CString} {s0 s : Kernel} (h : Entered command s0 s) (hlistable : Listable img)
    {e : Dentry} (hdot : img.named dot = some e) (htype : e.fileType = 1) {top : Nat} {p : Paper UInt8}
    (hshows : Console.Shows s0.con top p) {junk : Kernel → Int} (hjunk : ∀ s, junk s ≠ -1) {buf : Int} (hbuf : buf ≠ 0) :
    let text := listed (img.names.takeWhile (· ≠ []))
    Text text → Paper.Fits 79 p.col (text.splitOn 10) → ∀ k, img.names.length < k →
      ∃ s', ls img junk buf k s = some (0, s') ∧ KeptByCalls s s' ∧ 2 ≤ s'.fdIndex ∧
        Prints s' (Paper.followText 10 24 top p text) (Paper.write 10 p text) := by
  intro text htext hfit k hk
  obtain ⟨s1, hopen, hdir, hfiles, hcon⟩ := sysOpen_dir h.leastFree hdot htype
  obtain ⟨hleft, hindex⟩ := sysOpen_keptByCalls h.leastFree hdot hopen
  have hprints : Prints s1 top p := by
    obtain ⟨hflags, hfops, hshows'⟩ := h.prints hshows
    have hone := hfiles 1 (by decide)
    exact ⟨by rw [hone]; exact hflags, by rw [hone]; exact hfops, by rw [hcon]; exact hshows'⟩
  have hlisting := listing_zero hlistable
  obtain ⟨s', hs', hleft', hprints'⟩ := lsLoop_prints hlistable.ends hlistable.terminated hjunk hbuf (k := k) hdir
    (Nat.zero_le _) hprints (by rw [hlisting]; exact htext) (by rw [hlisting]; exact hfit) (by
      rw [hlisting]
      exact lt_of_le_of_lt (List.takeWhile_sublist _).length_le hk)
  rw [hlisting] at hprints'
  refine ⟨s', ?_, hleft.trans hleft', hleft'.fdIndex (by rw [hindex]; decide), hprints'⟩
  unfold ls
  rw [hopen, Option.bind_some]
  dsimp only
  rw [if_neg (by omega)]
  exact hs'

/-- `ls` types the names of the directory's entries that are no devices, in order and a line each, as far as the first
that is empty, and returns 0. The directory can be listed by single reads and its `.` is a directory, the names are
printable and no longer than 79 columns, and what `write` returns without assigning it is not -1. -/
theorem ls_prints (hlistable : Listable img) {command : CString} {r : Regs} {s0 s : Kernel} {eip : UInt32}
    (hstart : execute img (some command) r s0 = some (.enter eip, s)) {e : Dentry} (hdot : img.named dot = some e)
    (htype : e.fileType = 1) {top : Nat} {p : Paper UInt8} (hshows : Console.Shows s0.con top p) {junk : Kernel → Int}
    (hjunk : ∀ s, junk s ≠ -1) {buf : Int} (hbuf : buf ≠ 0) :
    let text := listed (img.names.takeWhile (· ≠ []))
    Text text → Paper.Fits 79 p.col (text.splitOn 10) → ∀ k, img.names.length < k →
      ∃ s', ls img junk buf k s = some (0, s') ∧
        Console.Shows s'.con (Paper.followText 10 24 top p text) (Paper.write 10 p text) := by
  intro text htext hfit k hk
  obtain ⟨s', hs', -, -, hprints⟩ :=
    (execute_programEntered hstart).ls_ends hlistable hdot htype hshows hjunk hbuf htext hfit k hk
  exact ⟨s', hs', hprints.shows⟩

theorem library_listable : Listable library := by
  have hcount : library.numDirEntries.toNat = 6 := by decide +kernel
  refine ⟨by decide +kernel, fun k hk _ => ?_, fun k j hkj hj hlisted hstop hj' => ?_⟩
  · have hall : ∀ k < 6, ∃ i < 32, library.dentryByte k i = 0 := by decide +kernel
    obtain ⟨i, hi, h0⟩ := hall k (hcount ▸ hk)
    exact ⟨i, hi, h0⟩
  · have hall : ∀ k < 6, library.isListed k = true → library.stopsAt k = true := by decide +kernel
    rw [hall k (by omega) hlisted] at hstop
    cases hstop

theorem library_names : library.names.takeWhile (· ≠ []) =
    [ascii ['.'], ascii ['c', 'a', 't'], ascii ['l', 's'], frame0.bytes, shell.bytes] := by
  decide +kernel

/-- The clock is left out. -/
theorem ls_prints_library : ∃ s', ls library (fun _ => 0) 1 6 firstCat = some (0, s') ∧
    s'.con.getChar 0 0 = 46 ∧ s'.con.getChar 2 1 = 116 ∧ s'.con.getChar 0 2 = 108 := by
  obtain ⟨s', hs', hshows⟩ := ls_prints library_listable execute_firstCat
    (show library.named dot = some (library.dentryAt 0) by decide +kernel) (by decide +kernel) shows_boot
    (show ∀ _ : Kernel, (0 : Int) ≠ -1 from fun _ => by decide) (show (1 : Int) ≠ 0 by decide)
    (by rw [library_names]; decide +kernel) (by rw [library_names]; decide +kernel) 6 (by decide +kernel)
  rw [library_names] at hshows
  exact ⟨s', hs', (hshows.rows 0 0 (by decide) (by decide)).trans (by decide +kernel),
    (hshows.rows 1 2 (by decide) (by decide)).trans (by decide +kernel),
    (hshows.rows 2 0 (by decide) (by decide)).trans (by decide +kernel)⟩

end Kernel

end Os391
