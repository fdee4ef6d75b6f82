/-
Programs on the kernel: its calls as the calls that a program makes. What `open` also stores for the descriptor used
last, and the table pointer that `close` clears, decide what `fish` shows.
-/
import Os391.Files.Kinds
import Os391.Files.Read
import Os391.Files.Table
import Os391.Process.Staging
import Os391.User.Fish

namespace Os391

open Bytes

namespace Kernel

variable {img : Image}

/-! ## The calls -/

/-- The file calls, with one place for all that is read; after a call that does not come back, or returns what nothing
has set, there is no state left. -/
def calls (img : Image) (buf : Int) : Grep.Calls (Option Kernel) where
  ece391Open name st :=
    match st.bind (sysOpen img (some name)) with
    | some (v, s) => (if v = -1 then none else some v, some s)
    | none => (none, none)
  ece391Read fd n st :=
    match st.bind (sysRead img fd buf n) with
    | some (.ret v, s) => (if v = -1 then none else some ((List.range v.toNat).map (s.userView buf)), some s)
    | _ => (none, none)
  ece391Close fd st :=
    match st with
    | some s => ((sysClose fd s).1 ≠ -1, some (sysClose fd s).2)
    | none => (false, none)

/-- A name is that of a regular file. -/
def NamesFile (img : Image) (name : CString) (inode : UInt32) : Prop :=
  ∃ e, img.named name = some e ∧ e.fileType = 2 ∧ e.inodeNumber = inode ∧ inode < img.numInodes - 1

/-- What is left of the file on a descriptor, when `open` has looked last at descriptor `k`. -/
def Left (img : Image) (k : Nat) (d : Fin 8) (st : Option Kernel) (text : List UInt8) : Prop :=
  ∃ s inode pos, st = some s ∧ s.fdIndex = k ∧ OpenAt img s d inode pos ∧ pos ≤ (img.dataLength inode).toNat ∧
    (img.file inode).drop pos = text

/-- What a read keeps. -/
structure KeptByRead (s s' : Kernel) : Prop where
  fdIndex : s'.fdIndex = s.fdIndex
  con : s'.con = s.con
  kinds : SameKinds s'.pcblock s.pcblock

theorem sysRead_kept {fd buf nbytes : Int} {s s' : Kernel} {o : Outcome} (h : sysRead img fd buf nbytes s = some (o, s')) :
    KeptByRead s s' := by
  obtain ⟨d, v, fdVal, user, entered, dev, rfl⟩ := sysRead_eq h
  exact ⟨rfl, rfl, sameKinds_setFpos s.pcblock d v⟩

/-- A read that replies with a piece returns its length and stores it. -/
theorem sysRead_of_readCall {s s' : Kernel} {q : ReadCall} {piece : List UInt8}
    (h : readCall img s q = some (Reply.ofPiece piece, s')) :
    sysRead img q.fd.val q.buf q.nbytes s = some (.ret piece.length, s') ∧
      (List.range piece.length).map (s'.userView q.buf) = piece := by
  unfold readCall at h
  split at h
  · rename_i v s'' hsys
    simp only [Reply.ofPiece, Option.some.injEq, Prod.mk.injEq, Reply.mk.injEq] at h
    obtain ⟨⟨rfl, hbytes⟩, rfl⟩ := h
    exact ⟨hsys, hbytes⟩
  · cases h

/-- A read of an open file, with the bytes it stores. -/
theorem sysRead_open (hw : img.WellFormed) {buf : Int} (hbuf : buf ≠ 0) {n : Nat} (hn : n ≤ 4096) {s : Kernel} {d : Fin 8}
    {inode : UInt32} {pos : Nat} (h : OpenAt img s d inode pos) (hpos : pos ≤ (img.dataLength inode).toNat) :
    let piece := ((img.file inode).drop pos).take n
    ∃ s', sysRead img d.val buf n s = some (.ret piece.length, s') ∧
      (List.range piece.length).map (s'.userView buf) = piece ∧ OpenAt img s' d inode (pos + piece.length) ∧
      pos + piece.length ≤ (img.dataLength inode).toNat ∧
      (img.file inode).drop (pos + piece.length) = ((img.file inode).drop pos).drop n ∧
      (∀ e i p, e ≠ d → OpenAt img s e i p → OpenAt img s' e i p) ∧ KeptByRead s s' := by
  intro piece
  obtain ⟨s', hread, hopen', hother⟩ := readCall_open (q := ⟨d, buf, n⟩) hw h hpos hbuf hn
  have hlength : piece.length = min n ((img.dataLength inode).toNat - pos) := by
    rw [List.length_take, List.length_drop, Image.file_length]
  obtain ⟨hsys, hbytes⟩ := sysRead_of_readCall hread
  refine ⟨s', hsys, hbytes, hopen', by rw [hlength]; omega, ?_, hother, sysRead_kept hsys⟩
  rw [List.drop_drop, ← Image.file_drop_min (pos + n), hlength]
  congr 1
  omega

/-- A read takes from what is left, nothing from other descriptors, and closes none. -/
theorem calls_read (hw : img.WellFormed) {buf : Int} (hbuf : buf ≠ 0) {k : Nat} {d : Fin 8} {n : Nat} (hn : n ≤ 4096)
    {st : Option Kernel} {text : List UInt8} (h : Left img k d st text) :
    ∃ s s', st = some s ∧ (calls img buf).ece391Read d.val n st = (some (text.take n), some s') ∧
      Left img k d (some s') (text.drop n) ∧ (∀ e, e ≠ d → ∀ {t}, Left img k e st t → Left img k e (some s') t) ∧
      ∀ e, (s'.pcblock.fileStruct e).flags = (s.pcblock.fileStruct e).flags := by
  obtain ⟨s, inode, pos, rfl, hk, hopen, hpos, rfl⟩ := h
  obtain ⟨s', hread, hbytes, hopen', hpos', hdrop, hother, hkept⟩ := sysRead_open hw hbuf hn hopen hpos
  have hindex := hkept.fdIndex.trans hk
  refine ⟨s, s', rfl, ?_, ⟨s', inode, _, rfl, hindex, hopen', hpos', hdrop⟩, ?_, fun e => (hkept.kinds e).1⟩
  · show (match (some s).bind (sysRead img d.val buf n) with
      | some (.ret v, s) => (if v = -1 then none else some ((List.range v.toNat).map (s.userView buf)), some s)
      | _ => (none, none)) = _
    rw [Option.bind_some, hread]
    dsimp only
    rw [if_neg (by omega), Int.toNat_natCast, hbytes]
  · rintro e he t ⟨s0, i, p, hs, -, ho, hp, rfl⟩
    obtain rfl := Option.some.inj hs
    exact ⟨s', i, p, rfl, hindex, hother e i p he ho, hp, rfl⟩

theorem OpenAt.congr {s s' : Kernel} {d : Fin 8} {inode : UInt32} {pos : Nat} (h : OpenAt img s d inode pos)
    (hfile : s'.pcblock.fileStruct d = s.pcblock.fileStruct d) (hdentry : s'.pcblock.dentry d = s.pcblock.dentry d) :
    OpenAt img s' d inode pos :=
  ⟨by rw [hfile]; exact h.flags, by rw [hfile]; exact h.fopsPtr, by rw [hdentry]; exact h.fileType,
    by rw [hdentry]; exact h.inodeNumber, h.numInodes, by rw [hfile]; exact h.fpos⟩

/-! ## open -/

/-- What `open` of a regular file does to the descriptors: the one used last is put on the file as well. -/
structure Opened (img : Image) (s s' : Kernel) (d : Fin 8) (inode : UInt32) : Prop where
  openAt : OpenAt img s' d inode 0
  flag : (s'.pcblock.fileStruct d).flags = 1
  files : ∀ k, k ≠ d → s'.pcblock.fileStruct k = s.pcblock.fileStruct k
  con : s'.con = s.con
  fdVal : s'.fdVal = s.fdVal
  fdIndex : s'.fdIndex = d.val
  others : ∀ {k i p}, k ≠ d → k ≠ s.fdVal → OpenAt img s k i p → OpenAt img s' k i p
  stray : ∀ {i p}, s.fdVal ≠ d → OpenAt img s s.fdVal i p → OpenAt img s' s.fdVal inode p

theorem sysOpen_named {name : CString} {e : Dentry} {s : Kernel} {d : Fin 8} (hl : s.pcblock.LeastFree d)
    (hn : img.named name = some e) : ∃ rtc dev, sysOpen img (some name) s = some ((d.val : Int), ({ s with
      fdIndex := d.val, fdRtc := rtc, dev := dev
      pcblock := s.pcblock.opened d s.fdVal e } : Kernel).savePcb s.findPid) := by
  rcases sysOpen_cases img name s with ⟨d', hl', hopen⟩ | ⟨hfull, -⟩ | ⟨hfull, -⟩
  · obtain rfl := hl.unique hl'
    obtain ⟨rtc, dev, hat⟩ := openAt_named d s hn
    exact ⟨rtc, dev, by rw [hopen, hat]⟩
  · exact absurd hfull hl.not_full
  · exact absurd hfull hl.not_full

theorem sysOpen_file {name : CString} {inode : UInt32} {s : Kernel} {d : Fin 8} (hl : s.pcblock.LeastFree d)
    (hn : NamesFile img name inode) : ∃ s', sysOpen img (some name) s = some ((d.val : Int), s') ∧ Opened img s s' d inode := by
  obtain ⟨e, hname, htype, hinode, hlt⟩ := hn
  obtain ⟨rtc, dev, hopen⟩ := sysOpen_named hl hname
  have hself : (s.pcblock.opened d s.fdVal e).fileStruct d = ⟨some .filesystemFops, 0, 1⟩ := by
    show Function.update s.pcblock.fileStruct d (openedFile e (s.pcblock.fileStruct d)) d = _
    rw [Function.update_self, openedFile, htype, if_neg (by decide)]
  have hother : ∀ k, k ≠ d → (s.pcblock.opened d s.fdVal e).fileStruct k = s.pcblock.fileStruct k := fun k hk =>
    Function.update_of_ne hk _ _
  have hdentry : ((s.pcblock.opened d s.fdVal e).dentry d).fileType = 2 ∧
      ((s.pcblock.opened d s.fdVal e).dentry d).inodeNumber = inode ∧
      ((s.pcblock.opened d s.fdVal e).dentry s.fdVal).fileType = 2 ∧
      ((s.pcblock.opened d s.fdVal e).dentry s.fdVal).inodeNumber = inode := by
    simp only [Pcb.opened, Pcb.setDentry, Pcb.setFile]
    by_cases hv : s.fdVal = d
    · rw [hv]
      simp only [Function.update_self, Dentry.withHead, htype, hinode, and_self]
    · rw [Function.update_of_ne (Ne.symm hv)]
      simp only [Function.update_self, Dentry.withHead, htype, hinode, and_self]
  have hkeeps : ∀ k, k ≠ d → k ≠ s.fdVal → (s.pcblock.opened d s.fdVal e).dentry k = s.pcblock.dentry k := by
    intro k hk hv
    simp only [Pcb.opened, Pcb.setDentry, Pcb.setFile, Function.update_of_ne hk, Function.update_of_ne hv]
  refine ⟨_, hopen, ⟨?_, ?_, hdentry.1, hdentry.2.1, hlt, ?_⟩, ?_, hother, rfl, rfl, rfl,
    fun {k i p} hk hv ho => ?_, fun {i p} hv ho => ?_⟩
  · show ((s.pcblock.opened d s.fdVal e).fileStruct d).flags ≠ 0
    rw [hself]
    exact show (1 : UInt32) ≠ 0 by decide
  · show ((s.pcblock.opened d s.fdVal e).fileStruct d).fopsPtr = _
    rw [hself]
  · show ((s.pcblock.opened d s.fdVal e).fileStruct d).fpos.toNat = 0
    rw [hself]
    rfl
  · show ((s.pcblock.opened d s.fdVal e).fileStruct d).flags = 1
    rw [hself]
  · exact ho.congr (hother k hk) (hkeeps k hk hv)
  · have hfile := hother s.fdVal hv
    exact ⟨by show ((s.pcblock.opened d s.fdVal e).fileStruct s.fdVal).flags ≠ 0; rw [hfile]; exact ho.flags,
      by show ((s.pcblock.opened d s.fdVal e).fileStruct s.fdVal).fopsPtr = _; rw [hfile]; exact ho.fopsPtr,
      hdentry.2.2.1, hdentry.2.2.2, hlt,
      by show ((s.pcblock.opened d s.fdVal e).fileStruct s.fdVal).fpos.toNat = p; rw [hfile]; exact ho.fpos⟩

/-! ## close -/

theorem closed_file (p : Pcb) {fd d : Fin 8} {k : Nat} (hd : d ≠ fd) (hk : d.val ≠ k) :
    (p.closed fd k).fileStruct d = p.fileStruct d := by
  unfold Pcb.closed Pcb.clearFops Pcb.setDentry Pcb.setFile
  simp only [Function.update_of_ne hd]
  split
  · rename_i hlt
    exact Function.update_of_ne (fun h => hk (congrArg Fin.val h)) _ _
  · rfl

/-- A `close` of another descriptor keeps what is left, unless `open` has looked last at this one. -/
theorem calls_close {buf : Int} {k : Nat} (hk : k < 8) {d e : Fin 8} (hne : e ≠ d) (hek : e.val ≠ k) {st : Option Kernel}
    {text : List UInt8} (h : Left img k e st text) : Left img k e ((calls img buf).ece391Close d.val st).2 text := by
  obtain ⟨s, inode, pos, rfl, hindex, hopen, hpos, rfl⟩ := h
  show Left img k e (some (sysClose d.val s).2) _
  rcases sysClose_cases d.val s with ⟨d', hd', -, -, v, hclose⟩ | ⟨-, hclose⟩
  · obtain rfl : d = d' := Fin.ext (by exact_mod_cast hd')
    rw [hclose]
    refine ⟨_, inode, pos, rfl, hindex, hopen.congr (closed_file _ hne (hindex ▸ hek)) ?_, hpos, rfl⟩
    exact s.pcblock.closed_dentry d s.fdIndex e hne (Or.inr (hindex ▸ hk))
  · rw [hclose]
    exact ⟨s, inode, pos, rfl, hindex, hopen, hpos, rfl⟩

/-! ## fish -/

theorem zero_notMem_rtc : 0 ∉ ascii ['r', 't', 'c'] := by decide

/-- The name `rtc`. -/
def rtcName : CString := ⟨ascii ['r', 't', 'c'], zero_notMem_rtc⟩

/-- `main` of `fish` up to `add_frames`, with the address of `vmem_base_addr`; nothing when it does not get there. -/
def fishStart (img : Image) (vmem : Int) (s : Kernel) : Option Kernel :=
  let v := vidmap vmem s
  if v.1 = -1 then none else (sysOpen img (some rtcName) v.2).map Prod.snd

theorem leastFree_of {p : Pcb} {d : Fin 8} (h2 : 2 ≤ d.val) (hfree : (p.fileStruct d).flags = 0)
    (hbelow : ∀ j : Fin 8, 2 ≤ j.val → j < d → (p.fileStruct j).flags ≠ 0) : p.LeastFree d :=
  ⟨h2, hfree, hbelow⟩

/-- `main` comes to `add_frames` with the clock on descriptor 2. -/
theorem fishStart_fresh {s : Kernel} (hfresh : Fresh s.pcblock.fileStruct) {r : Dentry} (hrtc : img.named rtcName = some r)
    {vmem : Int} (hvmem : vmem ≠ 0 ∧ vmem ≠ 0x400000) : ∃ s', fishStart img vmem s = some s' ∧ s'.fdVal = s.fdVal ∧
      (s'.pcblock.fileStruct 2).flags = 1 ∧ ∀ d : Fin 8, 2 < d.val → (s'.pcblock.fileStruct d).flags = 0 := by
  obtain ⟨user, huser⟩ := vidmap_eq vmem s
  have hv : (vidmap vmem s).1 ≠ -1 := by
    unfold vidmap
    rw [if_neg (by rintro (h | h); exacts [hvmem.1 h, hvmem.2 h])]
    exact show (0 : Int) ≠ -1 by decide
  have hflags : ∀ d : Fin 8, 2 ≤ d.val → (s.pcblock.fileStruct d).flags = 0 := by
    intro d hd
    have hd' := hfresh d
    rwa [if_neg (by omega)] at hd'
  obtain ⟨rtc, dev, hopen⟩ := sysOpen_named (s := { s with user := user }) (d := 2)
    (leastFree_of (by decide) (hflags 2 (by decide)) fun j hj hlt => absurd hlt (by show ¬ j.val < 2; omega)) hrtc
  unfold fishStart
  dsimp only
  rw [if_neg hv, huser, hopen]
  refine ⟨_, rfl, rfl, (opened_flags s.pcblock 2 s.fdVal r).1, fun d hd => ?_⟩
  refine ((opened_flags s.pcblock 2 s.fdVal r).2 d ?_).trans (hflags d (by omega))
  rintro rfl
  exact absurd hd (by decide)

section

variable {buf : Int} {s : Kernel} {i0 i1 : UInt32}

theorem calls_open {name : CString} {s' : Kernel} {d : Fin 8}
    (h : sysOpen img (some name) s = some ((d.val : Int), s')) :
    (calls img buf).ece391Open name (some s) = (some (d.val : Int), some s') := by
  show (match (some s).bind (sysOpen img (some name)) with
    | some (v, s) => (if v = -1 then none else some v, some s)
    | none => (none, none)) = _
  rw [Option.bind_some, h]
  dsimp only
  rw [if_neg (by omega)]

/-- The two files as `add_frames` opens them: where descriptor 3 was the last one used, both are `frame1.txt`. -/
theorem open_frames (buf : Int) (h2 : (s.pcblock.fileStruct 2).flags = 1)
    (hflags : ∀ d : Fin 8, 2 < d.val → (s.pcblock.fileStruct d).flags = 0) (h0 : NamesFile img frame0 i0)
    (h1 : NamesFile img frame1 i1) : ∃ s0 s1,
      (calls img buf).ece391Open frame0 (some s) = (some ((3 : Fin 8).val : Int), some s0) ∧
      (calls img buf).ece391Open frame1 (some s0) = (some ((4 : Fin 8).val : Int), some s1) ∧
      Left img 4 3 (some s1) (img.file (if s.fdVal = 3 then i1 else i0)) ∧ Left img 4 4 (some s1) (img.file i1) ∧
      (s1.pcblock.fileStruct 3).flags = 1 := by
  have hne2 : (s.pcblock.fileStruct 2).flags ≠ 0 := by
    rw [h2]
    decide
  obtain ⟨s0, hopen0, ho0⟩ := sysOpen_file (d := 3) (leastFree_of (by decide) (hflags 3 (by decide)) (by
    intro j hj hlt
    obtain rfl : j = 2 := by omega
    exact hne2)) h0
  obtain ⟨s1, hopen1, ho1⟩ := sysOpen_file (s := s0) (d := 4) (leastFree_of (by decide)
    ((congrArg FileStruct.flags (ho0.files 4 (by decide))).trans (hflags 4 (by decide))) (by
      intro j hj hlt
      have hj' : j = 2 ∨ j = 3 := by omega
      rcases hj' with rfl | rfl
      · rw [ho0.files 2 (by decide)]
        exact hne2
      · exact ho0.openAt.flags)) h1
  have hat3 : OpenAt img s1 3 (if s.fdVal = 3 then i1 else i0) 0 := by
    split_ifs with hv
    · have hstray := ho1.stray (i := i0) (p := 0)
      rw [ho0.fdVal, hv] at hstray
      exact hstray (by decide) ho0.openAt
    · exact ho1.others (by decide) (by rw [ho0.fdVal]; exact Ne.symm hv) ho0.openAt
  exact ⟨s0, s1, calls_open hopen0, calls_open hopen1, ⟨s1, _, 0, rfl, ho1.fdIndex, hat3, Nat.zero_le _, rfl⟩,
    ⟨s1, _, 0, rfl, ho1.fdIndex, ho1.openAt, Nat.zero_le _, rfl⟩, (congrArg FileStruct.flags (ho1.files 3 (by decide))).trans ho0.flag⟩

theorem calls_reads (hw : img.WellFormed) (hbuf : buf ≠ 0) {d e : Fin 8} (hne : e ≠ d) :
    Fish.Reads (calls img buf) d.val (Left img 4 d) (Left img 4 e) := by
  intro st text hleft
  obtain ⟨s, s', -, hread, hleft', hother, -⟩ := calls_read hw hbuf (show 1 ≤ 4096 by decide) hleft
  exact ⟨some s', hread, hleft', hother e hne⟩

/-- The two files are served as long as the first one has no fewer lines than the second one. -/
theorem serves_frames (hw : img.WellFormed) (hbuf : buf ≠ 0) (h2 : (s.pcblock.fileStruct 2).flags = 1)
    (hflags : ∀ d : Fin 8, 2 < d.val → (s.pcblock.fileStruct d).flags = 0) (h0 : NamesFile img frame0 i0)
    (h1 : NamesFile img frame1 i1)
    (hrows : ((img.file i1).splitOn 10).length ≤ ((img.file (if s.fdVal = 3 then i1 else i0)).splitOn 10).length) :
    Fish.Serves (calls img buf) frame0 frame1 (img.file (if s.fdVal = 3 then i1 else i0)) (img.file i1) (some s) := by
  obtain ⟨s0, s1, hopen0, hopen1, hleft0, hleft1, -⟩ := open_frames buf h2 hflags h0 h1
  refine ⟨_, _, _, _, _, _, hopen0, hopen1, hleft0, hleft1, calls_reads hw hbuf (by decide), calls_reads hw hbuf (by decide),
    fun hlt => absurd hlt (Nat.not_lt_of_le hrows), fun _ => ?_⟩
  intro st t hleft
  exact calls_close (by decide) (by decide) (by decide) hleft

/-- What is left of the second file while the first one is open. -/
def LeftBoth (img : Image) (st : Option Kernel) (text : List UInt8) : Prop :=
  Left img 4 4 st text ∧ ∃ s, st = some s ∧ (s.pcblock.fileStruct 3).flags = 1

/-- Descriptor 4 is open without a table, or a read of it has not come back. -/
def Lost (st : Option Kernel) : Prop :=
  ∀ s, st = some s → (s.pcblock.fileStruct 4).flags ≠ 0 ∧ (s.pcblock.fileStruct 4).fopsPtr = none

theorem loses_lost (hbuf : buf ≠ 0) : Fish.Loses (calls img buf) (4 : Fin 8).val Lost := by
  intro st hst
  refine ⟨none, ?_, fun _ hs => nomatch hs⟩
  show (match st.bind (sysRead img ((4 : Fin 8).val : Int) buf (1 : Nat)) with
    | some (.ret v, s) => (if v = -1 then none else some ((List.range v.toNat).map (s.userView buf)), some s)
    | _ => (none, none)) = _
  cases st with
  | none => rfl
  | some s =>
    obtain ⟨hflags, hfops⟩ := hst s rfl
    have hread : sysRead img ((4 : Fin 8).val : Int) buf (1 : Nat) s = none := by
      unfold sysRead
      rw [if_neg hbuf, checkFd_open hflags]
      simp only [hfops]
    rw [Option.bind_some, hread]

/-- The first file is closed, and the table of the second one cleared. -/
theorem close_loses {st : Option Kernel} {t : List UInt8} (h : LeftBoth img st t) :
    Lost ((calls img buf).ece391Close (3 : Fin 8).val st).2 := by
  obtain ⟨⟨s, inode, pos, rfl, hindex, hopen, -, -⟩, s', hs, hflag⟩ := h
  obtain rfl := Option.some.inj hs
  intro s' hs'
  obtain rfl := Option.some.inj hs'
  rcases sysClose_cases ((3 : Fin 8).val : Int) s with ⟨d, hd, -, -, v, hclose⟩ | ⟨hnot, -⟩
  · obtain rfl : d = 3 := Fin.ext (by exact_mod_cast hd.symm)
    rw [hclose]
    constructor
    · show ((s.pcblock.closed 3 s.fdIndex).fileStruct 4).flags ≠ 0
      rw [Pcb.closed_flags, if_neg (by decide)]
      exact hopen.flags
    · show ((s.pcblock.closed 3 s.fdIndex).fileStruct 4).fopsPtr = none
      rw [Pcb.closed_fopsPtr, hindex, if_pos (by decide)]
  · exact absurd hflag (hnot 3 rfl (by decide))

/-- With fewer lines in the first file `add_frames` does not come back. -/
theorem frames_lost (hw : img.WellFormed) (hbuf : buf ≠ 0) (h2 : (s.pcblock.fileStruct 2).flags = 1)
    (hflags : ∀ d : Fin 8, 2 < d.val → (s.pcblock.fileStruct d).flags = 0) (h0 : NamesFile img frame0 i0)
    (h1 : NamesFile img frame1 i1)
    (hrows : ((img.file (if s.fdVal = 3 then i1 else i0)).splitOn 10).length < ((img.file i1).splitOn 10).length)
    (local_ : BlinkStruct) (blink : Blink) {n : Nat}
    (hn : max (img.file (if s.fdVal = 3 then i1 else i0)).length (img.file i1).length + 1 < n) :
    Fish.addFrames (calls img buf) frame0 frame1 local_ n blink (some s) = none := by
  obtain ⟨s0, s1, hopen0, hopen1, hleft0, hleft1, hflag⟩ := open_frames buf h2 hflags h0 h1
  have hboth : Fish.Reads (calls img buf) (3 : Fin 8).val (Left img 4 3) (LeftBoth img) := by
    intro st text hleft
    obtain ⟨s, s', rfl, hread, hleft', hother, hkeeps⟩ := calls_read hw hbuf (show 1 ≤ 4096 by decide) hleft
    refine ⟨some s', hread, hleft', ?_⟩
    rintro t ⟨ht, s'', hs, hf⟩
    obtain rfl := Option.some.inj hs
    exact ⟨hother 4 (by decide) ht, s', rfl, (hkeeps 3).trans hf⟩
  have hboth' : Fish.Reads (calls img buf) (4 : Fin 8).val (LeftBoth img) (Left img 4 3) := by
    rintro st text ⟨hleft, s, rfl, hf⟩
    obtain ⟨s'', s', hs, hread, hleft', hother, hkeeps⟩ := calls_read hw hbuf (show 1 ≤ 4096 by decide) hleft
    obtain rfl := Option.some.inj hs
    exact ⟨some s', hread, ⟨hleft', s', rfl, (hkeeps 3).trans hf⟩, hother 3 (by decide)⟩
  exact Fish.addFrames_lost hopen0 hopen1 hleft0 ⟨hleft1, s1, rfl, hflag⟩ hboth hboth' (loses_lost hbuf) close_loses hrows
    local_ blink hn

end

/-- What a program finds when it starts: the argument of its line, two descriptors on the terminal, and the screen. -/
structure Entered (command : CString) (s0 s : Kernel) : Prop where
  argument : ∃ q, words command = some q ∧ s.pcblock.argName = q.argName ∧ s.pcblock.dataArgSize = q.dataArgSize
  fresh : Fresh s.pcblock.fileStruct
  fdVal : s.fdVal = s0.fdVal
  con : s.con = s0.con

theorem execute_programEntered {command : CString} {r : Regs} {s s' : Kernel} {eip : UInt32}
    (h : execute img (some command) r s = some (.enter eip, s')) : Entered command s s' := by
  obtain ⟨n, q, inode, d, fpos, -, hwords, -, rfl⟩ := execute_entered h
  cases fpos <;> exact ⟨⟨q, hwords, rfl, rfl⟩, freshFiles_fresh _, rfl, rfl⟩

/-- `fish` with a well-formed image, from its start on: when `frame0.txt` has no fewer lines than `frame1.txt` the two
pictures are read, and if they fit on the screen, from then on one of them is seen for 15 ticks and the other one for the
next 15, places 540 and 200 left out. With fewer lines the end of `frame0.txt` takes `frame1.txt` along and the program
hangs. Where the program before last used descriptor 3, `frame1.txt` is read in the place of both. -/
theorem fish_frames (hw : img.WellFormed) {command : CString} {r : Regs} {s0 s : Kernel} {eip : UInt32}
    (hstart : execute img (some command) r s0 = some (.enter eip, s)) {e : Dentry} (hrtc : img.named rtcName = some e)
    {i0 i1 : UInt32} (h0 : NamesFile img frame0 i0) (h1 : NamesFile img frame1 i1) {buf vmem : Int} (hbuf : buf ≠ 0)
    (hvmem : vmem ≠ 0 ∧ vmem ≠ 0x400000) :
    let text0 := img.file (if s0.fdVal = 3 then i1 else i0)
    let text1 := img.file i1
    ∃ s', fishStart img vmem s = some s' ∧
      ∀ (local0 : BlinkStruct) (screen : Nat → UInt8) (n : Nat), max text0.length text1.length + 1 < n →
        ((text1.splitOn 10).length ≤ (text0.splitOn 10).length →
          ∃ g, Fish.addFrames (calls img buf) frame0 frame1 local0 n (Blink.start screen) (some s') = some (some g) ∧
            (Fish.Fits text0 text1 → ∀ local1 ops, ops <+: Fish.mainOps local1 →
              ∃ b, Machine.run Blink.step g.blink ops = some b ∧
                Fish.Shows text0 text1 screen (ops.count .tasklet) b)) ∧
        ((text0.splitOn 10).length < (text1.splitOn 10).length →
          Fish.addFrames (calls img buf) frame0 frame1 local0 n (Blink.start screen) (some s') = none) := by
  intro text0 text1
  have hentered := execute_programEntered hstart
  obtain ⟨s', hs', hval, h2, hflags⟩ := fishStart_fresh hentered.fresh hrtc hvmem
  have hv : s'.fdVal = s0.fdVal := hval.trans hentered.fdVal
  refine ⟨s', hs', fun local0 screen n hn => ⟨fun hrows => ?_, fun hrows => ?_⟩⟩
  · have hserves := serves_frames hw hbuf h2 hflags h0 h1 (by rw [hv]; exact hrows)
    rw [hv] at hserves
    obtain ⟨g, hg, hblink⟩ := Fish.addFrames_spec hserves local0 (Blink.start screen) hn
    refine ⟨g, hg, fun hfits local1 ops hops => ?_⟩
    rw [hblink]
    exact Fish.draw_shows hfits local0 local1 screen hops
  · exact frames_lost hw hbuf h2 hflags h0 h1 (by rw [hv]; exact hrows) local0 _ (by rw [hv]; exact hn)

/-- An image with `fish`, its two pictures of a few characters, and the clock. -/
def aquarium : Image := .ofPieces [
  (0, [4, 0, 0, 0, 4, 0, 0, 0, 3]),
  (64, ascii ['f', 'i', 's', 'h']), (96, [2, 0, 0, 0, 0]),
  (128, ascii ['f', 'r', 'a', 'm', 'e', '0', '.', 't', 'x', 't']), (160, [2, 0, 0, 0, 1]),
  (192, ascii ['f', 'r', 'a', 'm', 'e', '1', '.', 't', 'x', 't']), (224, [2, 0, 0, 0, 2]),
  (256, ascii ['r', 't', 'c']), (288, [0]),
  -- inodes 0 to 2: lengths 40, 3 and 2, each with the data block of its number
  (4096, [40]), (8192, [3, 0, 0, 0, 1]), (12288, [2, 0, 0, 0, 2]),
  (20480, [0x7f, 0x45, 0x4c, 0x46]), (24576, [65, 10, 66]), (28672, [67, 68])]

theorem aquarium_wellFormed : aquarium.WellFormed := by
  have hinode : ∀ inode : UInt32, inode < aquarium.numInodes - 1 → inode = 0 ∨ inode = 1 ∨ inode = 2 := by
    intro inode hlt
    have hnum : aquarium.numInodes - 1 = 3 := by decide +kernel
    rw [hnum] at hlt
    have hlt' : inode.toNat < 3 := UInt32.lt_iff_toNat_lt.1 hlt
    have hcases : inode.toNat = 0 ∨ inode.toNat = 1 ∨ inode.toNat = 2 := by omega
    exact hcases.imp UInt32.toNat_inj.1 (Or.imp UInt32.toNat_inj.1 UInt32.toNat_inj.1)
  have hlength : (aquarium.dataLength 0).toNat = 40 ∧ (aquarium.dataLength 1).toNat = 3 ∧
      (aquarium.dataLength 2).toNat = 2 := by decide +kernel
  constructor
  · intro inode hlt
    unfold Image.maxBlocks Image.oneBlockSize
    rcases hinode inode hlt with rfl | rfl | rfl <;> omega
  · intro inode hlt i hi
    unfold Image.oneBlockSize at hi
    rcases hinode inode hlt with rfl | rfl | rfl <;> obtain rfl : i = 0 := by omega
    all_goals decide +kernel

/-- `fish` started as the first program. -/
def firstFish : Kernel := ((execute aquarium (some fish) ⟨0, 0⟩ boot).getD (.handled, boot)).2

theorem execute_firstFish : execute aquarium (some fish) ⟨0, 0⟩ boot = some (.enter 0, firstFish) :=
  eq_some_of_fst _ (by decide +kernel)

theorem file_aquarium : aquarium.file 1 = [65, 10, 66] ∧ aquarium.file 2 = [67, 68] := by decide +kernel

theorem fits_aquarium : Fish.Fits [65, 10, 66] [67, 68] := by
  intro row col hink
  have hpictures : Fish.pictures [65, 10, 66] [67, 68] = [⟨0, 0, 65, 67⟩, ⟨0, 1, 32, 68⟩, ⟨1, 0, 66, 32⟩] := by decide +kernel
  have hmem : (⟨row, col, _, _⟩ : Fish.Cell) ∈ Fish.pictures [65, 10, 66] [67, 68] :=
    Fish.mem_pictures.2 ⟨rfl, rfl, not_and_or.2 hink⟩
  rw [hpictures] at hmem
  simp only [List.mem_cons, Fish.Cell.mk.injEq, List.not_mem_nil, or_false] at hmem
  omega

/-- After 20 tasklets the second picture is seen. -/
theorem fish_frames_aquarium :
    ∃ s' g b, fishStart aquarium 1 firstFish = some s' ∧
      Fish.addFrames (calls aquarium 1) frame0 frame1 Blink.zeroNode.toBlinkStruct 5 (Blink.start fun _ => 32) (some s') =
        some (some g) ∧
      Machine.run Blink.step g.blink (List.replicate 20 .tasklet) = some b ∧
      Fish.Shows [65, 10, 66] [67, 68] (fun _ => 32) 20 b := by
  obtain ⟨s', hs', hall⟩ := fish_frames aquarium_wellFormed execute_firstFish
    (show aquarium.named rtcName = some (aquarium.dentryAt 3) by decide +kernel)
    (show NamesFile aquarium frame0 1 from ⟨aquarium.dentryAt 1, by decide +kernel⟩)
    (show NamesFile aquarium frame1 2 from ⟨aquarium.dentryAt 2, by decide +kernel⟩)
    (show (1 : Int) ≠ 0 by decide) (show (1 : Int) ≠ 0 ∧ (1 : Int) ≠ 0x400000 by decide)
  have hval : boot.fdVal ≠ 3 := by decide
  rw [if_neg hval, file_aquarium.1, file_aquarium.2] at hall
  obtain ⟨g, hg, hshows⟩ := (hall Blink.zeroNode.toBlinkStruct (fun _ => 32) 5 (by decide)).1 (by decide)
  have hprefix : List.replicate 20 Blink.Op.tasklet <+: Fish.mainOps Blink.zeroNode.toBlinkStruct :=
    List.take_prefix 20 (Fish.mainOps Blink.zeroNode.toBlinkStruct)
  obtain ⟨b, hb, hb'⟩ := hshows fits_aquarium _ _ hprefix
  exact ⟨s', g, b, hs', hg, hb, hb'⟩

end Kernel

end Os391
