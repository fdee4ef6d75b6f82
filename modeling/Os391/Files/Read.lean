/-
Reading open files piece by piece. Reads of at most one block are exact, each read moves the position
of its own descriptor, and so the reads of a descriptor give its file from the start, in order,
however they are mixed with reads of other descriptors.
-/
import Os391.Base.Streams
import Os391.Files.Data
import Os391.Files.Spec
import Os391.Kernel.Terminal

namespace Os391

open Bytes

namespace Image

variable {img : Image} {inode : UInt32}

/-- The bytes of a file. -/
def file (img : Image) (inode : UInt32) : List UInt8 :=
  (List.range (img.dataLength inode).toNat).map (img.fileByte inode)

@[simp] theorem file_length : (img.file inode).length = (img.dataLength inode).toNat := by
  simp [file]

/-- The bytes of a file from a position on, no more than asked for. -/
theorem file_piece (pos n : Nat) : ((img.file inode).drop pos).take n =
    (List.range (min n ((img.dataLength inode).toNat - pos))).map fun k => img.fileByte inode (pos + k) := by
  apply List.ext_getElem
  · simp
  · intro k h1 h2
    simp [file]

theorem file_drop_min (n : Nat) :
    (img.file inode).drop (min n (img.dataLength inode).toNat) = (img.file inode).drop n := by
  have hlen := @file_length img inode
  rw [← hlen]
  rcases Nat.le_total n (img.file inode).length with h | h
  · rw [Nat.min_eq_left h]
  · rw [Nat.min_eq_right h, List.drop_length, List.drop_eq_nil_of_le h]

/-- A read of at most one block inside the file or at its end: the bytes it stores, its result and
the position it leaves. -/
theorem readData_piece {pos nbytes : Nat} {offset : UInt32} (buf : Buf) (hw : img.WellFormed)
    (hi : inode < img.numInodes - 1) (ho : offset.toNat = pos) (hpos : pos ≤ (img.dataLength inode).toNat)
    (hn : nbytes ≤ oneBlockSize) :
    let piece := ((img.file inode).drop pos).take nbytes
    let r := img.readData inode offset buf (UInt32.ofNat nbytes)
    r.ret = piece.length ∧ (List.range piece.length).map r.buf = piece ∧
      (r.fpos.getD offset).toNat = pos + piece.length := by
  have hlen : (img.dataLength inode).toNat ≤ 1023 * 4096 := hw.length inode hi
  have hn' : nbytes ≤ 4096 := hn
  have hcast : (UInt32.ofNat nbytes).toNat = nbytes := by
    rw [UInt32.toNat_ofNat', Nat.mod_eq_of_lt (by omega)]
  intro piece r
  have hp : piece.length = min nbytes ((img.dataLength inode).toNat - pos) := by
    simp only [piece, List.length_take, List.length_drop, file_length]
  by_cases hend : offset < img.dataLength inode
  · have hsum : offset.toNat + (UInt32.ofNat nbytes).toNat < 2 ^ 32 := by rw [hcast]; omega
    obtain ⟨rval, hr, heq⟩ := readData_copies buf hi hend hsum
    have hfew : FewBlocks offset.toNat (available (img.dataLength inode) offset (UInt32.ofNat nbytes)) := by
      left
      have hmod := Nat.mod_lt offset.toNat (show 0 < oneBlockSize by decide)
      unfold available
      rw [hcast]
      unfold oneBlockSize at *
      omega
    have hexact := readData_exact buf hi hlen hend hsum hfew
    have hrp : rval.toNat = piece.length := by
      rw [hr, hp, available, hcast, ho]
    refine ⟨?_, ?_, ?_⟩
    · show (img.readData inode offset buf (UInt32.ofNat nbytes)).ret = _
      rw [heq, ← hrp]
      exact BitVec.toInt_eq_toNat_of_lt (by show 2 * rval.toNat < 2 ^ 32; omega)
    · show _ = ((img.file inode).drop pos).take nbytes
      rw [file_piece, ← hp]
      apply List.map_congr_left
      intro k hk
      rw [← ho]
      exact hexact k (by rw [← hr, hrp]; exact List.mem_range.1 hk)
    · show ((img.readData inode offset buf (UInt32.ofNat nbytes)).fpos.getD offset).toNat = _
      rw [heq]
      show (offset + rval).toNat = _
      rw [UInt32.toNat_add, ho, hrp, Nat.mod_eq_of_lt (by omega)]
  · have hge := UInt32.le_iff_toNat_le.1 (UInt32.not_lt.1 hend)
    have h0 : piece = [] := List.eq_nil_of_length_eq_zero (by omega)
    have heq : img.readData inode offset buf (UInt32.ofNat nbytes) = ⟨0, zero buf (UInt32.ofNat nbytes).toNat, none⟩ := by
      unfold readData
      simp only
      rw [if_pos (UInt32.not_lt.1 hend)]
    simp only [r, heq, h0]
    exact ⟨rfl, rfl, ho⟩

end Image

namespace Kernel

variable {img : Image}

/-! ## One read -/

/-- Descriptor `d` is open on the regular file of an inode, at a position. -/
structure OpenAt (img : Image) (s : Kernel) (d : Fin 8) (inode : UInt32) (pos : Nat) : Prop where
  flags : (s.pcblock.fileStruct d).flags ≠ 0
  fopsPtr : (s.pcblock.fileStruct d).fopsPtr = some .filesystemFops
  fileType : (s.pcblock.dentry d).fileType = 2
  inodeNumber : (s.pcblock.dentry d).inodeNumber = inode
  numInodes : inode < img.numInodes - 1
  fpos : (s.pcblock.fileStruct d).fpos.toNat = pos

/-- A read of one descriptor: the call's arguments. -/
structure ReadCall where
  fd : Fin 8
  buf : Int
  nbytes : Nat

/-- What a read came back with: its result and the bytes it stored, as many as the result says. -/
structure Reply where
  ret : Int
  bytes : List UInt8

/-- The reply to a read that gets a piece of a file. -/
def Reply.ofPiece (piece : List UInt8) : Reply := ⟨piece.length, piece⟩

/-- One `read`, with the bytes found in the buffer when it comes back. -/
def readCall (img : Image) (s : Kernel) (q : ReadCall) : Option (Reply × Kernel) :=
  match sysRead img q.fd.val q.buf q.nbytes s with
  | some (.ret v, s') => some (⟨v, (List.range v.toNat).map (s'.userView q.buf)⟩, s')
  | _ => none

/-- A sequence of reads: their replies and the state they leave. -/
def readCalls (img : Image) : Kernel → List ReadCall → Option (List Reply × Kernel)
  | s, [] => some ([], s)
  | s, q :: qs => do
    let r ← readCall img s q
    let rs ← readCalls img r.2 qs
    return (r.1 :: rs.1, rs.2)

theorem checkFd_open {s : Kernel} {d : Fin 8} {n : Nat} (h : (s.pcblock.fileStruct d).flags ≠ 0) :
    checkFd d.val n s = some d := by
  unfold checkFd
  have hd : (⟨(d.val : Int).toNat, by omega⟩ : Fin 8) = d := Fin.ext (by simp)
  rw [dif_pos (by omega), hd, if_neg]
  rintro (h0 | h0)
  · exact h h0
  · omega

theorem readCall_of_sysRead {s s' : Kernel} {q : ReadCall} {n : Nat} {f : Buf}
    (h : sysRead img q.fd.val q.buf q.nbytes s = some (.ret n, s')) (hview : ∀ k, k < n → s'.userView q.buf k = f k) :
    readCall img s q = some (Reply.ofPiece ((List.range n).map f), s') := by
  have hbytes : (List.range n).map (s'.userView q.buf) = (List.range n).map f :=
    List.map_congr_left fun k hk => hview k (List.mem_range.1 hk)
  unfold readCall
  rw [h]
  simp only [Int.toNat_natCast, hbytes]
  simp [Reply.ofPiece]

theorem storeFpos_eq (s : Kernel) (p : Option UInt32) : s.storeFpos p =
    { s with pcblock := s.pcblock.setFile s.fdVal fun f => { f with fpos := p.getD f.fpos } } := by
  cases p with
  | none => simp [storeFpos, Pcb.setFile]
  | some v => rfl

/-- A read of an open file gives the next piece of it and moves the descriptor's position past it;
every other descriptor stays as it is. -/
theorem readCall_open {s : Kernel} {q : ReadCall} {inode : UInt32} {pos : Nat} (hw : img.WellFormed)
    (h : OpenAt img s q.fd inode pos) (hpos : pos ≤ (img.dataLength inode).toNat) (hbuf : q.buf ≠ 0)
    (hn : q.nbytes ≤ 4096) :
    let piece := ((img.file inode).drop pos).take q.nbytes
    ∃ s', readCall img s q = some (⟨piece.length, piece⟩, s') ∧ OpenAt img s' q.fd inode (pos + piece.length) ∧
      ∀ d i p, d ≠ q.fd → OpenAt img s d i p → OpenAt img s' d i p := by
  intro piece
  obtain ⟨hret, hbytes, hfpos⟩ := Image.readData_piece (({ s with fdVal := q.fd } : Kernel).userView q.buf) hw
    h.numInodes h.fpos hpos hn
  have hle : piece.length ≤ q.nbytes := by
    simp only [piece, List.length_take]
    omega
  generalize hr : img.readData inode (s.pcblock.fileStruct q.fd).fpos
    (({ s with fdVal := q.fd } : Kernel).userView q.buf) (UInt32.ofNat q.nbytes) = r at hret hbytes hfpos
  let s' : Kernel := { s.userPut q.buf q.nbytes r.buf with
    fdVal := q.fd, pcblock := s.pcblock.setFile q.fd fun f => { f with fpos := r.fpos.getD f.fpos } }
  have hread : sysRead img q.fd.val q.buf q.nbytes s = some (.ret r.ret, s') := by
    unfold sysRead
    rw [if_neg hbuf, checkFd_open h.flags]
    simp only [h.fopsPtr]
    unfold filesystemRead
    simp only [h.fileType, h.inodeNumber, Int.toNat_natCast]
    rw [if_neg (by decide), hr, storeFpos_eq]
    rfl
  refine ⟨s', ?_, ?_, ?_⟩
  · rw [hret] at hread
    rw [readCall_of_sysRead (f := r.buf) hread, hbytes]
    · rfl
    · intro k hk
      exact userView_userPut s q.buf r.buf (lt_of_lt_of_le hk hle)
  · have hself : s'.pcblock.fileStruct q.fd = { s.pcblock.fileStruct q.fd with
        fpos := r.fpos.getD (s.pcblock.fileStruct q.fd).fpos } := Function.update_self ..
    exact ⟨by rw [hself]; exact h.flags, by rw [hself]; exact h.fopsPtr, h.fileType, h.inodeNumber, h.numInodes,
      by rw [hself]; exact hfpos⟩
  · intro d i p hd ho
    have hsame : s'.pcblock.fileStruct d = s.pcblock.fileStruct d := Function.update_of_ne hd _ _
    exact ⟨by rw [hsame]; exact ho.flags, by rw [hsame]; exact ho.fopsPtr, ho.fileType, ho.inodeNumber, ho.numInodes,
      by rw [hsame]; exact ho.fpos⟩

/-! ## Sequences of reads -/

/-- The stream a read takes from and how much it asks for. -/
def ReadCall.request (q : ReadCall) : Fin 8 × Nat := (q.fd, q.nbytes)

section

variable {S : Finset (Fin 8)} {inode : Fin 8 → UInt32}

/-- A sequence of reads serves each descriptor from its own file. -/
theorem readCalls_serve (hw : img.WellFormed) : ∀ {qs : List ReadCall} {s : Kernel} {pos : Fin 8 → Nat},
    (∀ d ∈ S, OpenAt img s d (inode d) (pos d) ∧ pos d ≤ (img.dataLength (inode d)).toNat) →
    (∀ q ∈ qs, q.fd ∈ S ∧ q.buf ≠ 0 ∧ q.nbytes ≤ 4096) →
    ∃ s', readCalls img s qs = some ((Streams.serve (fun d => (img.file (inode d)).drop (pos d))
        (qs.map ReadCall.request)).map Reply.ofPiece, s') ∧
      ∀ d ∈ S, OpenAt img s' d (inode d)
        (min (pos d + Streams.asked d (qs.map ReadCall.request)) (img.dataLength (inode d)).toNat)
  | [], s, pos, hs, _ => by
    refine ⟨s, rfl, ?_⟩
    intro d hd
    rw [List.map_nil, Streams.asked, Nat.add_zero, Nat.min_eq_left (hs d hd).2]
    exact (hs d hd).1
  | q :: qs, s, pos, hs, hq => by
    obtain ⟨hfd, hbuf, hn⟩ := hq q (List.mem_cons_self ..)
    obtain ⟨s1, h1, h2, h3⟩ := readCall_open hw (hs q.fd hfd).1 (hs q.fd hfd).2 hbuf hn
    let pos' := Function.update pos q.fd (min (pos q.fd + q.nbytes) (img.dataLength (inode q.fd)).toNat)
    have hmoved : pos q.fd + (((img.file (inode q.fd)).drop (pos q.fd)).take q.nbytes).length = pos' q.fd := by
      have := (hs q.fd hfd).2
      simp only [pos', Function.update_self, List.length_take, List.length_drop, Image.file_length]
      omega
    have hs' : ∀ d ∈ S, OpenAt img s1 d (inode d) (pos' d) ∧ pos' d ≤ (img.dataLength (inode d)).toNat := by
      intro d hd
      by_cases hdq : d = q.fd
      · subst hdq
        refine ⟨hmoved ▸ h2, ?_⟩
        simp only [pos', Function.update_self]
        omega
      · simp only [pos', Function.update_of_ne hdq]
        exact ⟨h3 d _ _ hdq (hs d hd).1, (hs d hd).2⟩
    obtain ⟨s', h4, h5⟩ := readCalls_serve hw hs' fun p hp => hq p (List.mem_cons_of_mem _ hp)
    have hrest : (fun d => (img.file (inode d)).drop (pos' d)) =
        Function.update (fun d => (img.file (inode d)).drop (pos d)) q.fd
          (((img.file (inode q.fd)).drop (pos q.fd)).drop q.nbytes) := by
      funext d
      by_cases hdq : d = q.fd
      · subst hdq
        simp only [pos', Function.update_self, List.drop_drop]
        exact Image.file_drop_min _
      · simp only [pos', Function.update_of_ne hdq]
    refine ⟨s', ?_, ?_⟩
    · rw [readCalls, h1]
      simp only [bind, Option.bind_some, h4, pure]
      rw [hrest]
      rfl
    · intro d hd
      have hpos : min (pos' d + Streams.asked d (qs.map ReadCall.request)) (img.dataLength (inode d)).toNat =
          min (pos d + Streams.asked d ((q :: qs).map ReadCall.request)) (img.dataLength (inode d)).toNat := by
        rw [List.map_cons, Streams.asked]
        by_cases hdq : d = q.fd
        · subst hdq
          simp only [pos', Function.update_self, ReadCall.request, if_true]
          omega
        · rw [if_neg (show q.request.1 ≠ d from Ne.symm hdq), Nat.zero_add]
          simp only [pos', Function.update_of_ne hdq]
      exact hpos ▸ h5 d hd

end

/-- Descriptors 2 and 3 open on the file of inode 0. -/
def twoReaders : Kernel :=
  { boot with pcblock := { boot.pcblock with
      fileStruct := fun _ => ⟨some .filesystemFops, 0, 1⟩
      dentry := fun _ => ⟨fun _ => 0, 2, 0, fun _ => 0⟩ } }

end Kernel

end Os391
