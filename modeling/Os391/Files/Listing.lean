/-
Reading the directory. Successive reads of a directory descriptor list the names of its entries only where
the directory ends with an entry that is no device, and a read stores a name however many bytes were asked
for.
-/
import Os391.Base.Padded
import Os391.Files.Directory
import Os391.Files.Read

namespace Os391

open Bytes

namespace Kernel

variable {img : Image}

/-! ## One directory read -/

/-- Descriptor `d` is open on the directory, at a position. -/
structure DirAt (s : Kernel) (d : Fin 8) (pos : Nat) : Prop where
  flags : (s.pcblock.fileStruct d).flags ≠ 0
  fopsPtr : (s.pcblock.fileStruct d).fopsPtr = some .filesystemFops
  fileType : (s.pcblock.dentry d).fileType = 1
  fpos : (s.pcblock.fileStruct d).fpos.toNat = pos

/-- A read of the directory is a `dirread`, whatever number of bytes it asks for. -/
theorem sysRead_dirread (img : Image) {s : Kernel} {d : Fin 8} {pos : Nat} {buf : Int} (nbytes : Nat)
    (h : DirAt s d pos) (hbuf : buf ≠ 0) :
    sysRead img d.val buf nbytes s =
      (img.dirread (s.pcblock.fileStruct d).fpos (s.userView buf)).map fun r => (.ret r.1,
        { ({ s with fdVal := d } : Kernel).userPut buf r.1.toNat r.2.1 with
          pcblock := s.pcblock.setFile d fun f => { f with fpos := r.2.2 } }) := by
  unfold sysRead
  rw [if_neg hbuf, checkFd_open h.flags]
  simp only [h.fopsPtr, Int.toNat_natCast]
  unfold filesystemRead
  simp only [h.fileType, if_true]
  rfl

theorem readCall_dirread (img : Image) {s : Kernel} {q : ReadCall} {pos : Nat} (h : DirAt s q.fd pos) (hbuf : q.buf ≠ 0) :
    let fpos := (s.pcblock.fileStruct q.fd).fpos
    (img.dirread fpos (s.userView q.buf) = none → readCall img s q = none) ∧
      ∀ (n : Nat) (f : Buf) (p : UInt32), img.dirread fpos (s.userView q.buf) = some ((n : Int), f, p) →
        ∃ s', readCall img s q = some (Reply.ofPiece ((List.range n).map f), s') ∧ DirAt s' q.fd p.toNat := by
  have hread := sysRead_dirread img q.nbytes h hbuf
  refine ⟨?_, ?_⟩
  · intro hnone
    unfold readCall
    rw [hread, hnone]
    rfl
  · intro n f p hsome
    let s' : Kernel := { ({ s with fdVal := q.fd } : Kernel).userPut q.buf n f with
      pcblock := s.pcblock.setFile q.fd fun f => { f with fpos := p } }
    refine ⟨s', ?_, ?_⟩
    · apply readCall_of_sysRead
      · rw [hread, hsome]
        rfl
      · intro k hk
        exact userView_userPut { s with fdVal := q.fd } q.buf f hk
    · have hself : s'.pcblock.fileStruct q.fd = { s.pcblock.fileStruct q.fd with fpos := p } := Function.update_self ..
      exact ⟨by rw [hself]; exact h.flags, by rw [hself]; exact h.fopsPtr, h.fileType, by rw [hself]⟩

/-- A read in a directory that ends with a listed entry. -/
theorem readCall_listed {s : Kernel} {q : ReadCall} {pos : Nat} (hl : img.EndsListed) (h : DirAt s q.fd pos)
    (hp : pos ≤ img.numDirEntries.toNat) (hbuf : q.buf ≠ 0) :
    (img.entriesFrom pos = [] ∧ ∃ s', readCall img s q = some (Reply.ofPiece [], s') ∧ DirAt s' q.fd pos) ∨
    ∃ k ks, img.entriesFrom pos = k :: ks ∧
      ((img.entryString k = none ∧ readCall img s q = none) ∨
        ∃ str s', img.entryString k = some str ∧ readCall img s q = some (Reply.ofPiece str, s') ∧
          DirAt s' q.fd (k + 1)) := by
  obtain ⟨hnone, hsome⟩ := readCall_dirread img h hbuf
  have hfpos := h.fpos
  generalize (s.pcblock.fileStruct q.fd).fpos = fpos at hnone hsome hfpos
  subst hfpos
  rcases img.dirread_eq (s.userView q.buf) hl hp with ⟨h1, -, -, h2⟩ | ⟨k, ks, h1, -, h2⟩
  · obtain ⟨s', h3, h4⟩ := hsome 0 _ _ h2
    exact Or.inl ⟨h1, s', h3, h4⟩
  · refine Or.inr ⟨k, ks, h1, ?_⟩
    have hk := (Image.entriesFrom_cons hp h1).2.1
    have hnum := img.numDirEntries.toNat_lt
    unfold Image.entryString
    rcases hn : img.nameLen k 0 (2 ^ 32) with _ | n <;> rw [hn] at h2
    · exact Or.inl ⟨rfl, hnone h2⟩
    · obtain ⟨s', h3, h4⟩ := hsome n _ _ h2
      refine Or.inr ⟨_, s', rfl, ?_, ?_⟩
      · rw [h3]
        congr 3
        apply List.map_congr_left
        intro j hj
        rw [copy, if_pos ⟨Nat.zero_le _, by simpa using List.mem_range.1 hj⟩, Nat.sub_zero]
      · rwa [UInt32.toNat_ofNat_of_lt' (by show k + 1 < 2 ^ 32; omega)] at h4

/-! ## Successive reads -/

/-- Reads of one directory descriptor, each with a buffer. -/
def DirReads (d : Fin 8) (qs : List ReadCall) : Prop := ∀ q ∈ qs, q.fd = d ∧ q.buf ≠ 0

/-- Successive reads give the strings of the entries listed from the position on, then nothing. -/
theorem readCalls_listed {d : Fin 8} (hl : img.EndsListed) {g : Nat → List UInt8} :
    ∀ {qs : List ReadCall} {s : Kernel} {pos : Nat}, DirReads d qs → DirAt s d pos → pos ≤ img.numDirEntries.toNat →
      (∀ k ∈ img.entriesFrom pos, img.entryString k = some (g k)) →
      ∃ s', readCalls img s qs = some ((List.range qs.length).map fun i =>
          Reply.ofPiece (((img.entriesFrom pos).map g).getD i []), s') ∧
        ∃ pos', pos' ≤ img.numDirEntries.toNat ∧ DirAt s' d pos'
  | [], s, pos, _, hs, hp, _ => ⟨s, rfl, pos, hp, hs⟩
  | q :: qs, s, pos, hq, hs, hp, hg => by
    obtain ⟨rfl, hbuf⟩ := hq q (List.mem_cons_self ..)
    have hqs : DirReads q.fd qs := fun p hm => hq p (List.mem_cons_of_mem _ hm)
    rcases readCall_listed hl hs hp hbuf with ⟨h0, s1, h1, h2⟩ | ⟨k, ks, hk, hread⟩
    · obtain ⟨s', h3, h4⟩ := readCalls_listed hl hqs h2 hp hg
      refine ⟨s', ?_, h4⟩
      rw [readCalls, h1]
      simp only [bind, Option.bind_some, h3, pure, h0]
      simp [List.range_succ_eq_map, Function.comp_def]
    · obtain ⟨-, hlt, -, -, hks⟩ := Image.entriesFrom_cons hp hk
      have hgk := hg k (by rw [hk]; exact List.mem_cons_self ..)
      rcases hread with ⟨hnone, -⟩ | ⟨str, s1, hstr, h1, h2⟩
      · rw [hnone] at hgk
        cases hgk
      · obtain rfl : str = g k := Option.some.inj (hstr.symm.trans hgk)
        obtain ⟨s', h3, h4⟩ := readCalls_listed hl (g := g) hqs h2 hlt fun j hj =>
          hg j (by rw [hk, hks]; exact List.mem_cons_of_mem _ hj)
        refine ⟨s', ?_, h4⟩
        rw [readCalls, h1]
        simp only [bind, Option.bind_some, h3, pure, hk, ← hks]
        simp [List.range_succ_eq_map]

/-- Successive reads of a freshly opened directory give the names of the entries that are no devices,
in order, and then 0; every call comes back, and none looks past the last entry. -/
def ListsDirectory (img : Image) : Prop :=
  ∀ (s : Kernel) (d : Fin 8), DirAt s d 0 → ∀ qs, DirReads d qs →
    ∃ rs s', readCalls img s qs = some (rs, s') ∧
      rs = ((List.range qs.length).map fun i => Reply.ofPiece (img.names.getD i [])) ∧
      -- the entries the next read looks at
      ∀ x ∈ img.examined (s'.pcblock.fileStruct d).fpos, x < img.numDirEntries

/-- The directories for which that is so. A device entry is not the last one, the names end inside
their entries, and no entry hides from the loop by a type whose low byte is zero, unless there are only
empty names from it on. -/
structure Listable (img : Image) : Prop where
  ends : img.EndsListed
  terminated : ∀ k, k < img.numDirEntries.toNat → img.stopsAt k = true → img.Terminated k
  types : ∀ k j, k ≤ j → j < img.numDirEntries.toNat → img.isListed k = true → img.stopsAt k = false →
    img.isListed j = true → img.entryName j = []

theorem entriesFrom_zero (img : Image) :
    img.entriesFrom 0 = ((List.range img.numDirEntries.toNat).filter img.isListed).filter img.stopsAt := by
  rw [List.filter_filter, Image.entriesFrom, Nat.sub_zero, List.range_eq_range']
  apply List.filter_congr
  intro k _
  rcases hk : img.stopsAt k with _ | _
  · rfl
  · rw [Image.isListed_of_stopsAt hk]
    rfl

/-- The condition on the types, as a condition on the list of entries. -/
theorem onlyAfter_iff (img : Image) :
    Padded.OnlyAfter img.stopsAt img.entryName [] ((List.range img.numDirEntries.toNat).filter img.isListed) ↔
    ∀ k j, k ≤ j → j < img.numDirEntries.toNat → img.isListed k = true → img.stopsAt k = false →
      img.isListed j = true → img.entryName j = [] := by
  unfold Padded.OnlyAfter
  rw [List.pairwise_filter, List.pairwise_iff_getElem]
  constructor
  · rintro ⟨h1, h2⟩ k j hkj hj hk hs hlj
    rcases Nat.eq_or_lt_of_le hkj with rfl | hlt
    · exact h2 k (List.mem_filter.2 ⟨List.mem_range.2 hj, hk⟩) hs
    · have h := h1 k j (by simpa using hlt.trans hj) (by simpa using hj) hlt
      simp only [List.getElem_range] at h
      exact h hk hlj hs
  · intro h
    constructor
    · intro i j hi hj hij hli hlj hs
      simp only [List.getElem_range] at hli hlj hs ⊢
      exact h i j (Nat.le_of_lt hij) (by simpa using hj) hli hs hlj
    · intro k hk hs
      obtain ⟨hr, hlk⟩ := List.mem_filter.1 hk
      exact h k k (le_refl _) (List.mem_range.1 hr) hlk hs hlk

/-- A listable directory is listed. -/
theorem Listable.lists (h : Listable img) : ListsDirectory img := by
  intro s d hs qs hqs
  have hmem : ∀ k ∈ img.entriesFrom 0, k < img.numDirEntries.toNat ∧ img.stopsAt k = true := by
    intro k hk
    rw [entriesFrom_zero] at hk
    obtain ⟨hk', hstop⟩ := List.mem_filter.1 hk
    exact ⟨List.mem_range.1 (List.mem_filter.1 hk').1, hstop⟩
  obtain ⟨s', h1, pos, hpos, h2⟩ := readCalls_listed h.ends (g := img.entryName) hqs hs (Nat.zero_le _) fun k hk =>
    Image.entryString_of_terminated (h.terminated k (hmem k hk).1 (hmem k hk).2)
  refine ⟨_, s', h1, ?_, ?_⟩
  · apply List.map_congr_left
    intro i _
    rw [entriesFrom_zero, Padded.filter_getD_iff.2 ((onlyAfter_iff img).2 h.types) i]
    rfl
  · intro x hx
    have hp : (s'.pcblock.fileStruct d).fpos.toNat ≤ img.numDirEntries.toNat := by
      rw [h2.fpos]
      exact hpos
    apply UInt32.lt_iff_toNat_lt.2
    rcases img.dirread_eq (fun _ => 0) h.ends hp with ⟨-, -, h3, -⟩ | ⟨k, ks, hk, h3, -⟩
    · rw [h3] at hx
      cases hx
    · exact lt_of_le_of_lt (h3 x hx) (Image.entriesFrom_cons hp hk).2.1

/-- Descriptor 2 freshly opened on the directory. -/
def dirReader : Kernel :=
  { boot with pcblock := { boot.pcblock with
      fileStruct := fun _ => ⟨some .filesystemFops, 0, 1⟩
      dentry := fun _ => ⟨fun _ => 0, 1, 0, fun _ => 0⟩ } }

theorem dirReader_dirAt : DirAt dirReader 2 0 := ⟨by show (1 : UInt32) ≠ 0; decide, rfl, rfl, rfl⟩

/-- Reads of that descriptor. -/
def dirReads (n : Nat) : List ReadCall := List.replicate n ⟨2, 1, 33⟩

theorem dirReads_dirReads (n : Nat) : DirReads 2 (dirReads n) := by
  intro q hq
  rw [List.eq_of_mem_replicate hq]
  exact ⟨rfl, by decide⟩

theorem readCalls_append {rs : List Reply} {s1 : Kernel} {q : ReadCall} : ∀ {qs : List ReadCall} {s : Kernel}
    {rs' : List Reply} {s' : Kernel}, readCalls img s (qs ++ [q]) = some (rs, s1) →
    readCalls img s qs = some (rs', s') → ∃ r, readCall img s' q = some (r, s1)
  | [], s, rs', s', h, h' => by
    cases h'
    rw [List.nil_append, readCalls] at h
    obtain ⟨r, hr, h⟩ := Option.bind_eq_some_iff.1 h
    cases h
    exact ⟨r.1, hr⟩
  | p :: qs, s, rs', s', h, h' => by
    rw [List.cons_append, readCalls] at h
    rw [readCalls] at h'
    obtain ⟨r, hr, h⟩ := Option.bind_eq_some_iff.1 h
    obtain ⟨r', hr', h'⟩ := Option.bind_eq_some_iff.1 h'
    obtain rfl : r = r' := Option.some.inj (hr.symm.trans hr')
    obtain ⟨x, hx, h⟩ := Option.bind_eq_some_iff.1 h
    obtain ⟨x', hx', h'⟩ := Option.bind_eq_some_iff.1 h'
    cases h
    cases h'
    exact readCalls_append hx hx'

/-- A directory that is listed ends with a listed entry: otherwise the search goes past the end. -/
theorem ListsDirectory.ends (h : ListsDirectory img) : img.EndsListed := by
  by_contra hn
  obtain ⟨h0, hlast⟩ := not_or.1 hn
  have hnum := img.numDirEntries.toNat_lt
  -- every read moves the position on, and never to the end
  have hmove : ∀ n, ∃ rs s' pos, readCalls img dirReader (dirReads n) = some (rs, s') ∧ DirAt s' 2 pos ∧
      n ≤ pos ∧ pos < img.numDirEntries.toNat := by
    intro n
    induction n with
    | zero =>
      refine ⟨[], dirReader, 0, rfl, dirReader_dirAt, le_refl _, ?_⟩
      exact Nat.pos_of_ne_zero fun hz => h0 (UInt32.toNat_inj.1 hz)
    | succ n ih =>
      obtain ⟨rs, s', pos, h1, h2, h3, h4⟩ := ih
      obtain ⟨rs1, s1, h5, -, h6⟩ := h dirReader 2 dirReader_dirAt _ (dirReads_dirReads n)
      obtain ⟨rfl, rfl⟩ := Prod.mk.inj (Option.some.inj (h5.symm.trans h1))
      obtain ⟨rs2, s2, h7, -, -⟩ := h dirReader 2 dirReader_dirAt _ (dirReads_dirReads (n + 1))
      have h7' := h7
      rw [dirReads, List.replicate_succ'] at h7'
      obtain ⟨r, hr⟩ := readCalls_append h7' h5
      obtain ⟨hnone, hsome⟩ := @readCall_dirread img s1 ⟨2, 1, 33⟩ pos h2 (by decide)
      have hfpos := h2.fpos
      generalize (s1.pcblock.fileStruct 2).fpos = fpos at h6 hnone hsome hfpos
      subst hfpos
      have hlt : fpos < img.numDirEntries := UInt32.lt_iff_toNat_lt.2 h4
      rcases hd : img.dirread fpos (s1.userView 1) with _ | ⟨v, f, p⟩
      · rw [hnone hd] at hr
        cases hr
      · obtain ⟨k, hnext, m, -, hr'⟩ := (Image.dirread_eq_some_iff hlt).1 hd
        obtain ⟨rfl, -, rfl⟩ : (m : Int) = v ∧ _ = f ∧ k + 1 = p := by simpa using hr'
        have hk := Image.nextEntry_eq_some_iff.2 hnext
        obtain ⟨s3, h8, h9⟩ := hsome m f (k + 1) hd
        obtain ⟨-, rfl⟩ := Prod.mk.inj (Option.some.inj (hr.symm.trans h8))
        obtain ⟨hle, hkn, hstop⟩ := Image.nextEntry_found hnum hk fun x hx => by
          refine UInt32.lt_iff_toNat_lt.1 (h6 x ?_)
          rwa [Image.examined, if_neg (UInt32.not_le.2 hlt)]
        have hne : k.toNat ≠ img.numDirEntries.toNat - 1 := by
          intro heq
          rw [heq] at hstop
          exact hlast hstop
        have hsucc : (k + 1).toNat = k.toNat + 1 := toNat_succ (by omega)
        exact ⟨rs2, s2, (k + 1).toNat, h7, h9, by omega, by omega⟩
  obtain ⟨_, _, pos, -, -, h1, h2⟩ := hmove img.numDirEntries.toNat
  omega

/-- Every listed entry of a listed directory has a string. -/
theorem ListsDirectory.strings (h : ListsDirectory img) : ∀ k ∈ img.entriesFrom 0, img.entryString k ≠ none := by
  have hl := h.ends
  -- a read of an entry without a string does not come back
  have hread : ∀ n s pos, DirAt s 2 pos → pos ≤ img.numDirEntries.toNat → (img.entriesFrom pos).length ≤ n →
      (readCalls img s (dirReads n)).isSome = true → ∀ k ∈ img.entriesFrom pos, img.entryString k ≠ none := by
    intro n
    induction n with
    | zero =>
      intro s pos _ _ hn _ k hk
      rw [List.eq_nil_of_length_eq_zero (Nat.le_zero.1 hn)] at hk
      cases hk
    | succ n ih =>
      intro s pos hs hp hn hsome k hk
      rw [dirReads, List.replicate_succ, readCalls] at hsome
      rcases @readCall_listed img s ⟨2, 1, 33⟩ pos hl hs hp (by decide) with ⟨h0, -⟩ | ⟨j, js, hj, hcase⟩
      · rw [h0] at hk
        cases hk
      obtain ⟨-, hlt, -, -, hjs⟩ := Image.entriesFrom_cons hp hj
      rcases hcase with ⟨-, hnone⟩ | ⟨str, s1, hstr, hr, hs1⟩
      · rw [hnone] at hsome
        cases hsome
      · rw [hr] at hsome
        rw [hj] at hk hn
        rcases List.mem_cons.1 hk with rfl | hk
        · rw [hstr]
          exact Option.some_ne_none str
        · refine ih s1 (j + 1) hs1 hlt ?_ ?_ k (hjs ▸ hk)
          · rw [← hjs]
            exact Nat.le_of_succ_le_succ hn
          · rcases hrest : readCalls img s1 (List.replicate n ⟨2, 1, 33⟩) with _ | x
            · simp only [bind, Option.bind_some, hrest, Option.bind_none] at hsome
              cases hsome
            · rw [dirReads, hrest]
              rfl
  obtain ⟨rs, s', h1, -⟩ := h dirReader 2 dirReader_dirAt _ (dirReads_dirReads (img.entriesFrom 0).length)
  refine hread _ dirReader 0 dirReader_dirAt (Nat.zero_le _) (le_refl _) ?_
  rw [h1]
  rfl

/-- The strings read from a listed directory, one after the other, are its names. -/
theorem ListsDirectory.sequence (h : ListsDirectory img) {g : Nat → List UInt8}
    (hg : ∀ k ∈ img.entriesFrom 0, img.entryString k = some (g k)) (i : Nat) :
    ((img.entriesFrom 0).map g).getD i [] = img.names.getD i [] := by
  obtain ⟨rs, s', h1, h2, -⟩ := h dirReader 2 dirReader_dirAt _ (dirReads_dirReads (i + 1))
  obtain ⟨s1, h3, -⟩ := readCalls_listed h.ends (dirReads_dirReads (i + 1)) dirReader_dirAt (Nat.zero_le _) hg
  obtain ⟨h4, -⟩ := Prod.mk.inj (Option.some.inj (h1.symm.trans h3))
  have h5 := congrArg (fun l : List Reply => l[i]?) (h2.symm.trans h4)
  simp only [dirReads, List.length_replicate, List.getElem?_map, List.getElem?_range (Nat.lt_succ_self i),
    Option.map_some, Reply.ofPiece, Option.some.injEq, Reply.mk.injEq] at h5
  exact h5.2.symm

theorem names_length (img : Image) (i : Nat) : (img.names.getD i []).length ≤ 32 := by
  rw [Image.names, List.getD_eq_getElem?_getD, List.getElem?_map]
  rcases ((List.range img.numDirEntries.toNat).filter img.isListed)[i]? with _ | k
  · exact Nat.zero_le _
  · exact Image.entryName_length k

/-- The directories that successive reads list are the listable ones. -/
theorem dirread_lists_iff (img : Image) : ListsDirectory img ↔ Listable img := by
  constructor
  · intro h
    let g : Nat → List UInt8 := fun k => (img.entryString k).getD []
    have hg : ∀ k ∈ img.entriesFrom 0, img.entryString k = some (g k) := by
      intro k hk
      obtain ⟨str, hstr⟩ := Option.ne_none_iff_exists'.1 (h.strings k hk)
      simp only [g, hstr, Option.getD_some]
    have hterm : ∀ k ∈ img.entriesFrom 0, img.stopsAt k = true → img.Terminated k := by
      intro k hk hstop
      obtain ⟨i, hi⟩ := List.mem_iff_getElem?.1 hk
      have hgi := h.sequence hg i
      rw [List.getD_eq_getElem?_getD, List.getElem?_map, hi, Option.map_some, Option.getD_some] at hgi
      exact Image.terminated_of_entryString hstop (hg k hk) (hgi ▸ names_length img i)
    refine ⟨h.ends, ?_, ?_⟩
    · intro k hk hstop
      exact hterm k (List.mem_filter.2 ⟨List.mem_range'_1.2 (by omega), hstop⟩) hstop
    · have hname : (img.entriesFrom 0).map g = (img.entriesFrom 0).map img.entryName := by
        apply List.map_congr_left
        intro k hk
        have hstr := Image.entryString_of_terminated (hterm k hk (List.mem_filter.1 hk).2)
        simp only [g, hstr, Option.getD_some]
      refine (onlyAfter_iff img).1 (Padded.filter_getD_iff.1 fun m => ?_)
      rw [← entriesFrom_zero, ← hname]
      exact h.sequence hg m
  · exact Listable.lists

/-- A directory with the entries `.` and `rtc`. What follows the directory in memory looks like an
entry `old` of a file. -/
def deviceLast : Image := .ofPieces [
  (0, [2]), (64, ascii ['.']), (96, [1]), (128, ascii ['r', 't', 'c']), (160, [0]),
  (192, ascii ['o', 'l', 'd']), (224, [2])]

/-- With a device as the last entry the second read does not return 0: it looks at entry 2, past the end
of the directory, and returns the three characters it finds there. -/
theorem dirread_past_end :
    deviceLast.numDirEntries = 2 ∧ deviceLast.names = [ascii ['.']] ∧ deviceLast.examined 1 = [1, 2] ∧
      (deviceLast.dirread 1 fun _ => 0).map Prod.fst = some 3 ∧ ¬ ListsDirectory deviceLast := by
  have hnum : deviceLast.numDirEntries = 2 := by decide +kernel
  refine ⟨hnum, by decide +kernel, by decide +kernel, by decide +kernel, ?_⟩
  intro h
  have hlast : ¬ deviceLast.EndsListed := by decide +kernel
  exact hlast h.ends

/-! ## How much a read stores -/

/-- A read of the directory stores no more bytes than were asked for and no more than a name has. It
returns how many it stored: none at the end of the directory, else as many characters of the next entry's
name as there are and were asked for. -/
def ReadsEntry (img : Image) (pos : UInt32) (nbytes : Nat) : Prop :=
  ∀ (s : Kernel) (d : Fin 8) (buf : Int), DirAt s d pos.toNat → buf ≠ 0 →
    ∃ (v : Nat) (s' : Kernel), sysRead img d.val buf nbytes s = some (.ret v, s') ∧ v ≤ min nbytes 32 ∧
      (∀ dir a, ¬ (dir = s.cr3 ∧ buf ≤ a ∧ a < buf + v) → s'.user dir a = s.user dir a) ∧
      (img.numDirEntries ≤ pos → v = 0) ∧
      (pos < img.numDirEntries → ∃ k, img.IsNext pos k ∧ v = min (img.entryName k.toNat).length nbytes ∧
        ∀ i, i < v → s'.userView buf i = img.dentryByte k.toNat i)

/-- A read that comes back with `v` bytes stores just these. -/
theorem sysRead_dirread_frame {s : Kernel} {d : Fin 8} {pos : UInt32} {buf : Int} {v : Nat} {f : Buf} {p : UInt32}
    (nbytes : Nat) (h : DirAt s d pos.toNat) (hbuf : buf ≠ 0) (hd : img.dirread pos (s.userView buf) = some ((v : Int), f, p)) :
    ∃ s', sysRead img d.val buf nbytes s = some (.ret v, s') ∧
      (∀ dir a, ¬ (dir = s.cr3 ∧ buf ≤ a ∧ a < buf + v) → s'.user dir a = s.user dir a) ∧
      ∀ i, i < v → s'.userView buf i = f i := by
  have hfpos : (s.pcblock.fileStruct d).fpos = pos := UInt32.toNat_inj.1 h.fpos
  rw [sysRead_dirread img nbytes h hbuf, hfpos, hd]
  refine ⟨_, rfl, ?_, ?_⟩
  · rintro dir a ha
    exact userPut_frame { s with fdVal := d } buf v f dir a ha
  · intro i hi
    exact userView_userPut { s with fdVal := d } buf f hi

/-- The directory open on descriptor 2, at a position. -/
def dirReaderAt (pos : UInt32) : Kernel :=
  { boot with pcblock := { boot.pcblock with
      fileStruct := fun _ => ⟨some .filesystemFops, pos, 1⟩
      dentry := fun _ => ⟨fun _ => 0, 1, 0, fun _ => 0⟩ } }

theorem dirReaderAt_dirAt (pos : UInt32) : DirAt (dirReaderAt pos) 2 pos.toNat :=
  ⟨by show (1 : UInt32) ≠ 0; decide, rfl, rfl, rfl⟩

/-- What a first `dirread` stores when the reads are cut as they should be. -/
theorem ReadsEntry.stores {pos : UInt32} {nbytes : Nat} (h : ReadsEntry img pos nbytes) :
    ∃ (v : Nat) (f : Buf) (p : UInt32), img.dirread pos ((dirReaderAt pos).userView 1) = some ((v : Int), f, p) ∧
      v ≤ min nbytes 32 := by
  obtain ⟨v, s', hread, hv, -, -, -⟩ := h (dirReaderAt pos) 2 1 (dirReaderAt_dirAt pos) (by decide)
  rw [sysRead_dirread img nbytes (dirReaderAt_dirAt pos) (by decide)] at hread
  obtain ⟨⟨v', f, p⟩, hr, hret⟩ := Option.map_eq_some_iff.1 hread
  obtain rfl : v' = v := Outcome.ret.inj (Prod.mk.inj hret).1
  exact ⟨v, f, p, hr, hv⟩

/-- A directory of one file, whose name takes all 32 bytes. -/
def fullName : Image := .ofPieces [(0, [1, 0, 0, 0, 2]), (64, List.replicate 32 97), (96, [2])]

end Kernel

end Os391
