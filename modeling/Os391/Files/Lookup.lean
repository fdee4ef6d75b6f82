/-
The two lookups in the directory. Both scan 62 entries whatever `num_dir_entries` says; the one by name
compares 32 characters, and the one by index compares a number that no inode field enters.
-/
import Os391.Files.Directory

namespace Os391

open Bytes

namespace Image

variable {img : Image} {name : CString}

/-! ## By name -/

theorem lookupFrom_eq_find {fname : Buf} : ∀ {n k : Nat},
    img.lookupFrom fname k n = (List.range' k n).find? fun i => strncmp fname (img.dentryByte i) 32 = 0
  | 0, _ => rfl
  | n + 1, k => by
    rw [lookupFrom, List.range'_succ, List.find?_cons, lookupFrom_eq_find]
    by_cases h : strncmp fname (img.dentryByte k) 32 = 0
    · simp [h]
    · simp [h]

/-- An entry compares equal when its name is what the first 32 characters are. -/
theorem strncmp_entry (name : CString) (k : Nat) :
    strncmp name.get (img.dentryByte k) 32 = 0 ↔ img.entryName k = name.bytes.take 32 := by
  unfold strncmp
  rw [strncmpFrom_eq_zero, ← List.range_eq_range', name.takeWhile_get]
  exact eq_comm

/-- The first entry with a name, of those below a bound. -/
def FirstNamed (img : Image) (bytes : List UInt8) (n i : Nat) : Prop :=
  i < n ∧ img.entryName i = bytes ∧ ∀ j, j < i → img.entryName j ≠ bytes

theorem exists_firstNamed {bytes : List UInt8} {n i : Nat} (hi : i < n) (h : img.entryName i = bytes) :
    ∃ j, j ≤ i ∧ img.FirstNamed bytes n j := by
  classical
  have hex : ∃ j, img.entryName j = bytes := ⟨i, h⟩
  have hle := Nat.find_min' hex h
  exact ⟨Nat.find hex, hle, by omega, Nat.find_spec hex, fun j hj => Nat.find_min hex hj⟩

theorem FirstNamed.unique {bytes : List UInt8} {m n i j : Nat} (hi : img.FirstNamed bytes m i)
    (hj : img.FirstNamed bytes n j) : i = j := by
  rcases Nat.lt_trichotomy i j with h | h | h
  · exact absurd hi.2.1 (hj.2.2 i h)
  · exact h
  · exact absurd hj.2.1 (hi.2.2 j h)

/-- `read_dentry_by_name` where some entry scanned compares equal. -/
theorem readDentryByName_found {i : Nat} (h : img.FirstNamed (name.bytes.take 32) maxFile i) (dentry : Dentry) :
    img.readDentryByName name.get dentry = (0, dentry.withHead (img.dentryAt i)) := by
  have hfind : img.lookupFrom name.get 0 maxFile = some i := by
    rw [lookupFrom_eq_find, List.find?_range'_eq_some]
    refine ⟨by simpa [strncmp_entry] using h.2.1, by simpa using h.1, ?_⟩
    intro j _ hj
    simpa [strncmp_entry] using h.2.2 j hj
  unfold readDentryByName lookup
  rw [hfind]
  rfl

theorem readDentryByName_none (h : ∀ i, i < maxFile → img.entryName i ≠ name.bytes.take 32) (dentry : Dentry) :
    img.readDentryByName name.get dentry = (-1, dentry) := by
  have hfind : img.lookupFrom name.get 0 maxFile = none := by
    rw [lookupFrom_eq_find, List.find?_range'_eq_none]
    intro i _ hi
    simpa [strncmp_entry] using h i (by omega)
  unfold readDentryByName lookup
  rw [hfind]
  rfl

/-- `read_dentry_by_name` finds a name exactly when an entry of the directory has it, gives the first such
entry, and leaves the caller's entry alone otherwise. -/
def FindsName (img : Image) (name : CString) : Prop :=
  let n := img.numDirEntries.toNat
  ∀ dentry,
    let r := img.readDentryByName name.get dentry
    (r.1 = 0 ↔ ∃ i, i < n ∧ img.entryName i = name.bytes) ∧
      (∀ i, img.FirstNamed name.bytes n i → r.2 = dentry.withHead (img.dentryAt i)) ∧
      ((∀ i, i < n → img.entryName i ≠ name.bytes) → r = (-1, dentry))

/-- A name is found as it should be exactly when it is that of an entry of the directory that is scanned,
or of no entry and what is compared of it is the name of no entry scanned. -/
theorem findsName_iff (img : Image) (name : CString) :
    let n := img.numDirEntries.toNat
    img.FindsName name ↔ (∃ i, i < n ∧ i < 62 ∧ img.entryName i = name.bytes) ∨
      (∀ i, i < n → img.entryName i ≠ name.bytes) ∧ ∀ i, i < 62 → img.entryName i ≠ name.bytes.take 32 := by
  intro n
  have hlen : ∀ i, img.entryName i = name.bytes → name.bytes.take 32 = name.bytes := by
    intro i hi
    exact List.take_of_length_le (hi ▸ entryName_length i)
  constructor
  · intro h
    obtain ⟨h1, h2, -⟩ := h .zero
    by_cases hex : ∃ i, i < n ∧ img.entryName i = name.bytes
    · left
      obtain ⟨i, hi, hn⟩ := hex
      -- an entry scanned with the name would be one of the directory, or the directory would end behind the scan
      by_contra hno
      have hnone : ∀ j, j < maxFile → img.entryName j ≠ name.bytes.take 32 := by
        intro j hj hjn
        rw [hlen i hn] at hjn
        rcases Nat.lt_or_ge j n with hjn' | hjn'
        · exact hno ⟨j, hjn', hj, hjn⟩
        · exact hno ⟨i, hi, by unfold maxFile at hj; omega, hn⟩
      have h0 := h1.2 ⟨i, hi, hn⟩
      rw [readDentryByName_none hnone] at h0
      exact absurd h0 (by decide)
    · right
      refine ⟨fun i hi hn => hex ⟨i, hi, hn⟩, ?_⟩
      intro i hi hn
      obtain ⟨j, -, hj⟩ := exists_firstNamed (n := maxFile) hi hn
      have h0 : (img.readDentryByName name.get .zero).1 = 0 := by rw [readDentryByName_found hj]
      exact hex (h1.1 h0)
  · rintro (⟨i, hin, hi, hn⟩ | ⟨hno, hnone⟩) dentry
    · -- the first entry scanned with the name is the first of the directory
      obtain ⟨j, hji, hj⟩ := exists_firstNamed hi hn
      have hj' : img.FirstNamed (name.bytes.take 32) maxFile j := by rw [hlen i hn]; exact hj
      rw [readDentryByName_found hj']
      refine ⟨⟨fun _ => ⟨i, hin, hn⟩, fun _ => rfl⟩, ?_, fun h => absurd hn (h i hin)⟩
      intro k hk
      rw [hk.unique hj]
    · rw [readDentryByName_none hnone]
      refine ⟨⟨fun h => absurd h (show (-1 : Int) ≠ 0 by decide), ?_⟩, ?_, fun _ => rfl⟩
      · rintro ⟨i, hi, hn⟩
        exact absurd hn (hno i hi)
      · intro i hi
        exact absurd hi.2.1 (hno i hi.1)

/-- A directory of one entry, with an entry `old` left behind it. -/
def leftover : Image := .ofPieces [
  (0, [1, 0, 0, 0, 2]), (64, ascii ['.']), (96, [1]), (128, ascii ['o', 'l', 'd']), (160, [2, 0, 0, 0, 1])]

/-- The entry left behind the directory is found. -/
theorem leftover_found :
    let name : CString := ⟨ascii ['o', 'l', 'd'], by decide +kernel⟩
    leftover.numDirEntries = 1 ∧ leftover.entryName 0 = ascii ['.'] ∧
      (leftover.readDentryByName name.get .zero).1 = 0 ∧ ¬ leftover.FindsName name := by
  intro name
  have hn : leftover.numDirEntries = 1 := by decide +kernel
  have h0 : leftover.entryName 0 = ascii ['.'] := by decide +kernel
  have hfound : (leftover.readDentryByName name.get .zero).1 = 0 := by decide +kernel
  refine ⟨hn, h0, hfound, ?_⟩
  intro h
  obtain ⟨i, hi, hname⟩ := (h .zero).1.1 hfound
  rw [hn] at hi
  obtain rfl : i = 0 := Nat.lt_one_iff.1 hi
  exact absurd hname (by decide +kernel)

/-! ## By index -/

/-- What `read_dentry_by_index` takes for the inode number of entry `i`. -/
def comparedIndex (img : Image) (i : Nat) : UInt32 := UInt32.ofNat ((img.dentryByte 0 0).toNat + i * 64 + 36)

theorem comparedIndex_toNat {i : Nat} (hi : i < 62) :
    (img.comparedIndex i).toNat = (img.dentryByte 0 0).toNat + i * 64 + 36 := by
  have hb := (img.dentryByte 0 0).toNat_lt
  rw [comparedIndex, UInt32.toNat_ofNat', Nat.mod_eq_of_lt (by omega)]

theorem comparedIndex_inj {i j : Nat} (hi : i < 62) (hj : j < 62) (h : img.comparedIndex i = img.comparedIndex j) :
    i = j := by
  have h' := congrArg UInt32.toNat h
  rw [comparedIndex_toNat hi, comparedIndex_toNat hj] at h'
  omega

theorem readDentryByIndex_found {i : Nat} (hi : i < 62) (dentry : Dentry) :
    img.readDentryByIndex (img.comparedIndex i) dentry = (0, dentry.withHead (img.dentryAt i)) := by
  have hfind : ((List.range maxFile).find? fun j => img.comparedIndex j = img.comparedIndex i) = some i := by
    rw [List.find?_range_eq_some]
    refine ⟨by simp, List.mem_range.2 hi, ?_⟩
    intro j hj
    have hne : img.comparedIndex j ≠ img.comparedIndex i := by
      intro h
      have := comparedIndex_inj (by omega) hi h
      omega
    simpa using hne
  unfold comparedIndex at hfind
  unfold readDentryByIndex comparedIndex
  rw [hfind]

theorem readDentryByIndex_none {index : UInt32} (h : ∀ i, i < 62 → index ≠ img.comparedIndex i) (dentry : Dentry) :
    img.readDentryByIndex index dentry = (-1, dentry) := by
  have hfind : ((List.range maxFile).find? fun j => img.comparedIndex j = index) = none := by
    rw [List.find?_range_eq_none]
    intro i hi
    simpa using (h i hi).symm
  unfold comparedIndex at hfind
  unfold readDentryByIndex
  rw [hfind]

/-- `read_dentry_by_index` finds an inode number exactly when an entry of the directory has it, and gives
such an entry. -/
def FindsIndex (img : Image) (index : UInt32) : Prop :=
  let n := img.numDirEntries.toNat
  ∀ dentry,
    let r := img.readDentryByIndex index dentry
    (r.1 = 0 ↔ ∃ i, i < n ∧ (img.dentryAt i).inodeNumber = index) ∧
      (r.1 = 0 → ∃ i, i < n ∧ (img.dentryAt i).inodeNumber = index ∧ r.2 = dentry.withHead (img.dentryAt i))

/-- What is found by a name is found again by the inode number it has. -/
def FindsAgain (img : Image) (name : CString) : Prop :=
  ∀ dentry dentry',
    let r := img.readDentryByName name.get dentry
    let r' := img.readDentryByIndex r.2.inodeNumber dentry'
    r.1 = 0 → r'.1 = 0 ∧ r'.2.inodeNumber = r.2.inodeNumber

theorem findsIndex_iff (img : Image) (index : UInt32) :
    let n := img.numDirEntries.toNat
    img.FindsIndex index ↔
      (∃ i, i < 62 ∧ index = img.comparedIndex i ∧
        ∃ j, j < n ∧ (img.dentryAt j).inodeNumber = index ∧ img.dentryAt j = img.dentryAt i) ∨
      (∀ i, i < 62 → index ≠ img.comparedIndex i) ∧ ∀ j, j < n → (img.dentryAt j).inodeNumber ≠ index := by
  intro n
  by_cases hex : ∃ i, i < 62 ∧ index = img.comparedIndex i
  · obtain ⟨i, hi, rfl⟩ := hex
    constructor
    · intro h
      left
      have h0 := (h .zero).2
      rw [readDentryByIndex_found hi] at h0
      obtain ⟨j, hj, hinode, heq⟩ := h0 rfl
      exact ⟨i, hi, rfl, j, hj, hinode, heq.symm⟩
    · rintro (⟨i', hi', hii, j, hj, hinode, heq⟩ | ⟨hno, -⟩) dentry
      · obtain rfl := comparedIndex_inj hi hi' hii
        rw [readDentryByIndex_found hi]
        exact ⟨⟨fun _ => ⟨j, hj, hinode⟩, fun _ => rfl⟩, fun _ => ⟨j, hj, hinode, by rw [heq]⟩⟩
      · exact absurd rfl (hno i hi)
  · have hnone : ∀ i, i < 62 → index ≠ img.comparedIndex i := fun i hi h => hex ⟨i, hi, h⟩
    have hne : (-1 : Int) ≠ 0 := by decide
    constructor
    · intro h
      right
      refine ⟨hnone, ?_⟩
      intro j hj hinode
      have h0 := (h .zero).1.2 ⟨j, hj, hinode⟩
      rw [readDentryByIndex_none hnone] at h0
      exact hne h0
    · rintro (⟨i, hi, hii, -⟩ | ⟨-, hno⟩) dentry
      · exact absurd hii (hnone i hi)
      · rw [readDentryByIndex_none hnone]
        exact ⟨⟨fun h => absurd h hne, fun ⟨j, hj, hinode⟩ => absurd hinode (hno j hj)⟩, fun h => absurd h hne⟩

theorem findsAgain_iff (img : Image) (name : CString) :
    img.FindsAgain name ↔ ∀ j, img.FirstNamed (name.bytes.take 32) 62 j →
      ∃ i, i < 62 ∧ (img.dentryAt j).inodeNumber = img.comparedIndex i ∧
        (img.dentryAt i).inodeNumber = (img.dentryAt j).inodeNumber := by
  constructor
  · intro h j hj
    have hfound := h .zero .zero
    rw [readDentryByName_found hj] at hfound
    obtain ⟨h1, h2⟩ := hfound rfl
    change (img.readDentryByIndex (img.dentryAt j).inodeNumber .zero).1 = 0 at h1
    by_contra hno
    -- the number is compared with that of some entry, whose own inode number is another one, or with none
    by_cases hex : ∃ i, i < 62 ∧ (img.dentryAt j).inodeNumber = img.comparedIndex i
    · obtain ⟨i, hi, hij⟩ := hex
      refine hno ⟨i, hi, hij, ?_⟩
      change (img.readDentryByIndex (img.dentryAt j).inodeNumber .zero).2.inodeNumber = _ at h2
      rw [hij, readDentryByIndex_found hi] at h2
      exact h2
    · rw [readDentryByIndex_none fun i hi h => hex ⟨i, hi, h⟩] at h1
      exact absurd h1 (by decide)
  · intro h dentry dentry' r r' hr
    by_cases hex : ∃ j, j < 62 ∧ img.entryName j = name.bytes.take 32
    · obtain ⟨j, hj, hn⟩ := hex
      obtain ⟨m, -, hm⟩ := exists_firstNamed hj hn
      obtain ⟨i, hi, hij, hinode⟩ := h m hm
      have hr' : r = (0, dentry.withHead (img.dentryAt m)) := readDentryByName_found hm dentry
      have hfound : r' = (0, dentry'.withHead (img.dentryAt i)) := by
        simp only [r', hr']
        show img.readDentryByIndex (img.dentryAt m).inodeNumber dentry' = _
        rw [hij, readDentryByIndex_found hi]
      rw [hfound, hr']
      exact ⟨rfl, hinode⟩
    · have hnone : r = (-1, dentry) := readDentryByName_none (fun i hi hn => hex ⟨i, hi, hn⟩) dentry
      rw [hnone] at hr
      exact absurd hr (show (-1 : Int) ≠ 0 by decide)

/-- The lookup by index finds an inode number as it should exactly when the number is the one compared for
an entry scanned that agrees with an entry of the directory with that inode number, or is neither. It
finds again what a name gave exactly when the inode number is the one compared for an entry that has it. -/
theorem index_lookup_iff (img : Image) :
    let n := img.numDirEntries.toNat
    let compared := fun i => UInt32.ofNat ((img.dentryByte 0 0).toNat + i * 64 + 36)
    (∀ index, img.FindsIndex index ↔
      (∃ i, i < 62 ∧ index = compared i ∧
        ∃ j, j < n ∧ (img.dentryAt j).inodeNumber = index ∧ img.dentryAt j = img.dentryAt i) ∨
      (∀ i, i < 62 → index ≠ compared i) ∧ ∀ j, j < n → (img.dentryAt j).inodeNumber ≠ index) ∧
    ∀ name : CString, img.FindsAgain name ↔ ∀ j, img.FirstNamed (name.bytes.take 32) 62 j →
      ∃ i, i < 62 ∧ (img.dentryAt j).inodeNumber = compared i ∧
        (img.dentryAt i).inodeNumber = (img.dentryAt j).inodeNumber :=
  ⟨fun index => findsIndex_iff img index, fun name => findsAgain_iff img name⟩

theorem zero_notMem_shell : 0 ∉ ascii ['s', 'h', 'e', 'l', 'l'] := by decide

/-- The inode number of `shell` is not found. -/
theorem shell_index_not_found :
    let name : CString := ⟨ascii ['s', 'h', 'e', 'l', 'l'], zero_notMem_shell⟩
    let r := sample.readDentryByName name.get .zero
    r.1 = 0 ∧ r.2.inodeNumber = 1 ∧ (sample.readDentryByIndex 1 .zero).1 = -1 ∧
      ¬ sample.FindsIndex 1 ∧ ¬ sample.FindsAgain name := by
  intro name r
  have hname : r.1 = 0 ∧ r.2.inodeNumber = 1 := by decide +kernel
  have hindex : (sample.readDentryByIndex 1 .zero).1 = -1 := by decide +kernel
  have hentry : 1 < sample.numDirEntries.toNat ∧ (sample.dentryAt 1).inodeNumber = 1 := by decide +kernel
  have hne : (-1 : Int) ≠ 0 := by decide
  refine ⟨hname.1, hname.2, hindex, ?_, ?_⟩
  · intro h
    exact hne (hindex.symm.trans ((h .zero).1.2 ⟨1, hentry⟩))
  · intro h
    have hagain := (h .zero .zero hname.1).1
    change (sample.readDentryByIndex r.2.inodeNumber .zero).1 = 0 at hagain
    rw [hname.2, hindex] at hagain
    exact hne hagain

end Image

end Os391
