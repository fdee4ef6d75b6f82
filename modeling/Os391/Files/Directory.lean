/-
The entries of the directory. `dirread` tests for the end once and then skips entries whose type byte is
zero, with no bound of its own; it returns whatever stands before the first zero byte of an entry.
-/
import Os391.Fs.Image

namespace Os391

open Bytes

namespace Image

variable {img : Image}

/-! ## The skipping loop -/

/-- The entries the skipping loop looks at, from position `fpos` on. -/
def examinedFrom (img : Image) (fpos : UInt32) : Nat → List UInt32
  | 0 => []
  | n + 1 => fpos :: if img.dentryByte fpos.toNat 32 = 0 then examinedFrom img (fpos + 1) n else []

/-- The entries a `dirread` at position `fpos` looks at: none at the end of the directory. -/
def examined (img : Image) (fpos : UInt32) : List UInt32 :=
  if fpos ≥ img.numDirEntries then [] else img.examinedFrom fpos (2 ^ 26)

/-- An entry the loop stops at: its type byte is not zero. -/
def stopsAt (img : Image) (k : Nat) : Bool := img.dentryByte k 32 ≠ 0

theorem stopsAt_iff {k : Nat} : img.stopsAt k = true ↔ img.dentryByte k 32 ≠ 0 := by
  simp [stopsAt]

/-- A search that looks at no entry from `b` on ends at the next entry with a type byte. -/
theorem nextEntry_found {b : Nat} (hb : b < 2 ^ 32) : ∀ {n : Nat} {p k : UInt32}, img.nextEntry p n = some k →
    (∀ x ∈ img.examinedFrom p n, x.toNat < b) →
    p.toNat ≤ k.toNat ∧ k.toNat < b ∧ img.stopsAt k.toNat = true
  | 0, p, k, h, _ => by cases h
  | n + 1, p, k, h, hx => by
    unfold nextEntry at h
    unfold examinedFrom at hx
    have hp := hx p (List.mem_cons_self ..)
    split at h
    · rename_i h0
      rw [if_pos h0] at hx
      have hsucc : (p + 1).toNat = p.toNat + 1 := toNat_succ (by omega)
      obtain ⟨h1, h2, h3⟩ := nextEntry_found hb h fun x hm => hx x (List.mem_cons_of_mem _ hm)
      exact ⟨by omega, h2, h3⟩
    · rename_i h0
      cases h
      exact ⟨le_refl _, hp, stopsAt_iff.2 h0⟩

/-- The search for an entry that is there ends at it, and looks at nothing after it. -/
theorem nextEntry_of_first {k : Nat} (hk : k < 2 ^ 32) (hstop : img.stopsAt k = true) :
    ∀ {n : Nat} {p : UInt32}, p.toNat ≤ k → k < p.toNat + n → (∀ j, p.toNat ≤ j → j < k → img.stopsAt j = false) →
    img.nextEntry p n = some (UInt32.ofNat k) ∧ ∀ x ∈ img.examinedFrom p n, x.toNat ≤ k
  | 0, p, h1, h2, _ => by omega
  | n + 1, p, h1, h2, hskip => by
    unfold nextEntry examinedFrom
    by_cases hpk : p.toNat = k
    · have h0 : img.dentryByte p.toNat 32 ≠ 0 := by rw [hpk]; exact stopsAt_iff.1 hstop
      rw [if_neg h0, if_neg h0]
      refine ⟨?_, ?_⟩
      · rw [← hpk, UInt32.ofNat_toNat]
      · intro x hx
        rw [List.mem_singleton.1 hx]
        exact h1
    · have h0 : img.dentryByte p.toNat 32 = 0 := by
        have := hskip p.toNat (le_refl _) (by omega)
        by_contra hne
        rw [stopsAt_iff.2 hne] at this
        cases this
      have hsucc : (p + 1).toNat = p.toNat + 1 := toNat_succ (by omega)
      rw [if_pos h0, if_pos h0]
      obtain ⟨h3, h4⟩ := nextEntry_of_first hk hstop (n := n) (p := p + 1) (by omega) (by omega)
        (fun j hj hjk => hskip j (by omega) hjk)
      refine ⟨h3, ?_⟩
      intro x hx
      rcases List.mem_cons.1 hx with rfl | hx
      · exact h1
      · exact h4 x hx

/-- Addresses wrap after `2^26` entries, so no first entry is further away than that. -/
theorem first_within {p k : Nat} (hstop : img.stopsAt k = true)
    (hskip : ∀ j, p ≤ j → j < k → img.stopsAt j = false) : k < p + 2 ^ 26 := by
  by_contra hfar
  have hsame : img.dentryByte (k - 2 ^ 26) 32 = img.dentryByte k 32 := by
    show img.byte ((64 + 64 * (k - 2 ^ 26) + 32) % 2 ^ 32) = img.byte ((64 + 64 * k + 32) % 2 ^ 32)
    rw [show (64 + 64 * (k - 2 ^ 26) + 32) % 2 ^ 32 = (64 + 64 * k + 32) % 2 ^ 32 by omega]
  have h := hskip (k - 2 ^ 26) (by omega) (by omega)
  unfold stopsAt at h hstop
  rw [hsame] at h
  exact absurd hstop (by rw [h]; decide)

/-- Entry `k` is the first one from position `pos` on that the skipping loop stops at. -/
def IsNext (img : Image) (pos k : UInt32) : Prop :=
  ∃ m, m < 2 ^ 26 ∧ k = pos + UInt32.ofNat m ∧ img.stopsAt k.toNat = true ∧
    ∀ j, j < m → img.stopsAt (pos + UInt32.ofNat j).toNat = false

/-- The search ends at the next entry it can stop at, if that is near enough. -/
theorem nextEntry_eq_some_iff {k : UInt32} : ∀ {n : Nat} {p : UInt32}, img.nextEntry p n = some k ↔
    ∃ m, m < n ∧ k = p + UInt32.ofNat m ∧ img.stopsAt k.toNat = true ∧
      ∀ j, j < m → img.stopsAt (p + UInt32.ofNat j).toNat = false
  | 0, p => by simp [nextEntry]
  | n + 1, p => by
    have hzero : p + UInt32.ofNat 0 = p := by simp
    have hsucc : ∀ m, p + UInt32.ofNat (m + 1) = p + 1 + UInt32.ofNat m := by
      intro m
      rw [UInt32.ofNat_add, UInt32.add_comm (UInt32.ofNat m), ← UInt32.add_assoc]
      rfl
    unfold nextEntry
    by_cases h0 : img.dentryByte p.toNat 32 = 0
    · have hskip : img.stopsAt p.toNat = false := by simp [stopsAt, h0]
      rw [if_pos h0, nextEntry_eq_some_iff]
      constructor
      · rintro ⟨m, hm, hk, hstop, hbefore⟩
        refine ⟨m + 1, by omega, by rw [hsucc]; exact hk, hstop, ?_⟩
        rintro (_ | j) hj
        · rw [hzero]
          exact hskip
        · rw [hsucc]
          exact hbefore j (by omega)
      · rintro ⟨_ | m, hm, hk, hstop, hbefore⟩
        · rw [hk, hzero, hskip] at hstop
          cases hstop
        · refine ⟨m, by omega, by rw [← hsucc]; exact hk, hstop, ?_⟩
          intro j hj
          rw [← hsucc]
          exact hbefore (j + 1) (by omega)
    · have hstops : img.stopsAt p.toNat = true := stopsAt_iff.2 h0
      rw [if_neg h0]
      constructor
      · rintro h
        obtain rfl : p = k := Option.some.inj h
        exact ⟨0, by omega, hzero.symm, hstops, fun j hj => absurd hj (Nat.not_lt_zero j)⟩
      · rintro ⟨_ | m, hm, hk, hstop, hbefore⟩
        · rw [hk, hzero]
        · have hfirst := hbefore 0 (by omega)
          rw [hzero, hstops] at hfirst
          cases hfirst

/-! ## The entries listed -/

/-- The entries from position `p` on that the loop stops at. -/
def entriesFrom (img : Image) (p : Nat) : List Nat :=
  (List.range' p (img.numDirEntries.toNat - p)).filter img.stopsAt

/-- The first number of a range that passes a test, and the numbers after it. -/
theorem filter_range'_cons {f : Nat → Bool} : ∀ {m p k : Nat} {ks : List Nat},
    (List.range' p m).filter f = k :: ks →
    p ≤ k ∧ k < p + m ∧ f k = true ∧ (∀ j, p ≤ j → j < k → f j = false) ∧
      ks = (List.range' (k + 1) (p + m - (k + 1))).filter f
  | 0, _, _, _, h => by cases h
  | m + 1, p, k, ks, h => by
    rw [List.range'_succ] at h
    rcases hp : f p with _ | _
    · rw [List.filter_cons_of_neg (by simp [hp])] at h
      obtain ⟨h1, h2, h3, h4, h5⟩ := filter_range'_cons h
      refine ⟨by omega, by omega, h3, ?_, ?_⟩
      · intro j hj hjk
        rcases Nat.eq_or_lt_of_le hj with rfl | hj
        · exact hp
        · exact h4 j hj hjk
      · rw [h5, show p + 1 + m - (k + 1) = p + (m + 1) - (k + 1) by omega]
    · rw [List.filter_cons_of_pos hp] at h
      obtain ⟨rfl, rfl⟩ := List.cons.inj h
      refine ⟨le_refl _, by omega, hp, fun j h1 h2 => by omega, ?_⟩
      rw [show p + (m + 1) - (p + 1) = m by omega]

/-- The next entry listed, and those after it. -/
theorem entriesFrom_cons {p k : Nat} {ks : List Nat} (hp : p ≤ img.numDirEntries.toNat)
    (h : img.entriesFrom p = k :: ks) :
    p ≤ k ∧ k < img.numDirEntries.toNat ∧ img.stopsAt k = true ∧ (∀ j, p ≤ j → j < k → img.stopsAt j = false) ∧
      ks = img.entriesFrom (k + 1) := by
  obtain ⟨h1, h2, h3, h4, h5⟩ := filter_range'_cons h
  rw [Nat.add_sub_cancel' hp] at h2 h5
  exact ⟨h1, h2, h3, h4, h5⟩

/-- The last entry of the directory, if there is one, has a type byte. -/
def EndsListed (img : Image) : Prop :=
  img.numDirEntries = 0 ∨ img.stopsAt (img.numDirEntries.toNat - 1) = true

instance (img : Image) : Decidable img.EndsListed := inferInstanceAs (Decidable (_ ∨ _))

/-- Before the end of such a directory there is a next entry. -/
theorem EndsListed.entriesFrom_ne_nil {p : Nat} (h : img.EndsListed) (hp : p < img.numDirEntries.toNat) :
    img.entriesFrom p ≠ [] := by
  have hlast : img.stopsAt (img.numDirEntries.toNat - 1) = true := by
    rcases h with h0 | h0
    · rw [h0] at hp
      exact absurd hp (Nat.not_lt_zero p)
    · exact h0
  apply List.ne_nil_of_mem (a := img.numDirEntries.toNat - 1)
  exact List.mem_filter.2 ⟨List.mem_range'_1.2 (by omega), hlast⟩

/-- What stands in entry `k` before its first zero byte, as `strlen` finds it. -/
def entryString (img : Image) (k : Nat) : Option (List UInt8) :=
  (img.nameLen k 0 (2 ^ 32)).map fun n => (List.range n).map (img.dentryByte k)

/-- A `dirread` before the end of the directory: the next entry's string, and the position behind the entry. -/
theorem dirread_eq_some_iff {p : UInt32} {buf : Buf} {r : Int × Buf × UInt32} (hp : p < img.numDirEntries) :
    img.dirread p buf = some r ↔ ∃ k, img.IsNext p k ∧ ∃ n : Nat, img.nameLen k.toNat 0 (2 ^ 32) = some n ∧
      ((n : Int), copy buf 0 (img.dentryByte k.toNat) n, k + 1) = r := by
  unfold dirread
  rw [if_neg (UInt32.not_le.2 hp)]
  constructor
  · intro h
    obtain ⟨k, hk, h⟩ := Option.bind_eq_some_iff.1 h
    obtain ⟨n, hn, h⟩ := Option.bind_eq_some_iff.1 h
    exact ⟨k, nextEntry_eq_some_iff.1 hk, n, hn, Option.some.inj h⟩
  · rintro ⟨k, hk, n, hn, rfl⟩
    exact Option.bind_eq_some_iff.2 ⟨k, nextEntry_eq_some_iff.2 hk, Option.bind_eq_some_iff.2 ⟨n, hn, rfl⟩⟩

/-- `dirread` in a directory that ends with a listed entry: at the end it returns 0, before it the
string of the next entry. -/
theorem dirread_eq {p : UInt32} (buf : Buf) (h : img.EndsListed) (hp : p.toNat ≤ img.numDirEntries.toNat) :
    (img.entriesFrom p.toNat = [] ∧ p = img.numDirEntries ∧ img.examined p = [] ∧
      img.dirread p buf = some (0, buf, p)) ∨
    ∃ k ks, img.entriesFrom p.toNat = k :: ks ∧ (∀ x ∈ img.examined p, x.toNat ≤ k) ∧
      img.dirread p buf = (img.nameLen k 0 (2 ^ 32)).map fun (n : Nat) =>
        ((n : Int), copy buf 0 (img.dentryByte k) n, UInt32.ofNat (k + 1)) := by
  have hnum := img.numDirEntries.toNat_lt
  by_cases hend : p ≥ img.numDirEntries
  · have heq : p = img.numDirEntries := UInt32.toNat_inj.1 (Nat.le_antisymm hp (UInt32.le_iff_toNat_le.1 hend))
    refine Or.inl ⟨?_, heq, ?_, ?_⟩
    · rw [heq, entriesFrom, Nat.sub_self]
      rfl
    · unfold examined
      rw [if_pos hend]
    · unfold dirread
      rw [if_pos hend]
  · have hlt := UInt32.lt_iff_toNat_lt.1 (UInt32.not_le.1 hend)
    obtain ⟨k, ks, hks⟩ := List.exists_cons_of_ne_nil (h.entriesFrom_ne_nil hlt)
    obtain ⟨h1, h2, h3, h4, -⟩ := entriesFrom_cons hp hks
    have hk : k < 2 ^ 32 := by omega
    obtain ⟨h5, h6⟩ := nextEntry_of_first hk h3 h1 (first_within h3 h4) h4
    refine Or.inr ⟨k, ks, hks, ?_, ?_⟩
    · unfold examined
      rw [if_neg hend]
      exact h6
    · have hto : (UInt32.ofNat k).toNat = k := UInt32.toNat_ofNat_of_lt' hk
      unfold dirread
      rw [if_neg hend, h5]
      simp only [bind, Option.bind_some, hto, pure]
      rw [UInt32.ofNat_add]
      rcases img.nameLen k 0 (2 ^ 32) with _ | n <;> rfl

/-! ## Names -/

/-- The name of entry `k`: its 32 bytes up to the first zero one. -/
def entryName (img : Image) (k : Nat) : List UInt8 :=
  ((List.range 32).map (img.dentryByte k)).takeWhile fun b => b ≠ 0

/-- An entry whose type is not that of a device. -/
def isListed (img : Image) (k : Nat) : Bool := (img.dentryAt k).fileType ≠ 0

/-- The names of the entries that are no devices, in the order of the directory. -/
def names (img : Image) : List (List UInt8) :=
  ((List.range img.numDirEntries.toNat).filter img.isListed).map img.entryName

theorem isListed_of_stopsAt {k : Nat} (h : img.stopsAt k = true) : img.isListed k = true := by
  unfold isListed
  simp only [ne_eq, decide_eq_true_eq]
  intro h0
  have hw := congrArg UInt32.toNat h0
  simp only [dentryAt] at hw
  rw [word_toNat] at hw
  have hb : (img.dentryByte k 32).toNat = 0 := by
    have : (0 : UInt32).toNat = 0 := rfl
    omega
  exact stopsAt_iff.1 h (UInt8.toNat_inj.1 hb)

/-- Up to its first zero a range of bytes is what `takeWhile` gives. -/
theorem takeWhile_range {f : Nat → UInt8} {n z : Nat} (hz : z < n) (h0 : f z = 0) (hne : ∀ j, j < z → f j ≠ 0) :
    ((List.range n).map f).takeWhile (fun b => b ≠ 0) = (List.range z).map f := by
  have hsplit : n = z + (n - z) := by omega
  have hhead : (n - z) = (n - z - 1) + 1 := by omega
  rw [hsplit, List.range_add, List.map_append, List.takeWhile_append_of_pos, hhead, List.range_succ_eq_map]
  · simp [h0]
  · intro b hb
    obtain ⟨j, hj, rfl⟩ := List.mem_map.1 hb
    simpa using hne j (List.mem_range.1 hj)

theorem nameLen_of_first {k z : Nat} (h0 : img.dentryByte k z = 0) :
    ∀ {n i : Nat}, i ≤ z → z < i + n → (∀ j, i ≤ j → j < z → img.dentryByte k j ≠ 0) → img.nameLen k i n = some z
  | 0, i, h1, h2, _ => by omega
  | n + 1, i, h1, h2, hne => by
    unfold nameLen
    by_cases hi : i = z
    · rw [hi, if_pos h0]
    · rw [if_neg (hne i (le_refl _) (by omega))]
      exact nameLen_of_first h0 (by omega) (by omega) fun j hj hjz => hne j (by omega) hjz

theorem nameLen_found {k z : Nat} : ∀ {n i : Nat}, img.nameLen k i n = some z →
    img.dentryByte k z = 0 ∧ ∀ j, i ≤ j → j < z → img.dentryByte k j ≠ 0
  | 0, _, h => by cases h
  | n + 1, i, h => by
    unfold nameLen at h
    split at h
    · rename_i h0
      cases h
      exact ⟨h0, fun j h1 h2 => by omega⟩
    · rename_i h0
      obtain ⟨h1, h2⟩ := nameLen_found h
      refine ⟨h1, ?_⟩
      intro j hj hjz
      rcases Nat.eq_or_lt_of_le hj with rfl | hj
      · exact h0
      · exact h2 j hj hjz

/-- The name of entry `k` ends inside its 32 bytes. -/
def Terminated (img : Image) (k : Nat) : Prop := ∃ i, i < 32 ∧ img.dentryByte k i = 0

/-- A terminated name is what `strlen` and the copy give. -/
theorem entryString_of_terminated {k : Nat} (h : img.Terminated k) : img.entryString k = some (img.entryName k) := by
  classical
  have hex : ∃ i, img.dentryByte k i = 0 := h.imp fun _ hi => hi.2
  have hmin : ∀ j, j < Nat.find hex → img.dentryByte k j ≠ 0 := fun j hj => Nat.find_min hex hj
  have hlt : Nat.find hex < 32 := by
    obtain ⟨i, hi, h0⟩ := h
    exact lt_of_le_of_lt (Nat.find_min' hex h0) hi
  unfold entryString entryName
  rw [nameLen_of_first (Nat.find_spec hex) (Nat.zero_le _) (by omega) fun j _ hj => hmin j hj,
    takeWhile_range hlt (Nat.find_spec hex) hmin]
  rfl

/-- The string of an entry whose name is terminated has the length of the name. -/
theorem nameLen_of_terminated {k : Nat} (h : img.Terminated k) :
    img.nameLen k 0 (2 ^ 32) = some (img.entryName k).length := by
  obtain ⟨z, hz, hstr⟩ := Option.map_eq_some_iff.1 (entryString_of_terminated h)
  rw [hz, ← hstr]
  simp

/-- A listed entry whose string is no longer than a name is terminated. -/
theorem terminated_of_entryString {k : Nat} {str : List UInt8} (hk : img.stopsAt k = true)
    (h : img.entryString k = some str) (hle : str.length ≤ 32) : img.Terminated k := by
  obtain ⟨z, hz, rfl⟩ := Option.map_eq_some_iff.1 h
  obtain ⟨h0, -⟩ := nameLen_found hz
  rw [List.length_map, List.length_range] at hle
  refine ⟨z, ?_, h0⟩
  -- byte 32 is the type byte
  have hne : z ≠ 32 := by
    rintro rfl
    exact stopsAt_iff.1 hk h0
  omega

theorem entryName_length (k : Nat) : (img.entryName k).length ≤ 32 := by
  refine (List.takeWhile_sublist _).length_le.trans ?_
  simp

end Image

end Os391
