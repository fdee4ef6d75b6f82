/-
What the outcome of a load depends on. `loader` takes the entry point from the staging area, whatever
`read_data` has put there: a program shorter than 28 bytes gets part of its entry point from what was staged
before, and a program of the last inode gets zeros. A program that reaches up to the kernel stack is staged over
the frames of the call itself.
-/
import Os391.Process.Staging

namespace Os391

open Bytes

/-! ## The first block -/

namespace Image

variable {img : Image} {inode : UInt32}

/-- The bytes of the first block are those of the file, for a read from its start. -/
theorem readData_first {length : UInt32} {buf : Buf} {k : Nat} (hi : inode < img.numInodes - 1)
    (hk : k < available (img.dataLength inode) 0 length) (hb : k < oneBlockSize) :
    (img.readData inode 0 buf length).buf k = img.fileByte inode k := by
  have hlen : 0 < (img.dataLength inode).toNat := by
    have hle := Nat.min_le_right length.toNat ((img.dataLength inode).toNat - (0 : UInt32).toNat)
    unfold available at hk
    omega
  have hzero : (0 : UInt32).toNat = 0 := rfl
  have hsum : (0 : UInt32).toNat + length.toNat < 2 ^ 32 := by
    rw [hzero, Nat.zero_add]
    exact length.toNat_lt
  have ho : (0 : UInt32) < img.dataLength inode := UInt32.lt_iff_toNat_lt.2 hlen
  obtain ⟨rval, hr, heq⟩ := readData_copies buf hi ho hsum
  rw [← hr] at hk
  have hsrc : img.block inode 0 k = img.fileByte inode k := by
    unfold fileByte
    rw [Nat.div_eq_of_lt hb, Nat.mod_eq_of_lt hb]
  rw [heq]
  show img.copyLoop inode 0 (rval.toNat + 1) true 0 rval.toNat 0 _ k = _
  have hmod := rval.toNat_lt
  unfold copyLoop
  simp only [if_neg (show rval.toNat ≠ 0 by omega), if_true, Nat.zero_add, Nat.sub_zero, Nat.mod_eq_of_lt hmod]
  split
  · rw [copy, if_pos (by omega), Nat.sub_zero, hsrc]
  · rw [copyLoop_before hb, copy, if_pos (by omega), Nat.sub_zero, hsrc]

/-- What `read_data` leaves for the last inode and those past it: zeros. -/
theorem readData_refused {length : UInt32} {buf : Buf} {k : Nat} (hi : ¬ inode < img.numInodes - 1)
    (hk : k < length.toNat) : (img.readData inode 0 buf length).buf k = 0 := by
  have hz : Bytes.zero buf length.toNat k = 0 := if_pos hk
  unfold readData
  simp only
  split
  · exact hz
  · rw [if_pos (UInt32.not_lt.1 hi)]
    exact hz

end Image

namespace Kernel

variable {img : Image}

/-! ## Loads -/

/-- What `loader` returns for a program, and the memory of the programs after it. -/
theorem loader_outcome {filename : Buf} {inode : UInt32} (s : Kernel) (h : img.executable filename = some inode) :
    let staging := (staged img inode s.mem).view newLoad
    let dir := (s.newPid.map fun n => taskDir n s.cr3).getD s.cr3
    (loader img filename s).1 = word staging 24 ∧
      (loader img filename s).2.user =
        Function.update s.user dir ((s.user dir).put programImg (img.dataLength inode).toNat staging) := by
  intro staging dir
  obtain ⟨d, hs⟩ := loader_accepted s h
  rw [hs]
  rcases hn : s.newPid with _ | n
  all_goals
    simp only [dir, hn]
    rcases img.loadPosition inode with _ | v <;> simp only [storeFpos, loadTask, userPut] <;> exact ⟨rfl, rfl⟩

/-- The staged file stays below the stack frames in use, from address `low` on, and in the kernel's page. -/
def FitsBelow (img : Image) (low : Int) (inode : UInt32) : Prop :=
  newLoad + (img.dataLength inode).toNat ≤ min low 0x800000

instance (img : Image) (low : Int) (inode : UInt32) : Decidable (FitsBelow img low inode) :=
  inferInstanceAs (Decidable (_ ≤ _))

/-- `loader`, when the kernel stack is in use from address `low` on. A longer file is staged over the frames of the call,
or faults at the end of the page, and there is no outcome. -/
def loaderBelow (img : Image) (low : Int) (filename : Buf) (s : Kernel) : Option (UInt32 × Kernel) :=
  match img.executable filename with
  | some inode => if FitsBelow img low inode then some (loader img filename s) else none
  | none => some (loader img filename s)

/-- Two outcomes of a load are that of the file alone: both are -1, or both are the word at offset 24 of the file, with
the same program stored. -/
def SameOutcome (img : Image) (filename : Buf) (r r' : UInt32 × Kernel) : Prop :=
  (r.1 = 0xFFFFFFFF ∧ r'.1 = 0xFFFFFFFF) ∨
    ∃ e, img.lookup filename = some e ∧ r.1 = word (img.fileByte e.inodeNumber) 24 ∧ r'.1 = r.1 ∧ r'.2.user = r.2.user

/-- `loader` returns, and its outcome is that of the file alone, whatever stands at `NEW_LOAD` and in `dentry1` before
the call. -/
def DependsOnFile (img : Image) (low : Int) (filename : Buf) : Prop :=
  ∀ (s : Kernel) (mem : Mem) (dentry : Dentry), (∀ a, a < newLoad → mem a = s.mem a) →
    ∃ r r', loaderBelow img low filename s = some r ∧
      loaderBelow img low filename { s with mem := mem, dentry1 := dentry } = some r' ∧ SameOutcome img filename r r'

theorem loaderBelow_some {low : Int} {filename : Buf} {s : Kernel} {r : UInt32 × Kernel}
    (h : loaderBelow img low filename s = some r) :
    (∀ inode ∈ img.executable filename, FitsBelow img low inode) ∧ r = loader img filename s := by
  unfold loaderBelow at h
  rcases he : img.executable filename with _ | inode
  · rw [he] at h
    refine ⟨fun _ hno => ?_, (Option.some.inj h).symm⟩
    cases hno
  · rw [he] at h
    simp only at h
    split at h
    · rename_i hfits
      exact ⟨fun _ hsome => Option.some.inj hsome ▸ hfits, (Option.some.inj h).symm⟩
    · cases h

theorem loaderBelow_fits {low : Int} {filename : Buf} (h : ∀ inode ∈ img.executable filename, FitsBelow img low inode)
    (s : Kernel) : loaderBelow img low filename s = some (loader img filename s) := by
  unfold loaderBelow
  rcases he : img.executable filename with _ | inode
  · rfl
  · exact if_pos (h inode he)

theorem executable_lookup {filename : Buf} {inode : UInt32} (h : img.executable filename = some inode) :
    ∃ e, img.lookup filename = some e ∧ e.inodeNumber = inode := by
  obtain ⟨e, he, h⟩ := Option.bind_eq_some_iff.1 h
  refine ⟨e, he, ?_⟩
  split at h
  · cases h
  split at h
  · exact Option.some.inj h
  · cases h

/-- The program stored comes from the file alone. -/
theorem put_staged (inode : UInt32) (m m' u : Mem) :
    u.put programImg (img.dataLength inode).toNat ((staged img inode m).view newLoad) =
      u.put programImg (img.dataLength inode).toNat ((staged img inode m').view newLoad) := by
  funext a
  unfold Mem.put
  split
  case isTrue h =>
    rw [staged_view, staged_view]
    exact Image.readData_congr _ _ (by omega)
  case isFalse => rfl

/-- The entry point of a program of at least 28 bytes: that of the file, or zero where `read_data` refuses it. -/
theorem staged_entry {inode : UInt32} (m : Mem) (hlen : 28 ≤ (img.dataLength inode).toNat) :
    word ((staged img inode m).view newLoad) 24 =
      if inode < img.numInodes - 1 then word (img.fileByte inode) 24 else 0 := by
  have hbytes : ∀ k, k < 28 → (staged img inode m).view newLoad k =
      if inode < img.numInodes - 1 then img.fileByte inode k else 0 := by
    intro k hk
    rw [staged_view]
    split
    case isTrue hi =>
      have hzero : (0 : UInt32).toNat = 0 := rfl
      refine Image.readData_first hi ?_ (by unfold Image.oneBlockSize; omega)
      unfold Image.available
      omega
    case isFalse hi => exact Image.readData_refused hi (by omega)
  have hword : word ((staged img inode m).view newLoad) 24 =
      word (fun k => if inode < img.numInodes - 1 then img.fileByte inode k else 0) 24 :=
    word_congr fun k hk => hbytes (24 + k) (by omega)
  rw [hword]
  split
  · rfl
  · decide

/-- What dependence on the file alone says of the entry points staged in two runs. -/
theorem DependsOnFile.entry {low : Int} {filename : Buf} {inode : UInt32} (h : DependsOnFile img low filename)
    (he : img.executable filename = some inode) (s : Kernel) (mem : Mem) (hmem : ∀ a, a < newLoad → mem a = s.mem a) :
    word ((staged img inode mem).view newLoad) 24 = word ((staged img inode s.mem).view newLoad) 24 ∧
      (word ((staged img inode s.mem).view newLoad) 24 = 0xFFFFFFFF ∨
        word ((staged img inode s.mem).view newLoad) 24 = word (img.fileByte inode) 24) := by
  obtain ⟨e, hl, rfl⟩ := executable_lookup he
  have hret := (loader_outcome s he).1
  have hret' := (loader_outcome { s with mem := mem, dentry1 := s.dentry1 } he).1
  obtain ⟨r, r', hr, hr', hsame⟩ := h s mem s.dentry1 hmem
  obtain ⟨-, rfl⟩ := loaderBelow_some hr
  obtain ⟨-, rfl⟩ := loaderBelow_some hr'
  rcases hsame with ⟨h1, h2⟩ | ⟨e', hl', h1, h2, -⟩
  · exact ⟨(hret'.symm.trans h2).trans (hret.symm.trans h1).symm, .inl (hret.symm.trans h1)⟩
  · obtain rfl := Option.some.inj (hl'.symm.trans hl)
    exact ⟨hret'.symm.trans (h2.trans hret), .inr (hret.symm.trans h1)⟩

/-- A program of at least 28 bytes that `read_data` reads, or whose entry point is 0, is loaded alike from any memory. -/
theorem sameOutcome_loader {filename : Buf} {inode : UInt32} (he : img.executable filename = some inode)
    (hlen : 28 ≤ (img.dataLength inode).toNat) (hword : inode < img.numInodes - 1 ∨ word (img.fileByte inode) 24 = 0)
    (s : Kernel) (mem : Mem) (dentry : Dentry) :
    SameOutcome img filename (loader img filename s) (loader img filename { s with mem := mem, dentry1 := dentry }) := by
  obtain ⟨e, hl, rfl⟩ := executable_lookup he
  obtain ⟨hret, huser⟩ := loader_outcome s he
  obtain ⟨hret', huser'⟩ := loader_outcome { s with mem := mem, dentry1 := dentry } he
  rw [staged_entry _ hlen] at hret hret'
  refine Or.inr ⟨e, hl, ?_, hret'.trans hret.symm, ?_⟩
  · rw [hret]
    split
    · rfl
    · rename_i hi
      exact (hword.resolve_left hi).symm
  · rw [huser, huser', put_staged _ mem s.mem]

/-- The outcome of a load is that of the file exactly where the file is refused, or has 28 bytes, ends below the stack in
use, and is one that `read_data` reads or that has the entry point 0. -/
theorem dependsOnFile_iff (img : Image) (low : Int) (filename : Buf) :
    DependsOnFile img low filename ↔ ∀ inode, img.executable filename = some inode →
      28 ≤ (img.dataLength inode).toNat ∧ FitsBelow img low inode ∧
        (inode < img.numInodes - 1 ∨ word (img.fileByte inode) 24 = 0) := by
  constructor
  · intro h inode he
    -- two runs with different bytes at `NEW_LOAD`
    obtain ⟨s, hs⟩ : ∃ s : Kernel, s.mem = fun _ => 0 := ⟨{ boot with mem := fun _ => 0 }, rfl⟩
    obtain ⟨mem, hlow, hhigh⟩ : ∃ mem : Mem, (∀ a, a < newLoad → mem a = 0) ∧ ∀ a, newLoad ≤ a → mem a = 1 :=
      ⟨fun a => if a < newLoad then 0 else 1, fun _ ha => if_pos ha, fun _ ha => if_neg (by omega)⟩
    have hmem : ∀ a, a < newLoad → mem a = s.mem a := fun a ha => (hlow a ha).trans (congrFun hs a).symm
    obtain ⟨hsame, hfile⟩ := h.entry he s mem hmem
    have hzero : ∀ k, (img.dataLength inode).toNat ≤ k →
        (staged img inode s.mem).view newLoad k = 0 ∧ (staged img inode mem).view newLoad k = 1 := by
      intro k hk
      rw [staged_view, staged_view, Image.readData_outside hk, Image.readData_outside hk]
      exact ⟨congrFun hs _, hhigh _ (by omega)⟩
    have hlen : 28 ≤ (img.dataLength inode).toNat := by
      by_contra hlt
      obtain ⟨h0, h1⟩ := hzero 27 (by omega)
      have hbyte := word_byte hsame
      rw [h0, h1] at hbyte
      cases hbyte
    have hfits : FitsBelow img low inode := by
      obtain ⟨r, -, hr, -⟩ := h s mem s.dentry1 hmem
      exact (loaderBelow_some hr).1 inode he
    refine ⟨hlen, hfits, ?_⟩
    by_contra hn
    obtain ⟨hi, hword⟩ := not_or.1 hn
    rw [staged_entry _ hlen, if_neg hi] at hfile
    rcases hfile with h0 | h0
    · cases h0
    · exact hword h0.symm
  · intro h s mem dentry hmem
    have hfits : ∀ inode ∈ img.executable filename, FitsBelow img low inode := fun inode he => (h inode he).2.1
    refine ⟨loader img filename s, loader img filename { s with mem := mem, dentry1 := dentry }, loaderBelow_fits hfits _,
      loaderBelow_fits hfits _, ?_⟩
    rcases he : img.executable filename with _ | inode
    · left
      obtain ⟨d, hd⟩ := loader_refused s he
      obtain ⟨d', hd'⟩ := loader_refused { s with mem := mem, dentry1 := dentry } he
      exact ⟨congrArg Prod.fst hd, congrArg Prod.fst hd'⟩
    · obtain ⟨hlen, -, hword⟩ := h inode he
      exact sameOutcome_loader he hlen hword s mem dentry

/-- A program of the four magic bytes alone. -/
def stub : Image := .ofPieces [
  (0, [2, 0, 0, 0, 3]), (64, ascii ['.']), (96, [1]), (128, ascii ['s', 't', 'u', 'b']), (160, [2, 0, 0, 0, 1]),
  (8192, [4]), (16384, [0x7f, 0x45, 0x4c, 0x46])]

/-- Its entry point is what was staged before. -/
theorem stub_entry :
    let name := (⟨ascii ['s', 't', 'u', 'b'], by decide +kernel⟩ : CString).get
    stub.executable name = some 1 ∧ stub.dataLength 1 = 4 ∧
      (loader stub name { boot with mem := fun _ => 0 }).1 = 0 ∧
      (loader stub name { boot with mem := fun _ => 1 }).1 = 0x01010101 ∧ FitsBelow stub 0x7FF000 1 ∧
      ¬ DependsOnFile stub 0x7FF000 name := by
  intro name
  have he : stub.executable name = some 1 := by decide +kernel
  have hword : ∀ c : UInt8, word ((staged stub 1 fun _ => c).view newLoad) 24 = word (fun _ => c) 0 := by
    intro c
    have hbyte : ∀ k, 24 ≤ k → (staged stub 1 fun _ => c).view newLoad k = c := by
      intro k hk
      have hlen : (stub.dataLength 1).toNat = 4 := by decide +kernel
      rw [staged_view, Image.readData_outside (by omega)]
      rfl
    exact word_congr fun k _ => hbyte (24 + k) (by omega)
  have h0 : (loader stub name { boot with mem := fun _ => 0 }).1 = 0 :=
    (loader_outcome _ he).1.trans ((hword 0).trans (by decide))
  have h1 : (loader stub name { boot with mem := fun _ => 1 }).1 = 0x01010101 :=
    (loader_outcome _ he).1.trans ((hword 1).trans (by decide))
  refine ⟨he, by decide +kernel, h0, h1, by decide +kernel, ?_⟩
  intro h
  have hsame := (h.entry he { boot with mem := fun _ => 0 } (fun a => if a < newLoad then 0 else 1)
    fun _ ha => if_pos ha).1
  have hbyte := word_byte hsame
  have hlen : (stub.dataLength 1).toNat ≤ 27 := by decide +kernel
  rw [staged_view, staged_view, Image.readData_outside hlen, Image.readData_outside hlen] at hbyte
  revert hbyte
  decide

end Kernel

end Os391
