/-
`paging_init`: the directories and tables that `x86_desc.S` lays out one behind the other, what they hold after it, and
where a linear address then leads.
-/
import Os391.Base.Paging

namespace Os391

open X86 Paging

/-! ## The directories -/

/-- `page_directory`, `task1_page_directory` to `task6_page_directory` and `terminal_page_directory`. The latter seven
have a program page, and are numbered from 0 on. -/
inductive Directory
  | kernel
  | program (n : Fin 7)
  deriving DecidableEq

/-- Where `x86_desc.S` puts a directory or a table: `page_directory`, `page_table`, `page_table1` to `page_table6`,
`terminal_page_table`, `task1_page_directory` to `task6_page_directory` and `terminal_page_directory`. -/
def tableAt (base : UInt32) (k : Nat) : UInt32 := base + UInt32.ofNat (0x1000 * k)

/-- The places of the directories in this order. -/
def Directory.place : Directory → Nat
  | .kernel => 0
  | .program n => 9 + n

theorem Directory.place_lt : ∀ d : Directory, d.place < 16
  | .kernel => by decide
  | .program n => by
    have hn := n.isLt
    show 9 + n.val < 16
    omega

/-- What CR3 holds for a directory. -/
def Directory.addr (base : UInt32) (d : Directory) : UInt32 := tableAt base d.place

/-! ## paging_init -/

/-- `KERNEL_PTR`. -/
def kernelPtr : UInt32 := 0x00400183

/-- `VIDEO_MEM_LOCATION`. -/
def videoMemLocation : Nat := 184

/-- The first loop of `paging_init`, which leaves out `terminal_page_directory`. -/
def clearDirectories (base : UInt32) (mem : Memory) : Memory :=
  (List.range 1024).foldl
    (fun mem i => [0, 9, 10, 11, 12, 13, 14].foldl (fun mem k => setEntry (tableAt base k) i 0 mem) mem) mem

/-- The second loop, which begins with entry 1. -/
def clearTable (base : UInt32) (mem : Memory) : Memory :=
  (List.range' 1 1023).foldl (fun mem i => setEntry (tableAt base 1) i 0 mem) mem

/-- The entry of a table in its directory: `page_table | USER_SUPERVISOR | PRESENT | MASK_RW`. -/
def tableEntry (base : UInt32) (k : Nat) : UInt32 := tableAt base k ||| 4 ||| 1 ||| 2

/-- The entries of `page_directory` and `page_table`, the latter with `VIDEO_MEM_PAGE_SU`. -/
def mapKernel (base : UInt32) (mem : Memory) : Memory :=
  let mem := setEntry (tableAt base 1) videoMemLocation 0x000B8005 mem
  let mem := setEntry (tableAt base 0) 0 (tableEntry base 1) mem
  setEntry (tableAt base 0) 1 kernelPtr mem

/-- The entries of one of the other directories and of its table, the latter with `VIDEO_MEM_PAGE_U`. -/
def mapProgram (base : UInt32) (n : Fin 7) (map : UInt32) (mem : Memory) : Memory :=
  let mem := setEntry (tableAt base (2 + n)) videoMemLocation 0x000B8007 mem
  let mem := setEntry (tableAt base (9 + n)) 0 (tableEntry base (2 + n)) mem
  let mem := setEntry (tableAt base (9 + n)) 1 kernelPtr mem
  setEntry (tableAt base (9 + n)) 32 map mem

/-- `paging_init`, from `MB_8_MAP` to `MB_32_MAP`. -/
def pagingInit (base : UInt32) (m : Mmu) : Mmu :=
  let mem := mapKernel base (clearTable base (clearDirectories base m.mem))
  let mem := mapProgram base 0 0x00800087 mem
  let mem := mapProgram base 1 0x00C00087 mem
  let mem := mapProgram base 2 0x01000087 mem
  let mem := mapProgram base 3 0x01400087 mem
  let mem := mapProgram base 4 0x01800087 mem
  let mem := mapProgram base 5 0x01C00087 mem
  let mem := mapProgram base 6 0x02000087 mem
  { cr4 := m.cr4 ||| 0x10, mem := mem, cr3 := tableAt base 0, cr0 := m.cr0 ||| 0x80000000 }

/-- The kernel is linked at 4 MB and ends below 8 MB. -/
structure Layout (base : UInt32) : Prop where
  aligned : Aligned base
  low : 2 ^ 22 ≤ base.toNat
  high : base.toNat + 0x10000 ≤ 2 ^ 23

/-- The entries that `paging_init` leaves alone are zero, as `x86_desc.S` has them. -/
def Blank (base : UInt32) (mem : Memory) : Prop :=
  ∀ k < 16, ∀ i < 1024, k = 1 ∧ i = 0 ∨ 2 ≤ k ∧ k ≤ 8 ∨ k = 15 → entry mem (tableAt base k) i = 0

/-! ## The entries after it -/

/-- Entry `i` of the directory or table at place `k`. -/
def mapped (base : UInt32) (k i : Nat) : UInt32 :=
  if k = 0 then if i = 0 then tableAt base 1 + UInt32.ofNat 7 else if i = 1 then kernelPtr else 0
  else if k = 1 then if i = 184 then 0x000B8005 else 0
  else if k ≤ 8 then if i = 184 then 0x000B8007 else 0
  else if i = 0 then tableAt base (k - 7) + UInt32.ofNat 7
  else if i = 1 then kernelPtr
  else if i = 32 then 0x00800087 + 0x400000 * UInt32.ofNat (k - 9)
  else 0

section

variable {base : UInt32} (hl : Layout base)
include hl

theorem tableAt_toNat {k : Nat} (hk : k < 16) : (tableAt base k).toNat = base.toNat + 0x1000 * k := by
  have hlow := hl.low
  have hhigh := hl.high
  rw [tableAt, UInt32.toNat_add, UInt32.toNat_ofNat']
  omega

theorem tableAt_aligned {k : Nat} (hk : k < 16) : Aligned (tableAt base k) := by
  have ha := hl.aligned
  unfold Aligned at *
  rw [tableAt_toNat hl hk]
  omega

theorem tableAt_inj {k k' : Nat} (hk : k < 16) (hk' : k' < 16) : tableAt base k = tableAt base k' ↔ k = k' := by
  rw [← UInt32.toNat_inj, tableAt_toNat hl hk, tableAt_toNat hl hk']
  omega

/-- One entry written. -/
theorem entry_set {k k' i j : Nat} (hk : k < 16) (hk' : k' < 16) (hi : i < 1024) (hj : j < 1024) (e : UInt32)
    (mem : Memory) : entry (setEntry (tableAt base k) i e mem) (tableAt base k') j =
      if k = k' ∧ i = j then e else entry mem (tableAt base k') j := by
  simp only [entry_setEntry (tableAt_aligned hl hk) (tableAt_aligned hl hk') hi hj, tableAt_inj hl hk hk']

/-- Several entries set to zero. -/
theorem entry_clear {es : List (Nat × Nat)} (hes : ∀ x ∈ es, x.1 < 16 ∧ x.2 < 1024) {k j : Nat} (hk : k < 16) (hj : j < 1024)
    (mem : Memory) :
    entry (es.foldl (fun mem x => setEntry (tableAt base x.1) x.2 0 mem) mem) (tableAt base k) j =
      if (k, j) ∈ es then 0 else entry mem (tableAt base k) j := by
  induction es generalizing mem with
  | nil => rfl
  | cons x es ih =>
    obtain ⟨hx, hx'⟩ := hes x List.mem_cons_self
    rw [List.foldl_cons, ih (fun y hy => hes y (List.mem_cons_of_mem _ hy)), entry_set hl hx hk hx' hj]
    by_cases hmem : (k, j) ∈ es
    · rw [if_pos hmem, if_pos (List.mem_cons_of_mem _ hmem)]
    · rw [if_neg hmem]
      refine if_congr ?_ rfl rfl
      rw [List.mem_cons, or_iff_left hmem, Prod.ext_iff]
      exact and_congr eq_comm eq_comm

theorem entry_clearDirectories {k j : Nat} (hk : k < 16) (hj : j < 1024) (mem : Memory) :
    entry (clearDirectories base mem) (tableAt base k) j =
      if k ∈ [0, 9, 10, 11, 12, 13, 14] then 0 else entry mem (tableAt base k) j := by
  have hfold : clearDirectories base mem =
      ((List.range 1024).flatMap fun i => [0, 9, 10, 11, 12, 13, 14].map fun k => (k, i)).foldl
        (fun mem x => setEntry (tableAt base x.1) x.2 0 mem) mem := by
    simp only [clearDirectories, List.foldl_flatMap, List.foldl_map]
  rw [hfold, entry_clear hl ?_ hk hj]
  · refine if_congr ?_ rfl rfl
    simp only [List.mem_flatMap, List.mem_range, List.mem_map, Prod.mk.injEq]
    exact ⟨fun ⟨i, _, k', hk', h, _⟩ => h ▸ hk', fun h => ⟨j, hj, k, h, rfl, rfl⟩⟩
  · intro x hx
    simp only [List.mem_flatMap, List.mem_range, List.mem_map] at hx
    obtain ⟨i, hi, k, hk, rfl⟩ := hx
    refine ⟨?_, hi⟩
    simp only [List.mem_cons, List.not_mem_nil, or_false] at hk
    omega

theorem entry_clearTable {k j : Nat} (hk : k < 16) (hj : j < 1024) (mem : Memory) :
    entry (clearTable base mem) (tableAt base k) j = if k = 1 ∧ 1 ≤ j then 0 else entry mem (tableAt base k) j := by
  have hfold : clearTable base mem = ((List.range' 1 1023).map fun i => (1, i)).foldl
      (fun mem x => setEntry (tableAt base x.1) x.2 0 mem) mem := by
    simp only [clearTable, List.foldl_map]
  rw [hfold, entry_clear hl ?_ hk hj]
  · refine if_congr ?_ rfl rfl
    simp only [List.mem_map, List.mem_range'_1, Prod.mk.injEq]
    exact ⟨fun ⟨i, hi, h, h'⟩ => by omega, fun ⟨h, h'⟩ => ⟨j, by omega, h.symm, rfl⟩⟩
  · intro x hx
    simp only [List.mem_map, List.mem_range'_1] at hx
    obtain ⟨i, hi, rfl⟩ := hx
    exact ⟨show 1 < 16 by decide, show i < 1024 by omega⟩

/-- After the loops all entries are zero. -/
theorem cleared {mem : Memory} (hb : Blank base mem) {k i : Nat} (hk : k < 16) (hi : i < 1024) :
    entry (clearTable base (clearDirectories base mem)) (tableAt base k) i = 0 := by
  rw [entry_clearTable hl hk hi, entry_clearDirectories hl hk hi]
  split_ifs with h h'
  · rfl
  · rfl
  · refine hb k hk i hi ?_
    simp only [List.mem_cons, List.not_mem_nil, or_false] at h'
    omega

theorem tableEntry_eq {k : Nat} (hk : k < 16) : tableEntry base k = tableAt base k + UInt32.ofNat 7 := by
  have ha := tableAt_aligned hl hk
  have hlt := (tableAt base k).toNat_lt
  have hbits : (tableAt base k).toNat = 2 ^ 3 * ((tableAt base k).toNat / 2 ^ 3) := by
    unfold Aligned at ha
    omega
  unfold tableEntry
  generalize tableAt base k = t at *
  have hor : t ||| 4 ||| 1 ||| 2 = t ||| 7 := by
    rw [UInt32.or_assoc, UInt32.or_assoc]
    rfl
  have hseven : (7 : UInt32).toNat = 7 := rfl
  have hseven' : (UInt32.ofNat 7).toNat = 7 := rfl
  refine UInt32.toNat_inj.1 ?_
  unfold Aligned at ha
  rw [hor, UInt32.toNat_or, UInt32.toNat_add, hseven, hseven', Nat.mod_eq_of_lt (by omega), hbits,
    Nat.two_pow_add_eq_or_of_lt (by decide)]

/-- What the entries are for the kernel. -/
theorem entry_mapKernel {k i : Nat} (hk : k < 16) (hi : i < 1024) (mem : Memory) :
    entry (mapKernel base mem) (tableAt base k) i =
      if k = 0 ∧ i = 0 then tableAt base 1 + UInt32.ofNat 7
      else if k = 0 ∧ i = 1 then kernelPtr
      else if k = 1 ∧ i = 184 then 0x000B8005
      else entry mem (tableAt base k) i := by
  simp only [mapKernel, videoMemLocation, entry_set hl (show 0 < 16 by decide) hk (show 1 < 1024 by decide) hi,
    entry_set hl (show 0 < 16 by decide) hk (show 0 < 1024 by decide) hi,
    entry_set hl (show 1 < 16 by decide) hk (show 184 < 1024 by decide) hi, tableEntry_eq hl (show 1 < 16 by decide)]
  split_ifs <;> first | omega | rfl

/-- And for a program. -/
theorem entry_mapProgram {k i : Nat} (hk : k < 16) (hi : i < 1024) (n : Fin 7) (map : UInt32) (mem : Memory) :
    entry (mapProgram base n map mem) (tableAt base k) i =
      if k = 9 + n ∧ i = 0 then tableAt base (2 + n) + UInt32.ofNat 7
      else if k = 9 + n ∧ i = 1 then kernelPtr
      else if k = 9 + n ∧ i = 32 then map
      else if k = 2 + n ∧ i = 184 then 0x000B8007
      else entry mem (tableAt base k) i := by
  have hn := n.isLt
  simp only [mapProgram, videoMemLocation, entry_set hl (show 9 + n.val < 16 by omega) hk (show 1 < 1024 by decide) hi,
    entry_set hl (show 9 + n.val < 16 by omega) hk (show 0 < 1024 by decide) hi,
    entry_set hl (show 9 + n.val < 16 by omega) hk (show 32 < 1024 by decide) hi,
    entry_set hl (show 2 + n.val < 16 by omega) hk (show 184 < 1024 by decide) hi,
    tableEntry_eq hl (show 2 + n.val < 16 by omega)]
  split_ifs <;> first | omega | rfl

/-- After `paging_init`. -/
theorem entry_pagingInit {m : Mmu} (hb : Blank base m.mem) {k i : Nat} (hk : k < 16) (hi : i < 1024) :
    entry (pagingInit base m).mem (tableAt base k) i = mapped base k i := by
  have hzero := cleared hl hb hk hi
  simp only [pagingInit, entry_mapProgram hl hk hi, entry_mapKernel hl hk hi, hzero, mapped]
  interval_cases k <;> simp

end

/-! ## Where addresses lead -/

/-- The places that programs and the kernel reach: the kernel's 4 MB, the page of video memory, and the program page of
each directory but the first, by offset. -/
inductive Place
  | kernel (o : Fin (2 ^ 22))
  | screen (o : Fin (2 ^ 12))
  | program (n : Fin 7) (o : Fin (2 ^ 22))
  deriving DecidableEq

/-- Their physical addresses: the program pages follow each other from 8 MB on. -/
def Place.addr : Place → UInt32
  | .kernel o => UInt32.ofNat (0x400000 + o)
  | .screen o => UInt32.ofNat (0xB8000 + o)
  | .program n o => UInt32.ofNat (0x800000 + 0x400000 * n + o)

/-- Where an access to a linear address leads under a directory; `none` is a page fault. With the first directory video
memory is for reading only. -/
def place (wp : Bool) (d : Directory) (a : Access) (lin : UInt32) : Option Place :=
  let inPage := ⟨lin.toNat % 2 ^ 22, Nat.mod_lt _ (by decide)⟩
  if lin.toNat / 2 ^ 12 = 0xB8 then
    if d = .kernel ∧ a.write ∧ (a.user ∨ wp) then none else some (.screen ⟨lin.toNat % 2 ^ 12, Nat.mod_lt _ (by decide)⟩)
  else if lin.toNat / 2 ^ 22 = 1 then if a.user then none else some (.kernel inPage)
  else if lin.toNat / 2 ^ 22 = 32 then
    match d with
    | .kernel => none
    | .program n => some (.program n inPage)
  else none

theorem Place.addr_toNat (p : Place) : p.addr.toNat = match p with
    | .kernel o => 0x400000 + o.val
    | .screen o => 0xB8000 + o.val
    | .program n o => 0x800000 + 0x400000 * n.val + o.val := by
  rcases p with o | o | ⟨n, o⟩ <;> exact (UInt32.toNat_ofNat' ..).trans (Nat.mod_eq_of_lt (by omega))

/-- Different places have different addresses. -/
theorem Place.addr_injective : Function.Injective Place.addr := by
  intro p q h
  have h' := congrArg UInt32.toNat h
  rw [addr_toNat, addr_toNat] at h'
  rcases p with o | o | ⟨n, o⟩ <;> rcases q with o' | o' | ⟨n', o'⟩ <;> dsimp only at h'
  all_goals first
    | omega
    | exact congrArg _ (Fin.ext (by omega))
    | skip
  obtain rfl : n = n' := Fin.ext (by omega)
  exact congrArg _ (Fin.ext (by omega))

/-- The control registers and the entries are as `paging_init` leaves them, but for the marks of the processor. -/
structure Tables (base : UInt32) (m : Mmu) : Prop where
  paging : bit 31 m.cr0 = true
  large : bit 4 m.cr4 = true
  entries : ∀ k < 16, ∀ i < 1024, Marked (mapped base k i) (entry m.mem (tableAt base k) i)

section

variable {base : UInt32} (hl : Layout base)
include hl

theorem tables_pagingInit {m : Mmu} (hb : Blank base m.mem) : Tables base (pagingInit base m) := by
  refine ⟨?_, ?_, fun k hk i hi => entry_pagingInit hl hb hk hi ▸ Marked.refl _⟩
  · show (m.cr0 ||| 0x80000000).toNat.testBit 31 = true
    rw [UInt32.toNat_or, Nat.testBit_or]
    exact Bool.or_true _
  · show (m.cr4 ||| 0x10).toNat.testBit 4 = true
    rw [UInt32.toNat_or, Nat.testBit_or]
    exact Bool.or_true _

theorem bit_tableEntry {k : Nat} (hk : k < 16) {j : Nat} (hj : j < 12) :
    bit j (tableAt base k + UInt32.ofNat 7) = Nat.testBit 7 j := by
  have ha := tableAt_aligned hl hk
  have hlt := (tableAt base k).toNat_lt
  have hseven : (UInt32.ofNat 7).toNat = 7 := rfl
  have hmod : (tableAt base k + UInt32.ofNat 7).toNat % 2 ^ 12 = 7 := by
    unfold Aligned at ha
    rw [UInt32.toNat_add, hseven]
    omega
  have hbit := congrArg (Nat.testBit · j) hmod
  simp only [Nat.testBit_mod_two_pow, decide_eq_true hj, Bool.true_and] at hbit
  exact hbit

theorem allows_tableEntry (wp : Bool) (a : Access) {k : Nat} (hk : k < 16) :
    allows wp a (tableAt base k + UInt32.ofNat 7) = true := by
  unfold allows
  rw [bit_tableEntry hl hk (by decide), bit_tableEntry hl hk (by decide), bit_tableEntry hl hk (by decide)]
  rcases wp <;> rcases a with ⟨_ | _, _ | _⟩ <;> rfl

variable {m : Mmu} {d : Directory} {a : Access} {lin : UInt32} (ht : Tables base m) (hcr3 : m.cr3 = d.addr base)
include ht hcr3

theorem marked_directory (lin : UInt32) :
    Marked (mapped base d.place (lin.toNat / 2 ^ 22)) (entry m.mem (frame 12 m.cr3) (lin.toNat / 2 ^ 22)) := by
  have hlt := lin.toNat_lt
  have hplace := d.place_lt
  have hframe : frame 12 m.cr3 = tableAt base d.place := by
    rw [hcr3, ← UInt32.add_zero (d.addr base)]
    exact frame_of_aligned (tableAt_aligned hl hplace) (by decide)
  rw [hframe]
  exact ht.entries _ hplace _ (by omega)

/-- The first 4 MB: of the pages in the table only the one of video memory is there. -/
theorem translate_low {k : Nat} (hk : k < 16) (e : UInt32)
    (hpde : mapped base d.place 0 = tableAt base k + UInt32.ofNat 7)
    (hpte : ∀ j, mapped base k j = if j = 184 then e else 0) (hlow : lin.toNat / 2 ^ 22 = 0) :
    m.translate a lin =
      if lin.toNat / 2 ^ 12 = 0xB8 then
        if allows (bit 16 m.cr0) a e then some (frame 12 e + UInt32.ofNat (lin.toNat % 2 ^ 12)) else none
      else none := by
  have hdir := marked_directory hl ht hcr3 lin
  rw [hlow, hpde] at hdir
  have htable : Marked (if lin.toNat / 2 ^ 12 = 0xB8 then e else 0)
      (entry m.mem (frame 12 (tableAt base k + UInt32.ofNat 7)) (lin.toNat / 2 ^ 12 % 2 ^ 10)) := by
    rw [frame_of_aligned (tableAt_aligned hl hk) (by decide), show lin.toNat / 2 ^ 12 % 2 ^ 10 = lin.toNat / 2 ^ 12 by omega]
    have hentry := ht.entries k hk (lin.toNat / 2 ^ 12) (by omega)
    rwa [hpte] at hentry
  rw [translate_small (a := a) ht.paging (hlow.symm ▸ hdir) (bit_tableEntry hl hk (by decide)) htable, allows_tableEntry hl _ _ hk,
    Bool.true_and]
  by_cases hpage : lin.toNat / 2 ^ 12 = 0xB8
  · rw [if_pos hpage, if_pos hpage]
  · rw [if_neg hpage, if_neg hpage]
    rfl

/-- The page of video memory, which the first directory maps for reading. -/
theorem translate_low_eq (hlow : lin.toNat / 2 ^ 22 = 0) :
    m.translate a lin = (place (bit 16 m.cr0) d a lin).map Place.addr := by
  have hshift : ∀ o, UInt32.ofNat (0xB8000 + o) = 0xB8000 + UInt32.ofNat o := fun o => UInt32.ofNat_add _ _
  unfold place
  dsimp only
  rw [if_neg (by omega : ¬ lin.toNat / 2 ^ 22 = 1), if_neg (by omega : ¬ lin.toNat / 2 ^ 22 = 32)]
  rcases d with _ | n
  · have hallows : allows (bit 16 m.cr0) a 0x000B8005 = !(a.write && (a.user || bit 16 m.cr0)) := by
      rcases bit 16 m.cr0 <;> rcases a with ⟨_ | _, _ | _⟩ <;> rfl
    rw [translate_low hl ht hcr3 (show 1 < 16 by decide) 0x000B8005 rfl (fun j => rfl) hlow, hallows]
    by_cases hpage : lin.toNat / 2 ^ 12 = 0xB8
    · rw [if_pos hpage, if_pos hpage]
      rcases hwrite : a.write && (a.user || bit 16 m.cr0) with _ | _
      · rw [Bool.not_false, if_pos rfl, if_neg fun h => by simp_all]
        exact congrArg some (hshift _).symm
      · rw [Bool.not_true, if_neg Bool.false_ne_true, if_pos (by simp_all)]
        rfl
    · rw [if_neg hpage, if_neg hpage]
      rfl
  · have hn := n.isLt
    have hallows : allows (bit 16 m.cr0) a 0x000B8007 = true := by
      rcases bit 16 m.cr0 <;> rcases a with ⟨_ | _, _ | _⟩ <;> rfl
    have hpde : mapped base (9 + n) 0 = tableAt base (2 + n) + UInt32.ofNat 7 := by
      unfold mapped
      rw [if_neg (by omega), if_neg (by omega), if_neg (by omega), if_pos rfl, show 9 + n.val - 7 = 2 + n.val by omega]
    have hpte : ∀ j, mapped base (2 + n) j = if j = 184 then 0x000B8007 else 0 := fun j => by
      unfold mapped
      rw [if_neg (by omega), if_neg (by omega), if_pos (by omega)]
    have hrw : ¬ (Directory.program n = .kernel ∧ a.write = true ∧ (a.user = true ∨ bit 16 m.cr0 = true)) := fun h => by
      cases h.1
    rw [translate_low hl ht hcr3 (show 2 + n.val < 16 by omega) _ hpde hpte hlow, hallows, if_pos rfl, if_neg hrw]
    by_cases hpage : lin.toNat / 2 ^ 12 = 0xB8
    · rw [if_pos hpage, if_pos hpage]
      exact congrArg some (hshift _).symm
    · rw [if_neg hpage, if_neg hpage]
      rfl

/-- The kernel's page, which is the same in all directories. -/
theorem translate_one_eq (hone : lin.toNat / 2 ^ 22 = 1) :
    m.translate a lin = (place (bit 16 m.cr0) d a lin).map Place.addr := by
  have hdir := marked_directory hl ht hcr3 lin
  have hpde : mapped base d.place 1 = kernelPtr := by
    rcases d with _ | n
    · rfl
    · show mapped base (9 + n) 1 = kernelPtr
      unfold mapped
      rw [if_neg (by omega), if_neg (by omega), if_neg (by omega)]
      rfl
  have hallows : allows (bit 16 m.cr0) a kernelPtr = !a.user := by
    rcases bit 16 m.cr0 <;> rcases a with ⟨_ | _, _ | _⟩ <;> rfl
  have hshift : ∀ o, UInt32.ofNat (0x400000 + o) = frame 22 kernelPtr + UInt32.ofNat o := fun o => UInt32.ofNat_add _ _
  rw [hone, hpde] at hdir
  rw [translate_large (a := a) ht.paging (hone.symm ▸ hdir) ht.large rfl, hallows]
  unfold place
  dsimp only
  rw [if_neg (by omega : ¬ lin.toNat / 2 ^ 12 = 0xB8), if_pos hone]
  rcases a.user
  · exact congrArg some (hshift _).symm
  · rfl

/-- The other pages of 4 MB: of these only the program page is there. -/
theorem translate_high_eq (hhigh : 1 < lin.toNat / 2 ^ 22) :
    m.translate a lin = (place (bit 16 m.cr0) d a lin).map Place.addr := by
  have hdir := marked_directory hl ht hcr3 lin
  unfold place
  dsimp only
  rw [if_neg (by omega : ¬ lin.toNat / 2 ^ 12 = 0xB8), if_neg (by omega : ¬ lin.toNat / 2 ^ 22 = 1)]
  rcases d with _ | n
  · have hpde : mapped base 0 (lin.toNat / 2 ^ 22) = 0 := by
      unfold mapped
      rw [if_pos rfl, if_neg (by omega), if_neg (by omega)]
    rw [translate_absent ht.paging hdir (hpde ▸ rfl)]
    split_ifs <;> rfl
  · have hpde : mapped base (9 + n) (lin.toNat / 2 ^ 22) =
        if lin.toNat / 2 ^ 22 = 32 then 0x00800087 + 0x400000 * UInt32.ofNat n else 0 := by
      unfold mapped
      rw [if_neg (by omega), if_neg (by omega), if_neg (by omega), if_neg (by omega), if_neg (by omega),
        Nat.add_sub_cancel_left]
    by_cases hprogram : lin.toNat / 2 ^ 22 = 32
    · have hbits : ∀ (n : Fin 7) (wp : Bool), bit 7 (0x00800087 + 0x400000 * UInt32.ofNat n) = true ∧
          allows wp a (0x00800087 + 0x400000 * UInt32.ofNat n) = true ∧
            frame 22 (0x00800087 + 0x400000 * UInt32.ofNat n) = UInt32.ofNat (0x800000 + 0x400000 * n) := by
        intro n wp
        rcases wp <;> rcases a with ⟨_ | _, _ | _⟩ <;> fin_cases n <;> exact ⟨rfl, rfl, rfl⟩
      obtain ⟨hbit, hallows, hframe⟩ := hbits n (bit 16 m.cr0)
      rw [if_pos hprogram] at hpde
      rw [Directory.place, hpde] at hdir
      rw [translate_large (a := a) ht.paging hdir ht.large hbit, hallows, hframe, if_pos hprogram, ← UInt32.ofNat_add]
      rfl
    · rw [if_neg hprogram] at hpde
      rw [translate_absent ht.paging hdir (by rw [Directory.place, hpde]; rfl), if_neg hprogram]
      rfl

/-- Where the tables lead, for each linear address and each access. -/
theorem translate_eq : m.translate a lin = (place (bit 16 m.cr0) d a lin).map Place.addr := by
  rcases Nat.lt_trichotomy (lin.toNat / 2 ^ 22) 1 with hlow | hone | hhigh
  · exact translate_low_eq hl ht hcr3 (by omega)
  · exact translate_one_eq hl ht hcr3 hone
  · exact translate_high_eq hl ht hcr3 hhigh

end

/-- `paging_init` leaves CR0.WP alone. -/
theorem wp_pagingInit (base : UInt32) (m : Mmu) : bit 16 (pagingInit base m).cr0 = bit 16 m.cr0 := by
  show (m.cr0 ||| 0x80000000).toNat.testBit 16 = m.cr0.toNat.testBit 16
  rw [UInt32.toNat_or, Nat.testBit_or]
  exact Bool.or_false _

/-- After `paging_init` each directory leads an access to the kernel's page, to video memory, to its own program page or
nowhere, and no two linear addresses that lead to different places meet in memory. -/
theorem translate_pagingInit {base : UInt32} (hl : Layout base) {m : Mmu} (hb : Blank base m.mem) (d : Directory) (a : Access)
    (lin : UInt32) : ({ pagingInit base m with cr3 := d.addr base } : Mmu).translate a lin =
      (place (bit 16 m.cr0) d a lin).map Place.addr ∧ Function.Injective Place.addr := by
  have ht := tables_pagingInit hl hb
  have htables : Tables base { pagingInit base m with cr3 := d.addr base } := ⟨ht.paging, ht.large, ht.entries⟩
  rw [← wp_pagingInit base m]
  exact ⟨translate_eq hl htables rfl, Place.addr_injective⟩

/-- Memory and registers that are zero. -/
def zeroed : Mmu := ⟨0, 0, 0, fun _ => 0⟩

theorem blank_zeroed (base : UInt32) : Blank base zeroed.mem := fun _ _ _ _ _ =>
  show of32 [0, 0, 0, 0] = 0 by decide

/-- A kernel whose tables come first. -/
theorem layout_first : Layout 0x400000 := ⟨rfl, by decide, by decide⟩

/-- The start of the third task's program. -/
theorem translate_pagingInit_third :
    ({ pagingInit 0x400000 zeroed with cr3 := (Directory.program 2).addr 0x400000 } : Mmu).translate ⟨true, true⟩ 0x08048000 =
      some 0x01048000 :=
  (translate_pagingInit layout_first (blank_zeroed _) (.program 2) ⟨true, true⟩ 0x08048000).1.trans rfl

end Os391
