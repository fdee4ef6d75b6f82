/-
Programs that run in turn on one memory: behind the tables of `paging_init` each has a page of its own, as if the pages
were apart.
-/
import Os391.Base.Simulation
import Os391.Kernel.Paging
import Os391.Kernel.Terminal
import Os391.Process.Staging

namespace Os391

open X86 Paging Bytes

/-- The directory that a value of CR3 stands for. -/
def PageDir.directory : PageDir → Option Directory
  | .pageDirectory => some .kernel
  | .task1 => some (.program 0)
  | .task2 => some (.program 1)
  | .task3 => some (.program 2)
  | .task4 => some (.program 3)
  | .task5 => some (.program 4)
  | .task6 => some (.program 5)
  | .other _ => none

theorem PageDir.directory_inj {c c' : PageDir} {n : Fin 7} (h : c'.directory = some (.program n))
    (h' : c.directory = some (.program n)) : c = c' := by
  cases c <;> cases c' <;> cases h' <;> first | rfl | cases h

/-- `loader` loads the directory of the pid. -/
theorem directory_taskDir (n : Fin 6) (c : PageDir) : (taskDir n.succ c).directory = some (.program n.castSucc) := by
  fin_cases n <;> rfl

namespace Isolation

/-! ## Steps -/

/-- What happens on the way: the kernel loads CR3, a program or the kernel reads or writes a byte, and the processor
marks an entry. -/
inductive Op
  | switch (d : Directory)
  | load (user : Bool) (lin : UInt32)
  | store (user : Bool) (lin : UInt32) (b : UInt8)
  | mark (k : Fin 16) (i : Fin 1024) (e : UInt32)

/-- A step on physical memory. The answer is the byte read or written, unless there is a page fault. -/
def step (base : UInt32) (m : Mmu) : Op → Option UInt8 × Mmu
  | .switch d => (none, { m with cr3 := d.addr base })
  | .load user lin => (m.load user lin, m)
  | .store user lin b =>
    match m.store user lin b with
    | some m' => (some b, m')
    | none => (none, m)
  | .mark k i e =>
    (none,
      if Marked (entry m.mem (tableAt base k) i) e then { m with mem := setEntry (tableAt base k) i e m.mem } else m)

/-- Memory as it is meant: a page for each program, the screen and the kernel's page apart from each other. -/
structure Pages where
  dir : Directory
  mem : Place → UInt8

/-- The same step on it. -/
def Pages.step (wp : Bool) (v : Pages) : Op → Option UInt8 × Pages
  | .switch d => (none, { v with dir := d })
  | .load user lin => ((place wp v.dir ⟨user, false⟩ lin).map v.mem, v)
  | .store user lin b =>
    match place wp v.dir ⟨user, true⟩ lin with
    | some p => (some b, { v with mem := Function.update v.mem p b })
    | none => (none, v)
  | .mark _ _ _ => (none, v)

/-- An address of the tables. -/
def InTables (base a : UInt32) : Prop := base.toNat ≤ a.toNat ∧ a.toNat < base.toNat + 0x10000

/-- The kernel neither reads nor writes the tables once they are made. -/
def Op.Spares (base : UInt32) : Op → Prop
  | .load user lin => user = false → ¬ InTables base lin
  | .store user lin _ => user = false → ¬ InTables base lin
  | _ => True

/-- Physical memory holds the pages, the tables apart. -/
structure Holds (base : UInt32) (wp : Bool) (m : Mmu) (v : Pages) : Prop where
  tables : Tables base m
  wp : bit 16 m.cr0 = wp
  dir : m.cr3 = v.dir.addr base
  mem : ∀ p : Place, ¬ InTables base p.addr → m.mem p.addr = v.mem p

/-! ## The tables are out of reach -/

variable {base : UInt32} {wp : Bool}

theorem place_inTables (hl : Layout base) {d : Directory} {a : Access} {lin : UInt32} {p : Place}
    (hp : place wp d a lin = some p) (hin : InTables base p.addr) : a.user = false ∧ InTables base lin := by
  have hlow := hl.low
  have hhigh := hl.high
  obtain ⟨hfrom, hto⟩ := hin
  rw [Place.addr_toNat] at hfrom hto
  unfold place at hp
  dsimp only at hp
  split_ifs at hp with hscreen hro hkernel huser hprogram
  · obtain rfl := Option.some.inj hp
    dsimp only at hfrom
    omega
  · obtain rfl := Option.some.inj hp
    dsimp only at hfrom hto
    exact ⟨Bool.eq_false_iff.2 huser, by omega, by omega⟩
  · rcases d with _ | n
    · cases hp
    · obtain rfl := Option.some.inj hp
      dsimp only at hto
      omega

/-- An entry that the processor marks, or a byte outside, keeps the tables. -/
theorem tables_setEntry (hl : Layout base) {m : Mmu} (ht : Tables base m) {k : Fin 16} {i : Fin 1024} {e : UInt32}
    (he : Marked (entry m.mem (tableAt base k) i) e) :
    Tables base { m with mem := setEntry (tableAt base k) i e m.mem } := by
  refine ⟨ht.paging, ht.large, fun k' hk' j hj => ?_⟩
  have hentry := ht.entries k' hk' j hj
  rw [entry_set hl k.isLt hk' i.isLt hj]
  split_ifs with h
  · obtain ⟨rfl, rfl⟩ := h
    exact hentry.trans he
  · exact hentry

theorem tables_congr (hl : Layout base) {m : Mmu} (ht : Tables base m) {mem : Memory}
    (h : ∀ a, InTables base a → mem a = m.mem a) : Tables base { m with mem := mem } := by
  refine ⟨ht.paging, ht.large, fun k hk i hi => ?_⟩
  have hhigh := hl.high
  have hsame : entry mem (tableAt base k) i = entry m.mem (tableAt base k) i := by
    refine congrArg of32 (Memory.load_congr fun j hj => h _ ?_)
    unfold InTables
    rw [offset_add, UInt32.toNat_add, UInt32.toNat_ofNat', tableAt_toNat hl hk]
    omega
  exact hsame ▸ ht.entries k hk i hi

theorem tables_update (hl : Layout base) {m : Mmu} (ht : Tables base m) {a : UInt32} (ha : ¬ InTables base a) (b : UInt8) :
    Tables base { m with mem := Function.update m.mem a b } :=
  tables_congr hl ht fun c hc => Function.update_of_ne (show c ≠ a from fun heq => ha (heq ▸ hc)) _ _

/-- A step on memory does what it does to the pages. -/
theorem step_holds (hl : Layout base) {m : Mmu} {v : Pages} {o : Op} (h : Holds base wp m v) (ho : o.Spares base) :
    (step base m o).1 = (v.step wp o).1 ∧ Holds base wp (step base m o).2 (v.step wp o).2 := by
  obtain ⟨ht, hwp, hdir, hmem⟩ := h
  cases o with
  | switch d => exact ⟨rfl, ⟨ht.paging, ht.large, ht.entries⟩, hwp, rfl, hmem⟩
  | load user lin =>
    refine ⟨?_, ht, hwp, hdir, hmem⟩
    show m.load user lin = (place wp v.dir ⟨user, false⟩ lin).map v.mem
    rw [Mmu.load, translate_eq hl ht hdir, hwp, Option.map_map]
    rcases hp : place wp v.dir ⟨user, false⟩ lin with _ | p
    · rfl
    · exact congrArg some (hmem p fun hin => ho (place_inTables hl hp hin).1 (place_inTables hl hp hin).2)
  | store user lin b =>
    have htrans : m.translate ⟨user, true⟩ lin = (place wp v.dir ⟨user, true⟩ lin).map Place.addr :=
      hwp ▸ translate_eq hl ht hdir
    rcases hp : place wp v.dir ⟨user, true⟩ lin with _ | p
    · have hstore : m.store user lin b = none := by rw [Mmu.store, htrans, hp]; rfl
      simp only [step, Pages.step, hstore, hp]
      exact ⟨trivial, ht, hwp, hdir, hmem⟩
    · have hout : ¬ InTables base p.addr := fun hin => ho (place_inTables hl hp hin).1 (place_inTables hl hp hin).2
      have hstore : m.store user lin b = some { m with mem := Function.update m.mem p.addr b } := by
        rw [Mmu.store, htrans, hp]
        rfl
      simp only [step, Pages.step, hstore, hp]
      refine ⟨trivial, tables_update hl ht hout b, hwp, hdir, fun q hq => ?_⟩
      show Function.update m.mem p.addr b q.addr = Function.update v.mem p b q
      rw [Function.update_apply, Function.update_apply, hmem q hq]
      exact if_congr Place.addr_injective.eq_iff rfl rfl
  | mark k i e =>
    refine ⟨rfl, ?_⟩
    simp only [step, Pages.step]
    split_ifs with he
    · refine ⟨tables_setEntry hl ht he, hwp, hdir, fun p hp => ?_⟩
      have haddr := tableAt_toNat hl k.isLt
      have hk := k.isLt
      refine (setEntry_outside (tableAt_aligned hl k.isLt) i.isLt e m.mem ?_).trans (hmem p hp)
      unfold InTables at hp
      omega
    · exact ⟨ht, hwp, hdir, hmem⟩

/-- The pages as `paging_init` finds them. -/
def Pages.ofMemory (mem : Memory) : Pages := ⟨.kernel, fun p => mem p.addr⟩

/-- After `paging_init` memory holds its pages. -/
theorem holds_pagingInit (hl : Layout base) {m : Mmu} (hb : Blank base m.mem) :
    Holds base (bit 16 m.cr0) (pagingInit base m) (Pages.ofMemory (pagingInit base m).mem) := by
  exact ⟨tables_pagingInit hl hb, wp_pagingInit base m, rfl, fun _ _ => rfl⟩

theorem run_holds (hl : Layout base) {m : Mmu} (hb : Blank base m.mem) {ops : List Op} (hops : ∀ o ∈ ops, o.Spares base) :
    Simulation.answers (step base) (pagingInit base m) ops =
        Simulation.answers (Pages.step (bit 16 m.cr0)) (Pages.ofMemory (pagingInit base m).mem) ops ∧
      Holds base (bit 16 m.cr0) (Simulation.final (step base) (pagingInit base m) ops)
        (Simulation.final (Pages.step (bit 16 m.cr0)) (Pages.ofMemory (pagingInit base m).mem) ops) := by
  refine Simulation.refines ?_ (holds_pagingInit hl hb) hops
  exact fun _ _ _ h ho => step_holds hl h ho

/-- Whatever programs and the kernel read and write from `paging_init` on, the kernel neither reading nor writing its
tables, in any order and with any switches between them, they find what they would in pages that lie apart. -/
theorem pages_apart (hl : Layout base) {m : Mmu} (hb : Blank base m.mem) {ops : List Op} (hops : ∀ o ∈ ops, o.Spares base) :
    Simulation.answers (step base) (pagingInit base m) ops =
      Simulation.answers (Pages.step (bit 16 m.cr0)) (Pages.ofMemory (pagingInit base m).mem) ops :=
  (run_holds hl hb hops).1

/-- The first two tasks in turn. -/
def inTurn : List Op :=
  [.switch (.program 0), .store true 0x08048000 7, .switch (.program 1), .load true 0x08048000, .store true 0x08048000 8,
    .switch (.program 0), .load true 0x08048000, .load true 0x00400000]

theorem inTurn_spares : ∀ o ∈ inTurn, o.Spares 0x400000 := by
  simp [inTurn, Op.Spares]

/-- Each finds its own byte, and neither the kernel's. -/
theorem pages_apart_inTurn :
    Simulation.answers (step 0x400000) (pagingInit 0x400000 zeroed) inTurn =
      Simulation.answers (Pages.step false) (Pages.ofMemory (pagingInit 0x400000 zeroed).mem) inTurn :=
  pages_apart layout_first (blank_zeroed _) inTurn_spares

/-! ## A program's page -/

/-- The byte of a program page after some steps: the last one written there under its own directory. -/
def lastByte (n : Fin 7) (o : Fin (2 ^ 22)) : Directory → List Op → UInt8 → UInt8
  | _, [], b => b
  | _, .switch d :: ops, b => lastByte n o d ops b
  | d, .store _ lin c :: ops, b =>
    lastByte n o d ops (if d = .program n ∧ lin.toNat = 0x8000000 + o then c else b)
  | d, .load _ _ :: ops, b => lastByte n o d ops b
  | d, .mark _ _ _ :: ops, b => lastByte n o d ops b

theorem place_program_iff {d : Directory} {a : Access} {lin : UInt32} {n : Fin 7} {o : Fin (2 ^ 22)} :
    place wp d a lin = some (.program n o) ↔ d = .program n ∧ lin.toNat = 0x8000000 + o := by
  have hlt := lin.toNat_lt
  have ho := o.isLt
  unfold place
  dsimp only
  split_ifs with hscreen hro hkernel huser hprogram
  · exact iff_of_false (by simp) fun h => by omega
  · exact iff_of_false (by simp) fun h => by omega
  · exact iff_of_false (by simp) fun h => by omega
  · exact iff_of_false (by simp) fun h => by omega
  · rcases d with _ | n'
    · exact iff_of_false (by simp) fun h => by cases h.1
    · simp only [Option.some.injEq, Place.program.injEq, Directory.program.injEq, Fin.ext_iff]
      omega
  · exact iff_of_false (by simp) fun h => by omega

/-- The same byte among the pages. -/
theorem program_final (n : Fin 7) (o : Fin (2 ^ 22)) : ∀ (ops : List Op) (v : Pages),
    (Simulation.final (Pages.step wp) v ops).mem (.program n o) = lastByte n o v.dir ops (v.mem (.program n o))
  | [], _ => rfl
  | .switch d :: ops, v => program_final n o ops { v with dir := d }
  | .load _ _ :: ops, v => program_final n o ops v
  | .mark _ _ _ :: ops, v => program_final n o ops v
  | .store user lin c :: ops, v => by
    rw [Simulation.final, lastByte, program_final n o ops]
    simp only [Pages.step]
    rcases hp : place wp v.dir ⟨user, true⟩ lin with _ | p
    · rw [if_neg fun h => by rw [place_program_iff.2 h] at hp; cases hp]
    · show lastByte n o v.dir ops (Function.update v.mem p c (.program n o)) = _
      rw [Function.update_apply]
      have hiff := @place_program_iff wp v.dir ⟨user, true⟩ lin n o
      rw [hp, Option.some.injEq, eq_comm] at hiff
      exact congrArg _ (if_congr hiff rfl rfl)

/-- A program's page holds what the program, or the kernel while it runs, has stored there, whatever the others do, as
long as the kernel neither reads nor writes its tables. -/
theorem program_keeps (hl : Layout base) {m : Mmu} (hb : Blank base m.mem) {ops : List Op} (hops : ∀ o ∈ ops, o.Spares base)
    (n : Fin 7) (o : Fin (2 ^ 22)) :
    (Simulation.final (step base) (pagingInit base m) ops).mem (Place.program n o).addr =
      lastByte n o .kernel ops ((pagingInit base m).mem (Place.program n o).addr) := by
  have hend := (run_holds hl hb hops).2
  have hout : ¬ InTables base (Place.program n o).addr := fun hin => by
    have hhigh := hl.high
    have hto := hin.2
    rw [Place.addr_toNat] at hto
    dsimp only at hto
    omega
  rw [hend.mem _ hout, program_final]
  rfl

theorem program_keeps_inTurn :
    (Simulation.final (step 0x400000) (pagingInit 0x400000 zeroed) inTurn).mem (Place.program 0 0x48000).addr = 7 :=
  (program_keeps layout_first (blank_zeroed _) inTurn_spares 0 0x48000).trans (by rfl)

/-! ## The kernel's page -/

theorem place_kernel {d : Directory} {a : Access} {lin : UInt32} {o : Fin (2 ^ 22)}
    (h : place wp d a lin = some (.kernel o)) : a.user = false := by
  unfold place at h
  dsimp only at h
  split_ifs at h with hscreen hro hkernel huser hprogram
  · cases h
  · exact Bool.eq_false_iff.2 huser
  · rcases d with _ | n <;> cases h

/-- Programs that store where they want change nothing of the kernel's page: its bytes stay, and so do the tables but for
the marks of the processor. The kernel itself stores nothing here and does not read its tables. -/
theorem kernel_keeps (hl : Layout base) {m : Mmu} (hb : Blank base m.mem) {ops : List Op} (hops : ∀ o ∈ ops, o.Spares base)
    (huser : ∀ lin b, Op.store false lin b ∉ ops) :
    let m' := Simulation.final (step base) (pagingInit base m) ops
    Tables base m' ∧
      ∀ o, ¬ InTables base (Place.kernel o).addr → m'.mem (Place.kernel o).addr = (pagingInit base m).mem (Place.kernel o).addr := by
  intro m'
  have hend := (run_holds hl hb hops).2
  refine ⟨hend.tables, fun o ho => (hend.mem _ ho).trans ?_⟩
  have hkept : ∀ (v : Pages) (op : Op), v.mem (.kernel o) = (pagingInit base m).mem (Place.kernel o).addr →
      (∀ lin b, op ≠ .store false lin b) → (v.step (bit 16 m.cr0) op).2.mem (.kernel o) = (pagingInit base m).mem (Place.kernel o).addr := by
    intro v op hv hop
    cases op with
    | switch d => exact hv
    | load user lin => exact hv
    | mark k i e => exact hv
    | store user lin b =>
      simp only [Pages.step]
      rcases hp : place (bit 16 m.cr0) v.dir ⟨user, true⟩ lin with _ | p
      · exact hv
      · refine (Function.update_of_ne (fun heq => ?_) _ _).trans hv
        subst heq
        obtain rfl : user = false := place_kernel hp
        exact hop lin b rfl
  exact Simulation.final_inv hkept rfl fun op hop lin b heq => huser lin b (heq ▸ hop)

theorem kernel_keeps_inTurn :
    let m' := Simulation.final (step 0x400000) (pagingInit 0x400000 zeroed) inTurn
    Tables 0x400000 m' ∧
      ∀ o, ¬ InTables 0x400000 (Place.kernel o).addr →
        m'.mem (Place.kernel o).addr = (pagingInit 0x400000 zeroed).mem (Place.kernel o).addr :=
  kernel_keeps layout_first (blank_zeroed _) inTurn_spares (by simp [inTurn])

/-! ## The copy of a program -/

/-- Bytes `i` to `i + n - 1` copied by the kernel, each read behind `q` and then stored behind `p`; none when an access
faults. -/
def copyBytes (q p : Nat) : Nat → Nat → Mmu → Option Mmu
  | _, 0, m => some m
  | i, n + 1, m => (m.load false (UInt32.ofNat (q + i))).bind fun b =>
    (m.store false (UInt32.ofNat (p + i)) b).bind (copyBytes q p (i + 1) n)

/-- The same accesses, for the bytes of a buffer. -/
def copyOps (q p : Nat) (f : Buf) : Nat → Nat → List Op
  | _, 0 => []
  | i, n + 1 => .load false (UInt32.ofNat (q + i)) :: .store false (UInt32.ofNat (p + i)) (f i) :: copyOps q p f (i + 1) n

/-- Where every load answers the byte of the buffer and no store faults, they are the copy. -/
theorem copyBytes_eq {q p : Nat} {f : Buf} : ∀ {n i : Nat} {m : Mmu},
    Simulation.answers (step base) m (copyOps q p f i n) = (List.range' i n).flatMap (fun j => [some (f j), some (f j)]) →
      copyBytes q p i n m = some (Simulation.final (step base) m (copyOps q p f i n))
  | 0, _, _, _ => rfl
  | n + 1, i, m, h => by
    obtain ⟨hload, h⟩ := List.cons.inj h
    obtain ⟨hstore, hrest⟩ := List.cons.inj h
    have hread : m.load false (UInt32.ofNat (q + i)) = some (f i) := hload
    rcases hm : m.store false (UInt32.ofNat (p + i)) (f i) with _ | m'
    · have hfault : (step base m (.store false (UInt32.ofNat (p + i)) (f i))).1 = none := by
        simp only [step, hm]
      have hnone : none = some (f i) := hfault.symm.trans hstore
      cases hnone
    · have hnext : (step base m (.store false (UInt32.ofNat (p + i)) (f i))).2 = m' := by
        simp only [step, hm]
      have hrest' : Simulation.answers (step base) (step base m (.store false (UInt32.ofNat (p + i)) (f i))).2
          (copyOps q p f (i + 1) n) = _ := hrest
      rw [hnext] at hrest'
      have hcopy := copyBytes_eq hrest'
      show (m.load false (UInt32.ofNat (q + i))).bind _ = some (Simulation.final (step base)
        (step base m (.store false (UInt32.ofNat (p + i)) (f i))).2 (copyOps q p f (i + 1) n))
      rw [hread, Option.bind_some, hm, Option.bind_some, hnext, hcopy]

/-- Physical memory holds a kernel state: CR3 its directory, the program pages by linear address, and of the kernel's page
the save areas and the staging area. -/
structure Shows (base : UInt32) (m : Mmu) (s : Kernel) : Prop where
  tables : Tables base m
  dir : ∃ d, s.cr3.directory = some d ∧ m.cr3 = d.addr base
  pages : ∀ c n, c.directory = some (.program n) →
    ∀ o : Fin (2 ^ 22), m.mem (Place.program n o).addr = s.user c (0x8000000 + o.val)
  mem : ∀ o : Fin (2 ^ 22), 0x200000 ≤ o.val → o.val < 0x205000 + Kernel.stagingRoom →
    m.mem (Place.kernel o).addr = s.mem (0x400000 + o.val)

/-- The accesses of a copy from behind the tables to a program page. -/
theorem copyOps_spares (hl : Layout base) {q p : Nat} (f : Buf) (hq : base.toNat + 0x10000 ≤ q) (hp : 0x8000000 ≤ p) :
    ∀ {n i : Nat}, q + i + n ≤ 0x800000 → p + i + n ≤ 0x8400000 → ∀ o ∈ copyOps q p f i n, o.Spares base
  | 0, _, _, _, _, ho => absurd ho List.not_mem_nil
  | n + 1, i, hread, hlen, o, ho => by
    rcases List.mem_cons.1 ho with rfl | ho
    · -- the load is behind the tables
      intro _ hin
      have hto := hin.2
      rw [UInt32.toNat_ofNat'] at hto
      omega
    rcases List.mem_cons.1 ho with rfl | ho
    · intro _ hin
      have hhigh := hl.high
      have hto := hin.2
      rw [UInt32.toNat_ofNat'] at hto
      omega
    · exact copyOps_spares hl f hq hp (by omega) (by omega) o ho

theorem copyOps_dir (q p : Nat) (f : Buf) : ∀ (n i : Nat) (v : Pages),
    (Simulation.final (Pages.step wp) v (copyOps q p f i n)).dir = v.dir
  | 0, _, _ => rfl
  | n + 1, i, v => by
    rw [copyOps, Simulation.final, Simulation.final, copyOps_dir q p f n]
    simp only [Pages.step]
    rcases place wp v.dir ⟨false, true⟩ (UInt32.ofNat (p + i)) with _ | r <;> rfl

/-- What the stores leave in a program page. -/
theorem lastByte_copyOps {n : Fin 7} {o : Fin (2 ^ 22)} {d : Directory} {q p : Nat} (f : Buf) (hp : 0x8000000 ≤ p) :
    ∀ {k i : Nat} {b : UInt8}, p + i + k ≤ 0x8400000 →
      lastByte n o d (copyOps q p f i k) b =
        if d = .program n ∧ p + i ≤ 0x8000000 + o ∧ 0x8000000 + o < p + i + k then f (0x8000000 + o - p) else b
  | 0, i, b, _ => by
    rw [if_neg (by omega)]
    rfl
  | k + 1, i, b, hlen => by
    have haddr : (UInt32.ofNat (p + i)).toNat = p + i := by
      rw [UInt32.toNat_ofNat']
      omega
    rw [copyOps, lastByte, lastByte, lastByte_copyOps f hp (by omega), haddr]
    by_cases hd : d = .program n
    · by_cases hhere : p + i = 0x8000000 + o.val
      · rw [if_neg (by omega), if_pos ⟨hd, hhere⟩, if_pos ⟨hd, by omega⟩, ← hhere, Nat.add_sub_cancel_left]
      · rw [if_neg (show ¬ (d = .program n ∧ p + i = 0x8000000 + o.val) from fun h => hhere h.2)]
        exact if_congr (and_congr_right fun _ => by omega) rfl rfl
    · rw [if_neg fun h => hd h.1, if_neg fun h => hd h.1, if_neg fun h => hd h.1]

/-- The kernel reaches every byte of its page. -/
theorem place_kernel_page {d : Directory} {w : Bool} {lin : UInt32} (h : lin.toNat / 2 ^ 22 = 1) :
    place wp d ⟨false, w⟩ lin = some (.kernel ⟨lin.toNat % 2 ^ 22, Nat.mod_lt _ (by decide)⟩) := by
  have hscreen : ¬ lin.toNat / 2 ^ 12 = 0xB8 := by omega
  unfold place
  dsimp only
  rw [if_neg hscreen, if_pos h]
  rfl

/-- Among the pages every load of a copy answers the byte in the kernel's page, every store goes through, and the kernel's
page stays. -/
theorem copyOps_pages {n : Fin 7} {q p : Nat} {f : Buf} (hq : 0x400000 ≤ q) (hp : 0x8000000 ≤ p) :
    ∀ {k i : Nat} {v : Pages}, v.dir = .program n → q + i + k ≤ 0x800000 → p + i + k ≤ 0x8400000 →
      (∀ j, i ≤ j → j < i + k → ∀ o : Fin (2 ^ 22), q + j = 0x400000 + o.val → v.mem (.kernel o) = f j) →
      Simulation.answers (Pages.step wp) v (copyOps q p f i k) =
          (List.range' i k).flatMap (fun j => [some (f j), some (f j)]) ∧
        ∀ o, (Simulation.final (Pages.step wp) v (copyOps q p f i k)).mem (.kernel o) = v.mem (.kernel o)
  | 0, _, _, _, _, _, _ => ⟨rfl, fun _ => rfl⟩
  | k + 1, i, v, hdir, hread, hlen, hf => by
    have hfrom : (UInt32.ofNat (q + i)).toNat = q + i := by
      rw [UInt32.toNat_ofNat']
      omega
    have hto : (UInt32.ofNat (p + i)).toNat = p + i := by
      rw [UInt32.toNat_ofNat']
      omega
    -- the byte read comes from the kernel's page, the one stored goes to a program page
    have hload : (v.step wp (.load false (UInt32.ofNat (q + i)))).1 = some (f i) := by
      show (place wp v.dir ⟨false, false⟩ (UInt32.ofNat (q + i))).map v.mem = _
      rw [place_kernel_page (by rw [hfrom]; omega), Option.map_some]
      exact congrArg some (hf i (le_refl i) (by omega) _ (by dsimp only; rw [hfrom]; omega))
    have hplace : place wp v.dir ⟨false, true⟩ (UInt32.ofNat (p + i)) =
        some (.program n ⟨p + i - 0x8000000, by omega⟩) := by
      rw [place_program_iff]
      exact ⟨hdir, by rw [hto]; dsimp only; omega⟩
    obtain ⟨v', hv', hdir', hkernel⟩ : ∃ v' : Pages,
        v.step wp (.store false (UInt32.ofNat (p + i)) (f i)) = (some (f i), v') ∧ v'.dir = .program n ∧
          ∀ o, v'.mem (.kernel o) = v.mem (.kernel o) := by
      refine ⟨{ v with mem := Function.update v.mem (.program n ⟨p + i - 0x8000000, by omega⟩) (f i) }, ?_, hdir,
        fun o => ?_⟩
      · simp only [Pages.step, hplace]
      · have hne : Place.kernel o ≠ .program n ⟨p + i - 0x8000000, by omega⟩ := by simp
        exact Function.update_of_ne hne (f i) v.mem
    obtain ⟨hans, hkept⟩ := copyOps_pages hq hp (k := k) (i := i + 1) (v := v') hdir' (by omega) (by omega)
      fun j hj hjk o ho => (hkernel o).trans (hf j (by omega) (by omega) o ho)
    have hnext : (v.step wp (.load false (UInt32.ofNat (q + i)))).2 = v := rfl
    constructor
    · rw [copyOps, Simulation.answers, Simulation.answers, hload, hnext, hv', List.range'_succ, List.flatMap_cons, hans]
      rfl
    · intro o
      rw [copyOps, Simulation.final, Simulation.final, hnext, hv', hkept, hkernel]

/-- A copy from the kernel's memory to a program page arrives in the page of the process that runs. -/
theorem shows_copy (hl : Layout base) (hbase : base.toNat + 0x10000 ≤ 0x600000) {m : Mmu} {s : Kernel}
    (h : Shows base m s) {n : Fin 7} (hn : s.cr3.directory = some (.program n)) {q p len : Nat} (hq : 0x600000 ≤ q)
    (hroom : q + len ≤ 0x605000 + Kernel.stagingRoom) (hp : 0x8000000 ≤ p) (hlen : p + len ≤ 0x8400000) :
    ∃ m', copyBytes q p 0 len m = some m' ∧ Shows base m' (s.userPut p len (s.mem.view q)) := by
  obtain ⟨ht, ⟨d, hd, hcr3⟩, hpages, hmem⟩ := h
  obtain rfl : d = .program n := by
    rw [hn] at hd
    exact (Option.some.inj hd).symm
  have hend8 : q + 0 + len ≤ 0x800000 := by
    unfold Kernel.stagingRoom at hroom
    omega
  have hstart : Holds base (bit 16 m.cr0) m ⟨.program n, fun p => m.mem p.addr⟩ := ⟨ht, rfl, hcr3, fun _ _ => rfl⟩
  have hrun : ∀ s t o, Holds base (bit 16 m.cr0) s t → o.Spares base →
      (step base s o).1 = (t.step (bit 16 m.cr0) o).1 ∧ Holds base (bit 16 m.cr0) (step base s o).2 (t.step (bit 16 m.cr0) o).2 :=
    fun _ _ _ h ho => step_holds hl h ho
  obtain ⟨hans, hend⟩ := Simulation.refines hrun hstart
    (copyOps_spares hl (s.mem.view q) (by omega : base.toNat + 0x10000 ≤ q) hp (i := 0) (n := len) hend8 hlen)
  obtain ⟨hpagesAns, hkernel⟩ := @copyOps_pages (bit 16 m.cr0) n q p (s.mem.view q) (by omega) hp len 0
    ⟨.program n, fun p => m.mem p.addr⟩ rfl hend8 hlen fun j _ hj o ho => by
      show m.mem (Place.kernel o).addr = s.mem (q + j)
      rw [hmem o (by omega) (by omega)]
      congr 1
      omega
  refine ⟨_, copyBytes_eq (hans.trans hpagesAns), hend.tables, ⟨.program n, hn, by rw [hend.dir, copyOps_dir]⟩,
    fun c n' hc o => ?_, fun o ho ho' => ?_⟩
  · have hout : ¬ InTables base (Place.program n' o).addr := fun hin => by
      have hhigh := hl.high
      have hto := hin.2
      rw [Place.addr_toNat] at hto
      dsimp only at hto
      omega
    rw [hend.mem _ hout, program_final, lastByte_copyOps (s.mem.view q) hp hlen]
    show (if _ then _ else m.mem (Place.program n' o).addr) = Function.update s.user s.cr3 _ c _
    rw [hpages c n' hc o, Function.update_apply]
    by_cases hsame : c = s.cr3
    · subst hsame
      obtain rfl : n = n' := by
        rw [hn] at hc
        exact Directory.program.inj (Option.some.inj hc)
      rw [if_pos rfl, Mem.put]
      refine if_congr ?_ (congrArg (s.mem.view q) (by omega)) rfl
      rw [and_iff_right rfl]
      omega
    · have hother : Directory.program n ≠ .program n' := fun heq => hsame (PageDir.directory_inj (heq ▸ hn) hc)
      rw [if_neg hsame, if_neg fun h => hother h.1]
  · have hout : ¬ InTables base (Place.kernel o).addr := fun hin => by
      have hto := hin.2
      rw [Place.addr_toNat] at hto
      dsimp only at hto
      omega
    rw [hend.mem _ hout, hkernel]
    exact hmem o ho ho'

/-- The state at boot, with the memory of the machine and the first entry chosen. -/
def bootShown (m : Mmu) : Kernel :=
  { Kernel.boot with
    newPid := some 1
    mem := fun a => m.mem (UInt32.ofNat a.toNat)
    user := fun c a =>
      match c.directory with
      | some (.program n) => m.mem (Place.program n ⟨(a - 0x8000000).toNat % 2 ^ 22, Nat.mod_lt _ (by decide)⟩).addr
      | _ => 0 }

/-- A machine in whose memory a program has been staged. -/
def withStaged (img : Image) (inode : UInt32) (m : Mmu) : Mmu :=
  { m with mem := fun a => Kernel.staged img inode (fun b => m.mem (UInt32.ofNat b.toNat)) a.toNat }

theorem withStaged_mem (img : Image) (inode : UInt32) (m : Mmu) (a : UInt32) : (withStaged img inode m).mem a =
    Kernel.staged img inode (fun b => m.mem (UInt32.ofNat b.toNat)) a.toNat := rfl

theorem withStaged_outside {img : Image} {inode : UInt32} {m : Mmu} {a : UInt32}
    (h : ¬ (0x605000 ≤ a.toNat ∧ a.toNat < 0x605000 + (img.dataLength inode).toNat)) :
    (withStaged img inode m).mem a = m.mem a := by
  have hout : ¬ (Kernel.newLoad ≤ a.toNat ∧ (a.toNat : Int) < Kernel.newLoad + (img.dataLength inode).toNat) := by
    unfold Kernel.newLoad
    omega
  rw [withStaged_mem, Kernel.staged, Mem.put_outside hout, Int.toNat_natCast, UInt32.ofNat_toNat]

theorem shows_withStaged (hl : Layout base) (hbase : base.toNat + 0x10000 ≤ 0x600000) (img : Image) (inode : UInt32)
    {m : Mmu} (hb : Blank base m.mem) :
    let m' := withStaged img inode (pagingInit base m)
    Shows base m' { bootShown m' with mem := Kernel.staged img inode (bootShown m').mem } := by
  intro m'
  have htables : Tables base m' := by
    refine tables_congr hl (tables_pagingInit hl hb) fun a ha => withStaged_outside ?_
    have hto := ha.2
    omega
  refine ⟨htables, ⟨.kernel, rfl, rfl⟩, fun c n hc o => ?_, fun o _ ho => ?_⟩
  · have hoffset : ((0x8000000 : Int) + o.val - 0x8000000).toNat % 2 ^ 22 = o.val := by
      have ho := o.isLt
      omega
    simp only [bootShown, hc, hoffset]
  · have haddr : (UInt32.ofNat (0x400000 + o.val)).toNat = 0x400000 + o.val := by
      have ho := o.isLt
      rw [UInt32.toNat_ofNat']
      omega
    show m'.mem (UInt32.ofNat (0x400000 + o.val)) = Kernel.staged img inode (bootShown m').mem (0x400000 + o.val)
    by_cases hin : Kernel.newLoad ≤ 0x400000 + o.val ∧ (0x400000 + o.val : Int) < Kernel.newLoad + (img.dataLength inode).toNat
    · rw [withStaged_mem, haddr]
      exact Kernel.staged_inside _ _ hin
    · have hnat : ((0x400000 : Int) + o.val).toNat = 0x400000 + o.val := by omega
      rw [Kernel.staged, Mem.put_outside hin]
      simp only [bootShown, hnat]

end Isolation

end Os391
