/-
Where a load writes. `loader` stages a file at `NEW_LOAD`, between the save areas of terminals 2 and
3, so what a load does to the saved screens depends on the length of the file alone.
-/
import Os391.Files.Copy
import Os391.Kernel.Terminal
import Os391.Process.Spec

namespace Os391

open Bytes

/-! ## read_data and its buffer -/

namespace Image

variable {img : Image} {inode : UInt32} {index : Nat}

/-- What the copy loop leaves at an offset depends on the buffer only through the byte there. -/
theorem copyLoop_congr : ∀ {fuel : Nat} {indexFlag : Bool} {i left hold j : Nat} {buf buf' : Buf}, buf j = buf' j →
      img.copyLoop inode index fuel indexFlag i left hold buf j =
        img.copyLoop inode index fuel indexFlag i left hold buf' j
  | 0, _, _, _, _, _, _, _, h => h
  | fuel + 1, indexFlag, i, left, hold, j, buf, buf', h => by
    unfold copyLoop
    split
    · exact h
    split
    · simp only
      split
      · exact copy_congr h
      · exact copyLoop_congr (copy_congr h)
    split
    · simp only
      split
      · exact copy_congr (copy_congr h)
      · exact copyLoop_congr (copy_congr h)
    · exact copy_congr h

/-- `read_data` at offset 0 clears or fills the whole buffer: no byte of it keeps its old value. -/
theorem readData_congr (buf buf' : Buf) {length : UInt32} {j : Nat} (hj : j < length.toNat) :
    (img.readData inode 0 buf length).buf j = (img.readData inode 0 buf' length).buf j := by
  have hz : Bytes.zero buf length.toNat j = Bytes.zero buf' length.toNat j := by
    simp only [Bytes.zero, if_pos hj]
  unfold readData
  simp only
  split
  · exact hz
  split
  · exact hz
  · exact copyLoop_congr hz

end Image

namespace Kernel

variable {img : Image}

/-! ## The staging area -/

/-- What is staged is all that `read_data` writes: nothing lies past the length of the file. -/
theorem staged_view (inode : UInt32) (m : Mem) :
    (staged img inode m).view newLoad = (img.readData inode 0 (m.view newLoad) (img.dataLength inode)).buf := by
  funext j
  unfold staged Mem.view
  by_cases hj : j < (img.dataLength inode).toNat
  · rw [Mem.put_inside (by omega)]
    congr 1
    omega
  · rw [Mem.put_outside (by omega), Image.readData_outside (Nat.not_lt.1 hj)]

/-- What is staged does not depend on what was there before. -/
theorem staged_inside {inode : UInt32} (m m' : Mem) {a : Int}
    (h : newLoad ≤ a ∧ a < newLoad + (img.dataLength inode).toNat) : staged img inode m a = staged img inode m' a := by
  have ha : a = newLoad + ((a - newLoad).toNat : Int) := by omega
  rw [ha]
  show (staged img inode m).view newLoad (a - newLoad).toNat = (staged img inode m').view newLoad (a - newLoad).toNat
  rw [staged_view, staged_view, Image.readData_congr _ (m'.view newLoad) (by omega)]

/-- A load writes the byte at `a`: from some memory, the byte there changes. -/
def LoadWrites (img : Image) (filename : Buf) (a : Int) : Prop :=
  ∃ s : Kernel, (loader img filename s).2.mem a ≠ s.mem a

theorem loader_mem {filename : Buf} {inode : UInt32} (h : img.executable filename = some inode) (s : Kernel) :
    (loader img filename s).2.mem = staged img inode s.mem := by
  rcases hn : s.newPid with _ | n
  · -- with no pid chosen the staging is the same and no page directory is loaded
    have hs : (loader img filename s).2.mem = (loader img filename { s with newPid := some 0 }).2.mem := by
      unfold loader
      simp only
      split
      · rfl
      split
      · rfl
      split
      · rcases (img.readData _ _ _ _).fpos with _ | v <;> simp [storeFpos, loadTask, hn, userPut]
      · rfl
    obtain ⟨d, fpos, hl⟩ := loader_loads { s with newPid := some 0 } h rfl
    rw [hs, hl]
    rfl
  · obtain ⟨d, fpos, hl⟩ := loader_loads s h hn
    rw [hl]
    rfl

/-- A load writes the bytes from `NEW_LOAD` on, as many as the file is long. -/
theorem loadWrites_iff {filename : Buf} {inode : UInt32} (h : img.executable filename = some inode) (a : Int) :
    LoadWrites img filename a ↔ newLoad ≤ a ∧ a < newLoad + (img.dataLength inode).toNat := by
  constructor
  · rintro ⟨s, hs⟩
    by_contra ha
    rw [loader_mem h, staged, Mem.put_outside ha] at hs
    exact hs rfl
  · intro ha
    -- the byte left there is the same for every memory, so some memory had another one
    let b := staged img inode (fun _ => 0) a
    have hb : ∀ m : Mem, staged img inode m a = b := fun m => staged_inside m _ ha
    refine ⟨{ boot with mem := fun _ => if b = 0 then 1 else 0 }, ?_⟩
    rw [loader_mem h, hb]
    show b ≠ if b = 0 then 1 else 0
    split
    · rename_i hb; rw [hb]; decide
    · assumption

/-- The bytes of a terminal's save area. -/
def InArea (t : TermNum) (a : Int) : Prop := termArea t ≤ a ∧ a < termArea t + areaSize

/-- A file of at most 12 KB is staged below the save areas. -/
theorem short_spares_areas {filename : Buf} {inode : UInt32} (h : img.executable filename = some inode)
    (hlen : (img.dataLength inode).toNat ≤ 0x3000) {t : TermNum} {a : Int} (ha : InArea t a) : ¬ LoadWrites img filename a := by
  rw [loadWrites_iff h]
  rintro ⟨hw1, hw2⟩
  obtain ⟨ha1, ha2⟩ := ha
  cases t <;> simp only [termArea, areaSize, newLoad] at ha1 ha2 hw1 hw2 <;> omega

/-- Loading a program leaves the three saved screens alone exactly when the file is at most 12 KB
long. -/
theorem load_keeps_screens (img : Image) (filename : Buf) (inode : UInt32)
    (h : img.executable filename = some inode) :
    (∀ t a, InArea t a → ¬ LoadWrites img filename a) ↔ (img.dataLength inode).toNat ≤ 0x3000 := by
  constructor
  · intro hk
    by_contra hn
    -- the screen of terminal 3 is saved first behind the staging area
    have ha := hk .t3 (termArea .t3) ⟨le_refl _, by simp [areaSize]⟩
    simp only [loadWrites_iff h, termArea, newLoad] at ha
    omega
  · exact fun hlen _ _ ha => short_spares_areas h hlen ha

/-- The name `fish`. -/
def fish : CString := ⟨ascii ['f', 'i', 's', 'h'], by decide⟩

/-- `shell` is 5605 bytes long and leaves the screens alone. -/
theorem load_shell_keeps_screens :
    Image.sample.executable shell.get = some 1 ∧ ∀ t a, InArea t a → ¬ LoadWrites .sample shell.get a := by
  have h : Image.sample.executable shell.get = some 1 := by decide +kernel
  exact ⟨h, (load_keeps_screens .sample shell.get 1 h).2 (by decide +kernel)⟩

/-- `fish` is 36164 bytes long: loading it writes the first byte of the screen saved for terminal 3. -/
theorem load_fish_overwrites_screen :
    Image.sample.executable fish.get = some 2 ∧ (Image.sample.dataLength 2).toNat = 36164 ∧
      ∃ t a, InArea t a ∧ LoadWrites .sample fish.get a ∧
        (loader .sample fish.get { boot with mem := fun _ => 1 }).2.mem a ≠ 1 := by
  have h : Image.sample.executable fish.get = some 2 := by decide +kernel
  have hl : (Image.sample.dataLength 2).toNat = 36164 := by decide +kernel
  refine ⟨h, hl, .t3, termArea .t3, ⟨le_refl _, by simp [areaSize]⟩, ?_, by decide +kernel⟩
  rw [loadWrites_iff h, hl]
  simp [newLoad, termArea]

end Kernel

end Os391
