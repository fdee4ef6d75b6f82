/-
The read-only file system of `filesystem.c`: the image in memory at `BOOT_BLOCK_PTR`, the
directory lookup, `read_data` and `dirread`.
-/
import Os391.Lib.Str

namespace Os391

open Bytes

/-- The file-system module in memory: the byte at each offset from `BOOT_BLOCK_PTR`. What lies
past the image is whatever memory holds. -/
structure Image where
  byte : Buf

/-- `dentry_t`. -/
@[ext]
structure Dentry where
  fileName : Fin 32 → UInt8
  fileType : UInt32
  inodeNumber : UInt32
  reserved : Fin 24 → UInt8
  deriving DecidableEq

namespace Dentry

/-- A zero-filled entry. -/
def zero : Dentry := ⟨fun _ => 0, 0, 0, fun _ => 0⟩

/-- The word of the name at bytes `4 * k … 4 * k + 3`. -/
def nameWord (d : Dentry) (k : Fin 8) : UInt32 :=
  word (fun i => if h : i < 32 then d.fileName ⟨i, h⟩ else 0) (4 * k)

/-- The same entry with another first 40 bytes: name, type and inode number. -/
def withHead (d : Dentry) (e : Dentry) : Dentry := { e with reserved := d.reserved }

@[simp] theorem withHead_fileType (d e : Dentry) : (d.withHead e).fileType = e.fileType := rfl

end Dentry

namespace Image

variable (img : Image)

/-- `*(BOOT_BLOCK_PTR + w)`; pointer arithmetic is modulo `2^32`. -/
def wordAt (w : Nat) : UInt32 := word (fun i => img.byte ((4 * w + i) % 2 ^ 32)) 0

/-- `filesystem.num_dir_entries`. -/
def numDirEntries : UInt32 := img.wordAt 0
/-- `filesystem.num_inodes`. -/
def numInodes : UInt32 := img.wordAt 1
/-- `filesystem.data_start`, as a word offset. -/
def dataStart : Nat := (img.numInodes + 1).toNat * 1024

/-- Byte `i` of directory entry `k`: `filesystem.dentry_begin + k * B_64`. -/
def dentryByte (k : Nat) : Buf := fun i => img.byte ((64 + 64 * k + i) % 2 ^ 32)

/-- The first 40 bytes of directory entry `k`, which is what the lookups copy. -/
def dentryAt (k : Nat) : Dentry :=
  { fileName := fun i => img.dentryByte k i
    fileType := word (img.dentryByte k) 32
    inodeNumber := word (img.dentryByte k) 36
    reserved := fun _ => 0 }

/-- `MAX_FILE`. -/
def maxFile : Nat := 62

/-- The scan of `read_dentry_by_name` from entry `k` on, `n` entries: the first entry whose name
compares equal. -/
def lookupFrom (fname : Buf) (k : Nat) : Nat → Option Nat
  | 0 => none
  | n + 1 => if strncmp fname (img.dentryByte k) 32 = 0 then some k else lookupFrom fname (k + 1) n

/-- The entry `read_dentry_by_name` finds for a name. -/
def lookup (fname : Buf) : Option Dentry := (img.lookupFrom fname 0 maxFile).map img.dentryAt

/-- `read_dentry_by_name`: the result and `*dentry` afterwards. -/
def readDentryByName (fname : Buf) (dentry : Dentry) : Int × Dentry :=
  match img.lookup fname with
  | some e => (0, dentry.withHead e)
  | none => (-1, dentry)

/-- `read_dentry_by_index`. The `*` applies to the directory's start alone: what is compared is the
first byte of the directory plus an offset. -/
def readDentryByIndex (index : UInt32) (dentry : Dentry) : Int × Dentry :=
  match (List.range maxFile).find? fun i => UInt32.ofNat ((img.dentryByte 0 0).toNat + i * 64 + 36) = index with
  | some i => (0, dentry.withHead (img.dentryAt i))
  | none => (-1, dentry)

/-! ## File data -/

/-- `BOOT_BLOCK_PTR + (inode + 1) * BYTES_4K`, as a word offset. -/
def inodePtr (inode : UInt32) : Nat := (inode + 1).toNat * 1024

/-- The length word of an inode. -/
def dataLength (inode : UInt32) : UInt32 := img.wordAt (inodePtr inode)

/-- The bytes of the data block in slot `i` of an inode's table. -/
def block (inode : UInt32) (i : Nat) : Buf :=
  let blockNum := (img.wordAt (inodePtr inode + (i + 1))).toNat
  fun j => img.byte ((4 * (img.dataStart + blockNum * 1024) + j) % 2 ^ 32)

/-- `ONE_BLOCK_SIZE`. -/
def oneBlockSize : Nat := 4096

/-- The `while (left > 0)` loop of `read_data`. The fuel is never used up when it is more than
`left`, which every turn lowers. -/
def copyLoop (inode : UInt32) (index : Nat) : Nat → Bool → Nat → Nat → Nat → Buf → Buf
  | 0, _, _, _, _, buf => buf
  | fuel + 1, indexFlag, i, left, hold, buf =>
    if left = 0 then buf
    else if indexFlag then
      let src : Buf := fun j => img.block inode i (index + j)
      if (index + left) % 2 ^ 32 ≤ oneBlockSize then copy buf 0 src left
      else
        let n := oneBlockSize - index
        copyLoop inode index fuel false (i + 1) (left - n) (hold + n) (copy buf hold src n)
    else if left ≥ oneBlockSize then
      let n := oneBlockSize - index
      let buf := copy buf hold (img.block inode i) oneBlockSize
      -- the tail test comes in the same turn, still on the block of slot `i`
      if left - n < oneBlockSize then copy buf (hold + n) (img.block inode i) (left - n)
      else copyLoop inode index fuel false (i + 1) (left - n) (hold + n) buf
    else copy buf hold (img.block inode i) left

/-- What a call of `read_data` leaves: its result, the buffer, and the value it stores in
`pcblock.file_struct[fd_val].fpos`, if it gets there. -/
structure DataRead where
  ret : Int
  buf : Buf
  fpos : Option UInt32

/-- `read_data`. The buffer is cleared before anything is checked. -/
def readData (inode offset : UInt32) (buf : Buf) (length : UInt32) : DataRead :=
  let buf := zero buf length.toNat
  let dataLength := img.dataLength inode
  if offset ≥ dataLength then ⟨0, buf, none⟩
  else if inode ≥ img.numInodes - 1 then ⟨-1, buf, none⟩
  else
    let rval := if offset + length > dataLength then dataLength - offset else length
    let index := offset.toNat % oneBlockSize
    let buf := img.copyLoop inode index (rval.toNat + 1) true (offset.toNat / oneBlockSize) rval.toNat 0 buf
    ⟨rval.toInt32.toInt, buf, some (offset + rval)⟩

/-! ## Directory reads -/

/-- The `while (!temp)` loop of `dirread`: the first entry from position `fpos` on whose type byte
is not zero. The addresses repeat after `2^26` entries, so a longer search never ends. -/
def nextEntry (fpos : UInt32) : Nat → Option UInt32
  | 0 => none
  | n + 1 => if img.dentryByte fpos.toNat 32 = 0 then nextEntry (fpos + 1) n else some fpos

/-- `strlen` of what directory entry `k` starts with; it ends when some byte of memory is zero. -/
def nameLen (k : Nat) (i : Nat) : Nat → Option Nat
  | 0 => none
  | n + 1 => if img.dentryByte k i = 0 then some i else nameLen k (i + 1) n

/-- `dirread` at position `fpos`: the result, the bytes copied to the buffer and the new position;
`none` when one of its loops does not end. -/
def dirread (fpos : UInt32) (buf : Buf) : Option (Int × Buf × UInt32) :=
  if fpos ≥ img.numDirEntries then some (0, buf, fpos)
  else do
    let k ← img.nextEntry fpos (2 ^ 26)
    let n ← img.nameLen k.toNat 0 (2 ^ 32)
    return (n, copy buf 0 (img.dentryByte k.toNat) n, k + 1)

/-! ## A small image -/

/-- An image with given bytes from given offsets on and zero elsewhere. -/
def ofPieces (ps : List (Nat × List UInt8)) : Image :=
  ⟨fun a => (ps.findSome? fun p => if p.1 ≤ a then p.2[a - p.1]? else none).getD 0⟩

/-- The name `verylargetxtwithverylongname.tx` of the shipped image. -/
def longName : List UInt8 :=
  ascii ['v', 'e', 'r', 'y', 'l', 'a', 'r', 'g', 'e', 't', 'x', 't', 'w', 'i', 't', 'h', 'v', 'e', 'r', 'y',
    'l', 'o', 'n', 'g', 'n', 'a', 'm', 'e', '.', 't', 'x']

/-- An image with some of the files of the shipped one: the programs `shell` and `fish`, the device
`rtc` and three texts. -/
def sample : Image := ofPieces [
  (0, [7, 0, 0, 0, 8]),
  (64, ascii ['.']), (96, [1, 0, 0, 0, 0]),
  (128, ascii ['s', 'h', 'e', 'l', 'l']), (160, [2, 0, 0, 0, 1]),
  (192, ascii ['f', 'i', 's', 'h']), (224, [2, 0, 0, 0, 2]),
  (256, ascii ['f', 'r', 'a', 'm', 'e', '0', '.', 't', 'x', 't']), (288, [2, 0, 0, 0, 3]),
  (320, ascii ['f', 'r', 'a', 'm', 'e', '1', '.', 't', 'x', 't']), (352, [2, 0, 0, 0, 4]),
  (384, ascii ['r', 't', 'c']), (416, [0, 0, 0, 0, 0]),
  (448, longName), (480, [2, 0, 0, 0, 5]),
  -- inodes 1 to 5: lengths 5605, 36164, 187, 174 and 5277
  (8192, [0xE5, 0x15]), (12288, [0x44, 0x8D]), (16384, [0xBB]), (20480, [0xAE]), (24576, [0x9D, 0x14]),
  -- data block 0
  (36864, [0x7f, 0x45, 0x4c, 0x46])]

end Image

end Os391
