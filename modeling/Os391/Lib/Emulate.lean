/-
The arguments of a program under the emulation of the system calls on Linux: the splitting of a command
line by `ece391_execute` and `ece391_getargs`, of `ece391emulate.c`.
-/
import Os391.Lib.Str

namespace Os391.Emulate

open Bytes

/-! ## ece391_execute -/

/-- A character that `ece391_execute` splits at. -/
def splits (b : UInt8) : Bool := b = 32 || b = 10

/-- The `while (1)` loop of `ece391_execute`: the argument words from `scan` on. Each turn takes a word off,
so fuel beyond the length of the text is never used up. -/
def splitArgs : Nat → List UInt8 → List (List UInt8)
  | 0, _ => []
  | fuel + 1, scan =>
    let scan := scan.dropWhile (· = 32)
    match scan with
    | [] => []
    | b :: _ =>
      if b = 10 then []
      else scan.takeWhile (!splits ·) :: splitArgs fuel (scan.dropWhile (!splits ·)).tail

/-- The argument vector `ece391_execute` passes on: the program, then the argument words. It refuses a
command of more than 1023 characters. -/
def ece391Execute (command : CString) : Option (List (List UInt8)) :=
  if 1023 < command.strlen then none
  else
    let program := ascii ['.', '/'] ++ command.bytes.takeWhile (!splits ·)
    match command.bytes.dropWhile (!splits ·) with
    | [] => some [program]
    | _ :: scan => some (program :: splitArgs (scan.length + 1) scan)

/-! ## ece391_getargs -/

/-- `ece391_strcpy` to offset `pos`: the characters and the terminator. -/
def strcpy (buf : Buf) (pos : Nat) (w : List UInt8) : Buf := copy buf pos (fun i => w.getD i 0) (w.length + 1)

/-- The end of `ece391_getargs`: the terminator, if there is room for it. -/
def getargsEnd (buf : Buf) (pos : Nat) (nbytes : Int) : Int × Buf :=
  if nbytes < 1 then (-1, buf) else (0, Function.update buf pos 0)

/-- The loop of `ece391_getargs` over the words from `argv[idx]` on, with `buf` moved to offset `pos`. -/
def getargsLoop : List (List UInt8) → Buf → Nat → Int → Int × Buf
  | [], buf, pos, nbytes => getargsEnd buf pos nbytes
  | w :: ws, buf, pos, nbytes =>
    if w.length > nbytes then (-1, buf)
    else
      let buf := strcpy buf pos w
      let pos := pos + w.length
      let nbytes := nbytes - w.length
      if ws.isEmpty then getargsEnd buf pos nbytes
      else if nbytes < 1 then (-1, buf)
      else getargsLoop ws (Function.update buf pos 32) (pos + 1) (nbytes - 1)

/-- `ece391_getargs`: the words after the program. -/
def ece391Getargs (argv : List (List UInt8)) (buf : Buf) (nbytes : Int) : Int × Buf := getargsLoop argv.tail buf 0 nbytes

end Os391.Emulate
