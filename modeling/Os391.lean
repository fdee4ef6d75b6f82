import Os391.Base.Run
import Os391.Base.Bytes
import Os391.Base.Slots
import Os391.Base.Line
import Os391.Lib.Str
import Os391.Lib.Console
import Os391.Lib.Devices
import Os391.Lib.Rtc
import Os391.Lib.Keyboard
import Os391.Fs.Image
import Os391.Kernel.State
import Os391.Kernel.Files
import Os391.Kernel.Exec
import Os391.Kernel.Terminal
import Os391.Files.Spec
import Os391.Files.Frame
import Os391.Process.Spec
import Os391.Process.Halt
import Os391.Process.Staging
import Os391.Process.Loading
import Os391.Process.Failure
import Os391.Terminal.Spec
import Os391.Process.Pids
import Os391.Process.Count
import Os391.Process.Return
import Os391.Files.Table
import Os391.Files.Kinds
import Os391.Terminal.RoundTrip
import Os391.Terminal.Lines
import Os391.Files.Copy
import Os391.Files.ReadAt
import Os391.Files.Lookup
import Os391.Files.Write
import Os391.Files.Data
import Os391.Base.Streams
import Os391.Files.Read
import Os391.Base.Padded
import Os391.Files.Directory
import Os391.Files.Listing
import Os391.Lib.Emulate
import Os391.Process.Arguments
import Os391.Process.Words
import Os391.Process.Getargs
import Os391.Terminal.Screens
import Os391.Base.Traced
import Os391.Base.While
import Os391.Lib.Cells
import Os391.Base.Paper
import Os391.Lib.Text
import Os391.Terminal.Cursor
import Os391.Base.Callers
import Os391.Process.Tree
import Os391.Process.KernelStack
import Os391.Terminal.Delivery
import Os391.Terminal.Interrupts
import Os391.Terminal.ReadLine
import Os391.Terminal.Typing
import Os391.Terminal.Echo
import Os391.Base.X86
import Os391.Kernel.Syscall
import Os391.Lib.Memory
import Os391.Lib.Itoa
import Os391.Lib.Printf
import Os391.Terminal.Bounds
import Os391.Base.Chain
import Os391.User.Blink
import Os391.User.Screen
import Os391.User.Period
import Os391.Base.Chunks
import Os391.User.Grep
import Os391.Base.Paging
import Os391.Base.Pic
import Os391.Base.Simulation
import Os391.Kernel.Descriptors
import Os391.Kernel.Handlers
import Os391.Kernel.Paging
import Os391.Kernel.Pic
import Os391.Process.Isolation
import Os391.Terminal.Devices
import Os391.Terminal.Served
import Os391.User.Cat
import Os391.User.Shell
