import Genrt.Time.Timer
import Genrt.Time.DeadlineMap
import Genrt.Conservation
import Genrt.Reuse
import Genrt.Ipc.Wakeups
import Genrt.Console.Reads
import Genrt.Console.Write
import Genrt.Memory.SafeFrames
import Genrt.Memory.CopyString
import Genrt.Memory.FrameSystem
import Genrt.Mmu.UserMappings
import Genrt.Mmu.KernelExact
import Genrt.Sync.Guards
import Genrt.Fs.Tree
import Genrt.Process.StackImage
import Genrt.User.Clock
import Genrt.User.ShellFaithful
import Genrt.Ipc.Timeouts
import Genrt.User.ShellCommand
import Genrt.Process.Identity
import Genrt.Xtask.Protocol
