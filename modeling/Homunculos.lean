import Homunculos.Ipc.PipeHistory
import Homunculos.Ipc.PipePair
import Homunculos.Signal.Safety
import Homunculos.Signal.Nesting
import Homunculos.Vfs.Symlinks
import Homunculos.Vfs.InodeCalls
import Homunculos.Block.BlockFile
import Homunculos.Block.Partition
import Homunculos.Vfs.PathAgree
import Homunculos.Vfs.SharedOffset
import Homunculos.Signal.RoundTrip
import Homunculos.Task.ForkChild
import Homunculos.Task.Reclaim
import Homunculos.Ext2.ReadLaw
import Homunculos.Ext2.MakeLaw
import Homunculos.Ext2.ZeroFill
import Homunculos.Vfs.WriteSplit
import Homunculos.Signal.Delivery
import Homunculos.Sched.Childless
import Homunculos.Vfs.PipeShared
import Homunculos.Mm.Protect
import Homunculos.Mm.Heap
import Homunculos.Devtmpfs.Entries
import Homunculos.Ext2.InodeWrite
import Homunculos.Drivers.Kbd
import Homunculos.Libc.Memmove
