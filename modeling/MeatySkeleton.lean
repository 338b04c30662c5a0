import MeatySkeleton.Scheduler.InterruptFlag
import MeatySkeleton.Memory.HeapContents
import MeatySkeleton.Memory.HeapPages
import MeatySkeleton.Memory.Frames
import MeatySkeleton.Process.Families
import MeatySkeleton.Process.Paths
import MeatySkeleton.Thread.SlotOwners
import MeatySkeleton.Sync.Mutex
import MeatySkeleton.Device.CommandSlot
import MeatySkeleton.Device.DmaTables
import MeatySkeleton.Fs.PartitionScans
import MeatySkeleton.Cleanup.Reaping
import MeatySkeleton.Libc.Sessions
import MeatySkeleton.Gui.FocusCycling
import MeatySkeleton.Device.FramebufferSafety
import MeatySkeleton.Gui.Presenting
import MeatySkeleton.Gui.Repainting
import MeatySkeleton.Gui.HitTesting
import MeatySkeleton.Gui.Filling
import MeatySkeleton.Gui.Wallpaper
import MeatySkeleton.Gui.Dispatching
import MeatySkeleton.Console.Consoles
import MeatySkeleton.Ext2.Interleaving
import MeatySkeleton.Ext2.Allocators
import MeatySkeleton.Ext2.Creations
import MeatySkeleton.Ext2.Listings
import MeatySkeleton.Memory.StalePointers
import MeatySkeleton.Paging.FailedMaps
import MeatySkeleton.Paging.IdentityMap
import MeatySkeleton.Sync.TimerTicks
import MeatySkeleton.Device.MouseSync
import MeatySkeleton.Fs.PathWalks
import MeatySkeleton.Libc.Delivery
import MeatySkeleton.Libc.Closing
import MeatySkeleton.Libc.ReadingBack
import MeatySkeleton.Gui.TerminalInput
import MeatySkeleton.Paging.UserCopy
import MeatySkeleton.Elf.StackMapping
import MeatySkeleton.User.DescriptorLoading
import MeatySkeleton.Libc.DigitRounding
import MeatySkeleton.Scheduler.Priority
import MeatySkeleton.Sync.SpinLock
import MeatySkeleton.System.Madt
