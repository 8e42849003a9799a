import SBoy28.Lib.Memory
import SBoy28.Lib.Ia32
import SBoy28.Lib.Linked
import SBoy28.Lib.Loop
import SBoy28.Lib.Tiling
import SBoy28.Lib.TwelveBit
import SBoy28.Lib.FreeSpace
import SBoy28.Lib.Canonical
import SBoy28.Lib.Words
import SBoy28.Lib.Queue
import SBoy28.Lib.Fifo
import SBoy28.Lib.Chains
import SBoy28.Lib.Program
import SBoy28.Lib.Queries
import SBoy28.Lib.Simulation
import SBoy28.Lib.Painting
import SBoy28.Lib.Stores
import SBoy28.Lib.History
import SBoy28.Lib.Strings
import SBoy28.Lib.Bitmap
import SBoy28.Lib.Division
import SBoy28.Lib.Numerals
import SBoy28.Lib.Ownership
import SBoy28.Lib.Layers
import SBoy28.Lib.Traps
import SBoy28.Lib.Translation
import SBoy28.Lib.Descriptors
import SBoy28.Lib.Pic
import SBoy28.Lib.Sections
import SBoy28.Lib.Spinlock
import SBoy28.Kheap.Model
import SBoy28.Kheap.Refinement
import SBoy28.Kheap.Invariant
import SBoy28.Kheap.FirstFit
import SBoy28.Kheap.Blocks
import SBoy28.Kheap.FreeOrder
import SBoy28.Kheap.Objects
import SBoy28.Scheduler.Model
import SBoy28.Scheduler.Queues
import SBoy28.Scheduler.Invariant
import SBoy28.Scheduler.Steps
import SBoy28.Scheduler.Runs
import SBoy28.Scheduler.Guarantees
import SBoy28.Scheduler.RoundRobin
import SBoy28.Scheduler.Contexts
import SBoy28.Scheduler.Pointers
import SBoy28.Scheduler.Lifecycle
import SBoy28.Scheduler.HeapMachine
import SBoy28.Scheduler.Placement
import SBoy28.Scheduler.Stacks
import SBoy28.Scheduler.Switching
import SBoy28.Scheduler.Sections
import SBoy28.Paging.Model
import SBoy28.Paging.Frames
import SBoy28.Paging.Tables
import SBoy28.Paging.Isolation
import SBoy28.Paging.Boot
import SBoy28.Paging.Accounting
import SBoy28.Paging.Exhaustion
import SBoy28.Paging.KernelFrames
import SBoy28.Paging.Permissions
import SBoy28.Paging.Cells
import SBoy28.Kheap.Backing
import SBoy28.Ps2.Model
import SBoy28.Ps2.Framing
import SBoy28.Ps2.Resync
import SBoy28.Ps2.MouseState
import SBoy28.Ps2.KeyBuffer
import SBoy28.Ps2.Modifiers
import SBoy28.Ps2.Demultiplexing
import SBoy28.Windows.Model
import SBoy28.Windows.Queue
import SBoy28.Windows.Delivery
import SBoy28.Windows.Table
import SBoy28.Windows.Classes
import SBoy28.Windows.Drawing
import SBoy28.Windows.Redraw
import SBoy28.Windows.Containment
import SBoy28.Windows.Filling
import SBoy28.Windows.Text
import SBoy28.Windows.Placement
import SBoy28.Windows.Screen
import SBoy28.Windows.Gdi
import SBoy28.Windows.Layers
import SBoy28.Windows.Locking
import SBoy28.Windows.FrameBuffer
import SBoy28.Windows.Brushes
import SBoy28.Fat32.Model
import SBoy28.Fat32.Bounds
import SBoy28.Fat32.Scan
import SBoy28.Fat32.Termination
import SBoy28.Fat32.Layout
import SBoy28.Fat32.FatRegion
import SBoy28.Fat32.Table
import SBoy28.Fat32.Allocation
import SBoy28.Fat32.Files
import SBoy28.Fat32.Directory
import SBoy28.Fat32.Tree
import SBoy28.Fat32.Consistency
import SBoy28.Fat32.Steps
import SBoy28.Fat32.Mount
import SBoy28.Fat32.Isolation
import SBoy28.Fat32.Sequences
import SBoy28.Fat32.FailedWrites
import SBoy28.Fat32.Validation
import SBoy28.Fat32.ByteFile
import SBoy28.Fat32.SharedFile
import SBoy28.Fat32.Codec
import SBoy28.Fat32.Names
import SBoy28.Fat32.Paths
import SBoy28.Fat32.Opening
import SBoy28.Fat32.Listing
import SBoy28.Fat32.Mounts
import SBoy28.Fat32.Agreement
import SBoy28.Fat32.Disclosure
import SBoy28.Fat32.TableUpdate
import SBoy28.Fat12.Model
import SBoy28.Fat12.RamDisk
import SBoy28.Fat12.Image
import SBoy28.Fat12.Readers
import SBoy28.Fat12.WholeFile
import SBoy28.Fat12.ToolBuffer
import SBoy28.Kmain.BootLog
import SBoy28.Utils.Model
import SBoy28.Utils.Division
import SBoy28.Utils.Conversion
import SBoy28.Utils.Printing
import SBoy28.Rtc.Model
import SBoy28.Rtc.Clock
import SBoy28.Rtc.Sleep
import SBoy28.Tty.Model
import SBoy28.Tty.Screen
import SBoy28.Tty.Text
import SBoy28.Interrupts.Stubs
import SBoy28.Interrupts.Preemption
import SBoy28.Interrupts.Tables
import SBoy28.Interrupts.Lines
import SBoy28.Boot.Entry
import SBoy28.Desktop.Model
import SBoy28.Desktop.Refinement
import SBoy28.Desktop.Frames
import SBoy28.Desktop.Clicks
