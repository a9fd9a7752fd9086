import Szczupak.Lib.ByteMemory
import Szczupak.Lib.Transition
import Szczupak.Lib.WordMasks
import Szczupak.Lib.ErasingWalk
import Szczupak.Mm.PmmCore
import Szczupak.Mm.Pmm
import Szczupak.Mm.Heap
import Szczupak.Mm.HeapCalls
import Szczupak.Lib.Walk
import Szczupak.Mm.PageTree
import Szczupak.Mm.Ownership
import Szczupak.Mm.Translate
import Szczupak.Mm.Uaccess
import Szczupak.Loader.Elf
import Szczupak.Lib.LinkedList
import Szczupak.Task.Scheduler
import Szczupak.Net.TcpClientCore
import Szczupak.Net.TcpClient
import Szczupak.Net.PacketCore
import Szczupak.Net.StackCore
import Szczupak.Net.ReceiveCore
import Szczupak.Net.Packet
import Szczupak.Net.Transmit
import Szczupak.Lib.RingBuffer
import Szczupak.Tty.Pty
import Szczupak.Lib.OnesComplement
import Szczupak.Net.RoundTrip
import Szczupak.Task.Lifecycle
import Szczupak.Task.Waiting
import Szczupak.Task.Context
import Szczupak.Fs.Fat16Core
import Szczupak.Fs.Fat16Disk
import Szczupak.Fs.RootDirectory
import Szczupak.Fs.UniqueNames
import Szczupak.Fs.Clusters
import Szczupak.Fs.FileData
import Szczupak.Fs.ReadWrite
import Szczupak.Boot.MultibootCore
import Szczupak.Boot.Multiboot
import Szczupak.Net.Checked
import Szczupak.Fs.Calls
import Szczupak.Fs.Remount
import Szczupak.Lib.StableQueue
import Szczupak.Task.ReadyQueue
import Szczupak.Task.Pids
import Szczupak.Fs.TmpfsFile
import Szczupak.Net.DhcpCore
import Szczupak.Net.Dhcp
import Szczupak.Fs.FileCallsCore
import Szczupak.Fs.VfsTree
import Szczupak.Fs.VfsCalls
import Szczupak.Fs.VfsData
import Szczupak.Fs.VfsMounts
import Szczupak.Fs.VfsOwned
import Szczupak.Fs.VfsPaths
import Szczupak.Fs.FileCalls
import Szczupak.Fs.FileReports
import Szczupak.Fs.ChainCalls
import Szczupak.Fs.Release
import Szczupak.Fs.VolumeTreeCore
import Szczupak.Fs.VolumeTree
import Szczupak.Tty.ShellPump
import Szczupak.Mm.HeapSizes
import Szczupak.Fs.TmpfsBounds
import Szczupak.Net.DnsCache
import Szczupak.Desktop.Geometry
import Szczupak.Lib.Absorb
import Szczupak.Desktop.Dirty
import Szczupak.Loader.ElfReads
import Szczupak.Drivers.PsfCore
import Szczupak.Drivers.Psf
import Szczupak.Task.ExecCore
import Szczupak.Task.Exec
import Szczupak.Lib.Descent
import Szczupak.Shell.PathCore
import Szczupak.Shell.Path
import Szczupak.Drivers.Framebuffer
import Szczupak.Lib.Painter
import Szczupak.Desktop.WindowCore
import Szczupak.Desktop.RenderCore
import Szczupak.Desktop.FrameCore
import Szczupak.Desktop.Layout
import Szczupak.Desktop.Render
import Szczupak.Desktop.Cursor
import Szczupak.Desktop.Frame
import Szczupak.Mm.PageWalk
import Szczupak.Mm.PmmSearch
import Szczupak.Mm.Verify
import Szczupak.Mm.Unmap
import Szczupak.Boot.MultibootReads
import Szczupak.Fs.Allocation
import Szczupak.Fs.ClusterSearch
import Szczupak.Fs.Creation
import Szczupak.Fs.EnsuredPaths
import Szczupak.Loader.UserPages
import Szczupak.Loader.UserMemory
import Szczupak.Loader.Segments
import Szczupak.Mm.KernelTables
import Szczupak.Mm.KernelRanges
import Szczupak.Mm.RangeRuns
import Szczupak.Net.DhcpOptions
import Szczupak.Net.DnsNames
import Szczupak.Net.DnsResponse
import Szczupak.Net.UdpVerify
import Szczupak.Tty.TerminalCore
import Szczupak.Tty.TerminalCalls
import Szczupak.Task.UserArgs
import Szczupak.Mm.UserStrings
import Szczupak.Lib.TickCache
import Szczupak.Net.CacheReplacement
import Szczupak.Net.Rtl8139Core
import Szczupak.Net.Rtl8139
import Szczupak.Net.IcmpEcho
import Szczupak.Lib.Numeral
import Szczupak.Lib.HttpHead
import Szczupak.Net.HttpRequest
import Szczupak.Drivers.AtaCore
import Szczupak.Drivers.Ata
import Szczupak.Lib.Recorded
import Szczupak.Firmware.AcpiCore
import Szczupak.Lib.RecordChain
import Szczupak.Firmware.Acpi
import Szczupak.Drivers.FrameBytesCore
import Szczupak.Drivers.FrameBytes
import Szczupak.Drivers.MouseCore
import Szczupak.Drivers.Mouse
import Szczupak.Usb.KeyboardCore
import Szczupak.Usb.Keyboard
import Szczupak.Usb.TransferCore
import Szczupak.Usb.Transfer
import Szczupak.Usb.EnumerateCore
import Szczupak.Usb.Enumerate
import Szczupak.User.StdlibCore
import Szczupak.User.Stdlib
import Szczupak.User.PrintfCore
import Szczupak.User.Printf
import Szczupak.User.MallocCore
import Szczupak.User.Malloc
import Szczupak.User.NetcliCore
import Szczupak.User.Netcli
import Szczupak.Mm.BlockOpsCore
import Szczupak.Mm.BlockOps
import Szczupak.Lib.Separators
import Szczupak.User.HttpUrlCore
import Szczupak.User.HttpUrl
import Szczupak.Lib.LineCutting
import Szczupak.Desktop.ScrollbackCore
import Szczupak.Desktop.Scrollback
import Szczupak.Lib.Shares
import Szczupak.Fs.HoldersCore
import Szczupak.Fs.ChainFaults
import Szczupak.Fs.InnerEntries
import Szczupak.Fs.Holders
import Szczupak.Fs.HolderCalls
import Szczupak.Fs.MountedHolders
import Szczupak.Fs.ClusterLeaks
import Szczupak.Lib.DescriptorRing
import Szczupak.Net.E1000Core
import Szczupak.Net.E1000Send
import Szczupak.Net.E1000Receive
import Szczupak.Net.E1000
import Szczupak.Lib.RecentRing
import Szczupak.Shell.CommandCore
import Szczupak.Shell.Command
import Szczupak.Shell.History
import Szczupak.Desktop.WindowShellCore
import Szczupak.Desktop.PanelsCore
import Szczupak.Desktop.InputCore
import Szczupak.Desktop.Focus
import Szczupak.Desktop.Panels
import Szczupak.Desktop.Events
import Szczupak.Desktop.Shown
import Szczupak.Desktop.Places
import Szczupak.Desktop.Session
