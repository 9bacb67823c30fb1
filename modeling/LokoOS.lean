import LokoOS.Abi.Derivation
import LokoOS.Abi.Error
import LokoOS.Abi.Handle
import LokoOS.Abi.RawReturn
import LokoOS.Abi.Syscall
import LokoOS.Base.Bits
import LokoOS.Base.ByteMemory
import LokoOS.Base.Checks
import LokoOS.Base.Counting
import LokoOS.Base.Growth
import LokoOS.Base.InStep
import LokoOS.Base.Keeps
import LokoOS.Base.Layout
import LokoOS.Base.Ledger
import LokoOS.Base.Proc
import LokoOS.Base.Radix
import LokoOS.Base.Returns
import LokoOS.Base.Separated
import LokoOS.Base.Text
import LokoOS.Base.Transcript
import LokoOS.Boot.Accesses
import LokoOS.Boot.AddressSpace
import LokoOS.Boot.ArenaBudget
import LokoOS.Boot.ArenaUsage
import LokoOS.Boot.Buildable
import LokoOS.Boot.CallVerdicts
import LokoOS.Boot.Capacity
import LokoOS.Boot.ConvertMap
import LokoOS.Boot.Elf
import LokoOS.Boot.Entries
import LokoOS.Boot.Entry
import LokoOS.Boot.Extent
import LokoOS.Boot.Handed
import LokoOS.Boot.Headers
import LokoOS.Boot.LoadAndStart
import LokoOS.Boot.LoadKernel
import LokoOS.Boot.PageMap
import LokoOS.Boot.PageTree
import LokoOS.Boot.Paging
import LokoOS.Boot.PagingRefinement
import LokoOS.Boot.PagingSpec
import LokoOS.Boot.PhysicalBits
import LokoOS.Boot.Ranges
import LokoOS.Boot.Walk
import LokoOS.BootProtocol.BootInfo
import LokoOS.BootProtocol.MemoryMap
import LokoOS.BootProtocol.Pixels
import LokoOS.BootProtocol.Records
import LokoOS.BootProtocol.Verdicts
import LokoOS.Filesystem.Alike
import LokoOS.Filesystem.Ancestors
import LokoOS.Filesystem.Borrowed
import LokoOS.Filesystem.Canonical
import LokoOS.Filesystem.Grammar
import LokoOS.Filesystem.Grants
import LokoOS.Filesystem.Homes
import LokoOS.Filesystem.Join
import LokoOS.Filesystem.Location
import LokoOS.Filesystem.Path
import LokoOS.Filesystem.PathSpec
import LokoOS.Filesystem.Policy
import LokoOS.Filesystem.Protection
import LokoOS.Filesystem.Roles
import LokoOS.Filesystem.Root
import LokoOS.Filesystem.Rules
import LokoOS.Filesystem.Sandbox
import LokoOS.Filesystem.Slices
import LokoOS.Kernel.Canvas
import LokoOS.Kernel.Delivery
import LokoOS.Kernel.Framebuffer
import LokoOS.Kernel.Isolation
import LokoOS.Kernel.Outcome
import LokoOS.Kernel.SetupHeap
import LokoOS.Kernel.SetupMemory
import LokoOS.Kernel.Start
import LokoOS.Kernel.Started
import LokoOS.Memory.AllocatorSpec
import LokoOS.Memory.Calls
import LokoOS.Memory.Exactness
import LokoOS.Memory.FirstFit
import LokoOS.Memory.FrameAllocator
import LokoOS.Memory.FreeSet
import LokoOS.Memory.FromMemoryMap
import LokoOS.Memory.NextFit
import LokoOS.Memory.Ownership
import LokoOS.Memory.Reserved
import LokoOS.Memory.Runs
import LokoOS.Memory.UsableBytes
import LokoOS.Security.Consent
import LokoOS.Security.History
import LokoOS.Security.Installs
import LokoOS.Security.Permission
import LokoOS.Security.Trust
import LokoOS.Security.Uses
