import MacMiniDump.Lib.Intervals
import MacMiniDump.Layout
import MacMiniDump.Reader
import MacMiniDump.Calls
import MacMiniDump.Completion
import MacMiniDump.OffsetQueries
import MacMiniDump.RoundTrip
import MacMiniDump.Freeze
import MacMiniDump.DisjointIntervalSet
import MacMiniDump.ModuleList
import MacMiniDump.Payloads
import MacMiniDump.AllImageInfos
import MacMiniDump.AddressSpace
import MacMiniDump.MemoryRegions
import MacMiniDump.StackWalk
import MacMiniDump.Suspend
import MacMiniDump.Threads
import MacMiniDump.Segments
import MacMiniDump.Protection
import MacMiniDump.ThreadIds
import MacMiniDump.FrameChain
import MacMiniDump.Accepted
import MacMiniDump.Defined
import MacMiniDump.FailedReads
import MacMiniDump.FileLength
import MacMiniDump.Lib.Wraparound
import MacMiniDump.PayloadSpace
import MacMiniDump.Lib.PartitionPoint
import MacMiniDump.LoadCommands
import MacMiniDump.UnwindInfo
import MacMiniDump.UnwindScan
import MacMiniDump.UnwindPages
import MacMiniDump.Dump
import MacMiniDump.StreamStart
import MacMiniDump.SavedMemory
import MacMiniDump.Lib.IntervalLookup
import MacMiniDump.RegionLists
import MacMiniDump.ModuleLookup
import MacMiniDump.StringReads
import MacMiniDump.FileOStream
import MacMiniDump.NoteLookup
import MacMiniDump.WalkBounds
import MacMiniDump.CreateModuleInfo
import MacMiniDump.ImageList
import MacMiniDump.Lib.Pieces
import MacMiniDump.MainExecutables
import MacMiniDump.ThreadStates
import MacMiniDump.FrameDerefs
import MacMiniDump.OverlapCheck
import MacMiniDump.MachPortSendRightRef
import MacMiniDump.Lib.Json
import MacMiniDump.ProcessMetadata
import MacMiniDump.ModuleMarks
import MacMiniDump.CoreReader
import MacMiniDump.Snapshot
import MacMiniDump.CoreMemory
import MacMiniDump.CoreBacktrace
import MacMiniDump.LiveDump
import MacMiniDump.Interleavings
import MacMiniDump.Outcome
import MacMiniDump.KernelResources
import MacMiniDump.DescriptorDump
import MacMiniDump.TaskDump
import MacMiniDump.Lib.Checked
import MacMiniDump.DebugBuild
import MacMiniDump.Assertions
