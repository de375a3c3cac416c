import MinOS.HeapSoundness
import MinOS.FreeOrder
import MinOS.ThreadTableRuns
import MinOS.ForkSwitch
import MinOS.SelfSwitch
import MinOS.SemaphorePassing
import MinOS.ForkReturns
import MinOS.Ownership
import MinOS.PageTableOverlap
import MinOS.InterruptFlag
import MinOS.PipeHandover
import MinOS.ConcurrentCreation
import MinOS.Scheduling
import MinOS.CommandDecoding
import MinOS.AllocationAnswers
import MinOS.SchedulerRotation
import MinOS.TidLookups
import MinOS.ThreadEnds
import MinOS.ChildSlots
import MinOS.SemaphoreAllocation
import MinOS.FailedCalls
import MinOS.SharedSids
import MinOS.Ext2Tables
import MinOS.CreationFailures
import MinOS.PipeCreation
import MinOS.PipeBuffers
import MinOS.PipeMessages
import MinOS.AhciPorts
import MinOS.PortMemory
import MinOS.CommandSlots
import MinOS.DirectoryChains
import MinOS.DirectorySafety
import MinOS.Ext2Bounds
import MinOS.StringOrder
import MinOS.QueueFifo
import MinOS.StringComparison
import MinOS.InodeTableCopies
import MinOS.Graphics
import MinOS.MemoryFills
import MinOS.NumberTexts
import MinOS.SerialInput
import MinOS.QueueFifo
import MinOS.InodeTableEntries
import MinOS.DiskCalls
import MinOS.ExceptionScreens
import MinOS.InterruptRuns
import MinOS.TimerPeriods
import MinOS.SerialLine
import MinOS.PciScan
import MinOS.TypedLines
import MinOS.BootLoader
import MinOS.BootServices
import MinOS.MemoryCopies
import MinOS.FirstThread
import MinOS.SemaphoreTurns
