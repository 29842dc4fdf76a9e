import Ossim.Paging.Codec
import Ossim.Paging.Sequential
import Ossim.Paging.Victims
import Ossim.Paging.FreeList
import Ossim.Paging.FrameNodes
import Ossim.Paging.RegionNodes
import Ossim.Paging.Heap
import Ossim.Paging.Gathering
import Ossim.Paging.Residency
import Ossim.Paging.Mapping
import Ossim.Paging.Reclaim
import Ossim.Paging.Isolation
import Ossim.Paging.Cells
import Ossim.Paging.Growth
import Ossim.Paging.FirstFit
import Ossim.Tlb.Bounds
import Ossim.Tlb.Changes
import Ossim.Tlb.Coherence
import Ossim.Tlb.FaultStatus
import Ossim.Tlb.FreedPages
import Ossim.Tlb.Footprint
import Ossim.Tlb.OnePage
import Ossim.Tlb.Release
import Ossim.Sched.Runs
import Ossim.Sched.Fifo
import Ossim.Sched.Priority
import Ossim.Timer.LockStep
import Ossim.Os.Shutdown
import Ossim.Os.Leaks
import Ossim.Os.Quantum
import Ossim.Os.Arrival
import Ossim.Os.Locks
import Ossim.Os.Atomicity
import Ossim.Os.Input
