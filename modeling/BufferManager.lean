import BufferManager.Types
import BufferManager.BufferItem
import BufferManager.LinkedList
import BufferManager.StateManager
import BufferManager.AdvanceHead
import BufferManager.Pipeline
import BufferManager.Simulation
import BufferManager.Run
import BufferManager.Reachable
import BufferManager.Outstanding
import BufferManager.Forward
import BufferManager.Provenance
import BufferManager.Lifecycle
import BufferManager.Quorum
import BufferManager.Equivocation
import BufferManager.Progress
import BufferManager.Drain
import BufferManager.Executor
import BufferManager.StateStore
