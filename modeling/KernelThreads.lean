import KernelThreads.Text.Hex
import KernelThreads.Memory.Address
import KernelThreads.Memory.Paging
import KernelThreads.Thread.Handle
import KernelThreads.Thread.Status
import KernelThreads.Process.Phase
import KernelThreads.Diagnostics.Violation
import KernelThreads.Diagnostics.Event
import KernelThreads.Diagnostics.Logged
import KernelThreads.Memory.Bitmap
import KernelThreads.Memory.Arena
import KernelThreads.Memory.SlotPool
import KernelThreads.Memory.Source
import KernelThreads.Memory.Scripted
import KernelThreads.Memory.Stacks
import KernelThreads.Numbered
import KernelThreads.Thread.Registers
import KernelThreads.Thread.Basic
import KernelThreads.Thread.Registry
import KernelThreads.Process.Basic
import KernelThreads.Scheduling.Queues
import KernelThreads.Scheduling.Processor
import KernelThreads.Scheduling.Machine
import KernelThreads.Kernel.Basic
import KernelThreads.Kernel.Creation
import KernelThreads.Kernel.Ending
import KernelThreads.Kernel.Call
import KernelThreads.Kernel.Interleaving
import KernelThreads.Proofs.Memory.PageSearch
import KernelThreads.Proofs.Memory.Extents
import KernelThreads.Proofs.Memory.Spans
import KernelThreads.Proofs.Memory.Rotation
import KernelThreads.Proofs.Memory.FirstFit
import KernelThreads.Proofs.Thread.Occupancy
import KernelThreads.Proofs.Scheduling.Steps
import KernelThreads.Proofs.Thread.Progress
import KernelThreads.Proofs.Scheduling.Evolution
import KernelThreads.Proofs.Scheduling.Coherence
import KernelThreads.Proofs.Scheduling.Moves
import KernelThreads.Proofs.Scheduling.Totality
import KernelThreads.Proofs.Kernel.Steps
import KernelThreads.Proofs.Kernel.Turns
import KernelThreads.Proofs.Kernel.Transition
import KernelThreads.Proofs.Kernel.Run
import KernelThreads.Proofs.Kernel.History
import KernelThreads.Proofs.Kernel.Lasting
import KernelThreads.Proofs.Kernel.Tidiness
import KernelThreads.Proofs.Kernel.Cancellation
import KernelThreads.Proofs.Kernel.Placement
import KernelThreads.Proofs.Kernel.Tenancy
import KernelThreads.Proofs.Kernel.Accounts
import KernelThreads.Proofs.Kernel.Membership
import KernelThreads.Proofs.Kernel.Faults
import KernelThreads.Proofs.Kernel.Rollback
import KernelThreads.Proofs.Kernel.Fates
import KernelThreads.Proofs.Kernel.Exits
import KernelThreads.Proofs.Kernel.Handles
import KernelThreads.Proofs.Kernel.Interleaving
import KernelThreads.Proofs.Kernel.MemorySafety
import KernelThreads.Proofs.Kernel.Traffic
import KernelThreads.Proofs.Kernel.Effects
import KernelThreads.Proofs.Kernel.Admission
import KernelThreads.Proofs.Scheduling.Order
import KernelThreads.Proofs.Kernel.Processors
import KernelThreads.Proofs.Kernel.Lifecycle
import KernelThreads.Proofs.Kernel.Fairness
import KernelThreads.Proofs.Kernel.Waiting
import KernelThreads.Proofs.Kernel.Rosters
import KernelThreads.Proofs.Kernel.Requests
import KernelThreads.Proofs.Memory.Limits
import KernelThreads.Proofs.Memory.Reversal
import KernelThreads.Proofs.Sessions
import KernelThreads.Proofs.Kernel.Aftermath
import KernelThreads.Proofs.Kernel.Pending
import KernelThreads.Proofs.Kernel.Cloning
import KernelThreads.Proofs.Kernel.Entry
import KernelThreads.Proofs.Memory.Lending
import KernelThreads.Proofs.Memory.Rounds
import KernelThreads.Proofs.Memory.SharedArena
import KernelThreads.Proofs.Kernel.Broadcast
import KernelThreads.Proofs.Kernel.Yielding
