import KernelForge.Lir.Builder
import KernelForge.Lir.Vector
import KernelForge.Main
import KernelForge.Proofs.Holdings.Threads
import KernelForge.Proofs.Execution.MergeValues
import KernelForge.Proofs.Queues.Waiting
import KernelForge.Proofs.Queues.Consistency
import KernelForge.Proofs.Declarations.Capabilities
import KernelForge.Proofs.Json.Modules
import KernelForge.Proofs.Queues.Reset
import KernelForge.Proofs.Queues.Caches
import KernelForge.Proofs.Loading.Safety
import KernelForge.Proofs.Layout.Values
import KernelForge.Proofs.Layout.Order
import KernelForge.Proofs.Execution.Switches
import KernelForge.Proofs.DebugNames
import KernelForge.Proofs.Queues.Timing
import KernelForge.Proofs.Loading.Constants
import KernelForge.Proofs.Buffers
import KernelForge.Proofs.Allocator
