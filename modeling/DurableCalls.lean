import DurableCalls.Main
import DurableCalls.CommandLine
import DurableCalls.Describe
import DurableCalls.Session
import DurableCalls.Proofs.Region.Contents
import DurableCalls.Proofs.Frame.Codec
import DurableCalls.Proofs.Stack.Stored
import DurableCalls.Proofs.Stack.Mirror
import DurableCalls.Proofs.Stack.Operations
import DurableCalls.Proofs.Stack.Refinement
import DurableCalls.Proofs.Stack.TornPush
import DurableCalls.Proofs.Swap.Site
import DurableCalls.Proofs.Swap.Effect
import DurableCalls.Proofs.Swap.Trace
import DurableCalls.Proofs.Swap.ExactlyOnce
import DurableCalls.Proofs.Context.Ends
import DurableCalls.Proofs.Context.Stands
import DurableCalls.Proofs.Task.Codec
import DurableCalls.Proofs.Swap.Alone
import DurableCalls.Proofs.Call.SwapTask
import DurableCalls.Proofs.Call.Replay
import DurableCalls.Proofs.Pool.CrashTransparency
import DurableCalls.Proofs.Allocator.Trailers
import DurableCalls.Proofs.Allocator.Recovery
import DurableCalls.Proofs.Allocator.Operations
import DurableCalls.Proofs.Allocator.Refinement
import DurableCalls.Proofs.Allocator.Restart
import DurableCalls.Proofs.Allocator.CrashAtomicity
import DurableCalls.Proofs.Context.Keeps
import DurableCalls.Proofs.Call.Reached
import DurableCalls.Proofs.Call.Freeze
import DurableCalls.Proofs.Call.Visits
import DurableCalls.Proofs.History.Paths
import DurableCalls.Proofs.History.Chains
import DurableCalls.Proofs.Call.Guards
import DurableCalls.Proofs.Call.Cramped
import DurableCalls.Proofs.Call.Balance
import DurableCalls.Proofs.History.Explained
import DurableCalls.Proofs.Swap.Concurrent
import DurableCalls.Proofs.Swap.NeverRan
import DurableCalls.Proofs.Call.Resume
import DurableCalls.Proofs.Allocator.AnyHeap
import DurableCalls.Proofs.Allocator.Steps
import DurableCalls.Proofs.Swap.Steps
import DurableCalls.Proofs.Config.Separation
import DurableCalls.Proofs.Call.Progress
import DurableCalls.Proofs.Region.Writes
import DurableCalls.Proofs.Swap.Arena
import DurableCalls.Proofs.Pool.AnyOrder
import DurableCalls.Proofs.Call.Refused
import DurableCalls.Proofs.Allocator.Taken
import DurableCalls.Proofs.Swap.AnyHeap
import DurableCalls.Proofs.Context.Finishes
import DurableCalls.Proofs.Call.Working
import DurableCalls.Proofs.Call.Left
import DurableCalls.Proofs.Pool.Leftover
import DurableCalls.Proofs.Disk.Reopening
import DurableCalls.Proofs.Workload.Answers
import DurableCalls.Proofs.Workload.Served
import DurableCalls.Proofs.Workload.Aftermath
import DurableCalls.Proofs.Workload.Restored
import DurableCalls.Proofs.Workload.WrittenBlocks
import DurableCalls.Proofs.Workload.Rounds
import DurableCalls.Proofs.Workload.Sequential
import DurableCalls.Proofs.Call.Row
import DurableCalls.Proofs.Stack.Measured
import DurableCalls.Proofs.Frame.RoundTrip
import DurableCalls.Proofs.Stack.AnyBytes
import DurableCalls.Proofs.Swap.Offsets
import DurableCalls.Proofs.Config.Overflow
import DurableCalls.Proofs.Allocator.Admission
import DurableCalls.Proofs.Call.AnyRoot
import DurableCalls.Proofs.Call.TaskEffect
import DurableCalls.Proofs.Pool.Isolation
import DurableCalls.Proofs.Swap.Columns
import DurableCalls.Proofs.Swap.Refusals
import DurableCalls.Proofs.Call.FailedTasks
import DurableCalls.Proofs.Config.StackRoom
import DurableCalls.Proofs.History.Walk
import DurableCalls.Proofs.Region.Plain
import DurableCalls.Proofs.Disk.Exclusive
import DurableCalls.Proofs.Context.Piles
import DurableCalls.Proofs.Call.Nesting
