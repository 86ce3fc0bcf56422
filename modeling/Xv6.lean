import Xv6.Library.Program
import Xv6.Library.Threads
import Xv6.Library.Sums
import Xv6.Library.Ledger
import Xv6.Library.LedgerMoves
import Xv6.Library.Transition
import Xv6.Library.Selection
import Xv6.Library.Bytes
import Xv6.Library.Writes
import Xv6.Library.Reading
import Xv6.Library.Failure
import Xv6.Library.Allocation
import Xv6.Library.Outcome
import Xv6.Library.Ring
import Xv6.Library.Tally
import Xv6.Library.Links
import Xv6.Library.Slots
import Xv6.Library.Transfer
import Xv6.Library.Splitting
import Xv6.Memory.Layout
import Xv6.Memory.PageTable
import Xv6.Memory.Machine
import Xv6.Memory.Vm
import Xv6.Memory.Process
import Xv6.Memory.Steps
import Xv6.Memory.Uses
import Xv6.Memory.Supply
import Xv6.Memory.Refusal
import Xv6.Tables.Boot
import Xv6.Memory.Copyout
import Xv6.Memory.Memmove
import Xv6.Books.Accounts
import Xv6.Books.Commands
import Xv6.Books.Tables
import Xv6.Books.Mapping
import Xv6.Books.Kernel
import Xv6.Books.Space
import Xv6.Books.Sharing
import Xv6.Books.Lifetime
import Xv6.Books.Calm
import Xv6.Cow.Clients
import Xv6.Cow.Isolation
import Xv6.Cow.Frames
import Xv6.Cow.Exact
import Xv6.Cow.Restored
import Xv6.Cow.Sharers
import Xv6.Cow.Guarantees
import Xv6.Tables.Words
import Xv6.Tables.Unmap
import Xv6.Tables.Map
import Xv6.Books.Processes
import Xv6.Books.Image
import Xv6.System.Machine
import Xv6.System.Sane
import Xv6.System.Actions
import Xv6.System.Forking
import Xv6.System.First
import Xv6.System.Fault
import Xv6.System.Touch
import Xv6.System.Resize
import Xv6.Exec.Built
import Xv6.Exec.Code
import Xv6.Exec.Stack
import Xv6.Exec.Outline
import Xv6.Exec.Succeeds
import Xv6.Exec.Arguments
import Xv6.Sched.Table
import Xv6.Sched.Policies
import Xv6.Sched.System
import Xv6.Sched.Steps
import Xv6.Sched.Coherent
import Xv6.Sched.Moves
import Xv6.Sched.Bounds
import Xv6.Sched.Waitx
import Xv6.Sched.Lifetimes
import Xv6.Sched.Dispatches
import Xv6.Sched.Exclusive
import Xv6.Sched.Fates
import Xv6.Sched.Identifiers
import Xv6.Sched.Zombies
import Xv6.Sched.Priority
import Xv6.Sched.Rounds
import Xv6.Sched.Arrival
import Xv6.Sched.Preemption
import Xv6.Sched.RoundRobin
import Xv6.Sched.Sleepers
import Xv6.Sched.Aging
import Xv6.Sched.Slices
import Xv6.Sched.Demotion
import Xv6.Sched.Waiting
import Xv6.Sched.Rotation
import Xv6.Sched.FirstQueue
import Xv6.Sched.Starvation
import Xv6.Sched.Queues
import Xv6.Sched.Setting
import Xv6.Calls.Arguments
import Xv6.Sched.Listing
import Xv6.Sleep.Machine
import Xv6.Sleep.Locks
import Xv6.Sleep.Exclusion
import Xv6.Sleep.Handlers
import Xv6.Sleep.Wakeups
import Xv6.Log.Disk
import Xv6.Log.Recovery
import Xv6.Log.Operations
import Xv6.Log.Commits
import Xv6.Log.Capacity
import Xv6.Buffers.Machine
import Xv6.Buffers.Lru
import Xv6.Buffers.Sound
import Xv6.Buffers.Edits
import Xv6.Buffers.Order
import Xv6.Buffers.Calls
import Xv6.Buffers.Runs
import Xv6.Buffers.Contents
import Xv6.Buffers.Cache
import Xv6.Buffers.Effects
import Xv6.Buffers.Volume
import Xv6.Buffers.Commit
import Xv6.Buffers.Progress
import Xv6.Buffers.Advances
import Xv6.Buffers.Crash
import Xv6.Fs.Layout
import Xv6.Fs.Inode
import Xv6.Fs.Blocks
import Xv6.Fs.Bmap
import Xv6.Fs.Content
import Xv6.Fs.Writei
import Xv6.Fs.Itrunc
import Xv6.Fs.Readi
import Xv6.Fs.Cache
import Xv6.Fs.Sound
import Xv6.Fs.Mkfs
import Xv6.Fs.Sharing
import Xv6.Fs.Room
import Xv6.Fs.ByteArrays
import Xv6.Fs.Names
import Xv6.Fs.Directory
import Xv6.Fs.Entries
import Xv6.Fs.Paths
import Xv6.Fs.PathBytes
import Xv6.Fs.Logged
import Xv6.Stream.Pipe
import Xv6.Stream.Console
import Xv6.Stream.Editing
import Xv6.Image.Build
import Xv6.Image.Append
import Xv6.Image.Files
import Xv6.Image.Contents
import Xv6.Image.Finish
import Xv6.Image.Correct
import Xv6.Calls.Files
import Xv6.Calls.Syscalls
import Xv6.Calls.Rules
import Xv6.Calls.Pipes
import Xv6.Calls.Descriptors
import Xv6.Calls.Exact
import Xv6.Calls.OpenFiles
import Xv6.Calls.References
import Xv6.Calls.Balance
import Xv6.Calls.Chunks
import Xv6.Programs.Umalloc
import Xv6.Programs.FreeList
import Xv6.Programs.Malloc
import Xv6.Programs.Runs
import Xv6.Programs.Requests
import Xv6.Programs.Shell
import Xv6.Programs.Tokens
import Xv6.Programs.Parser
import Xv6.Programs.Command
import Xv6.Fork.Code
import Xv6.Fork.Writes
import Xv6.Fork.Failure
import Xv6.Fork.Marks
import Xv6.System.View
import Xv6.System.Effects
import Xv6.System.Refines
import Xv6.System.Rights
import Xv6.System.Eager
import Xv6.System.Complete
import Xv6.System.Family
import Xv6.System.Reaped
import Xv6.Library.Patterns
import Xv6.Library.Numerals
import Xv6.Terminal.Format
import Xv6.Terminal.Screen
import Xv6.Terminal.Echo
import Xv6.Programs.Ulib
import Xv6.Programs.Grep
import Xv6.Programs.GrepLines
import Xv6.Programs.Wc
import Xv6.Locks.Spinlock
import Xv6.Locks.Invariant
import Xv6.Locks.Sound
import Xv6.Locks.Instructions
import Xv6.Locks.Switches
import Xv6.Locks.Safety
import Xv6.Exec.Loader
