import UkfsFuse.Core.TSys
import UkfsFuse.Core.Window
import UkfsFuse.Core.Ownership
import UkfsFuse.Core.Bytes
import UkfsFuse.Core.Spans
import UkfsFuse.Core.Heap
import UkfsFuse.Core.Words
import UkfsFuse.Core.References
import UkfsFuse.Core.SeqObject
import UkfsFuse.Core.Ring
import UkfsFuse.Core.Escaped
import UkfsFuse.Core.Alloc
import UkfsFuse.Source.Queue
import UkfsFuse.Source.Kernel
import UkfsFuse.Source.Request
import UkfsFuse.Source.Session
import UkfsFuse.Source.Reply
import UkfsFuse.Source.Dispatch
import UkfsFuse.Source.Daemon
import UkfsFuse.Source.Dirent
import UkfsFuse.Source.HelloLl
import UkfsFuse.Source.Opt
import UkfsFuse.Source.Helper
import UkfsFuse.Source.Driver
import UkfsFuse.Source.Operation
import UkfsFuse.Source.Iovec
import UkfsFuse.Source.System
import UkfsFuse.Source.Interrupt
import UkfsFuse.Source.Mount
import UkfsFuse.Source.Sessions
import UkfsFuse.Source.Capability
import UkfsFuse.Source.References
import UkfsFuse.Logic.QueueInv
import UkfsFuse.Logic.Codec
import UkfsFuse.Logic.Completion
import UkfsFuse.Logic.Driver
import UkfsFuse.Logic.Dirents
import UkfsFuse.Logic.Walk
import UkfsFuse.Logic.Steps
import UkfsFuse.Logic.Asking
import UkfsFuse.Logic.Handles
import UkfsFuse.Logic.Work
import UkfsFuse.Logic.Settling
import UkfsFuse.Logic.Interrupt
import UkfsFuse.Logic.InterruptSteps
import UkfsFuse.Logic.InterruptMoves
import UkfsFuse.Logic.InterruptEnds
import UkfsFuse.Logic.InterruptFinds
import UkfsFuse.Logic.InterruptChecks
import UkfsFuse.Logic.InterruptLasting
import UkfsFuse.Logic.Places
import UkfsFuse.Logic.Lifecycle
import UkfsFuse.Logic.Answers
import UkfsFuse.Logic.Mounting
import UkfsFuse.Logic.Opening
import UkfsFuse.Logic.Identifiers
import UkfsFuse.Logic.Operation
import UkfsFuse.Logic.Scatter
import UkfsFuse.Logic.Sessions
import UkfsFuse.Logic.References
import UkfsFuse.Logic.OptGroup
import UkfsFuse.Logic.OptItems
import UkfsFuse.Logic.Opt
import UkfsFuse.Logic.OptRender
import UkfsFuse.Logic.OptErrors
import UkfsFuse.Logic.Helper
import UkfsFuse.Theorems.QueueSafety
import UkfsFuse.Theorems.Codec
import UkfsFuse.Theorems.Completion
import UkfsFuse.Theorems.Listing
import UkfsFuse.Theorems.Walk
import UkfsFuse.Theorems.Lifecycle
import UkfsFuse.Theorems.Linear
import UkfsFuse.Theorems.Tree
import UkfsFuse.Theorems.Hello
import UkfsFuse.Theorems.Opt
import UkfsFuse.Theorems.Settling
import UkfsFuse.Theorems.Remount
import UkfsFuse.Theorems.Mounts
import UkfsFuse.Theorems.FailedMount
import UkfsFuse.Theorems.LazyOpen
import UkfsFuse.Theorems.Identifiers
import UkfsFuse.Theorems.Interrupt
import UkfsFuse.Theorems.Reading
import UkfsFuse.Theorems.Scatter
import UkfsFuse.Theorems.Errors
import UkfsFuse.Theorems.Failures
import UkfsFuse.Theorems.Sessions
import UkfsFuse.Theorems.Descriptors
import UkfsFuse.Theorems.References
import UkfsFuse.Theorems.Capability
import UkfsFuse.Theorems.MessageSize
