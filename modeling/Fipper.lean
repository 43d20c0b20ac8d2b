import Fipper.Lib.Transition
import Fipper.Lib.Storage
import Fipper.Lib.PriorityQueue
import Fipper.Basic
import Fipper.Container.RollingQueue
import Fipper.Job.Queue
import Fipper.Job.Scheduler
import Fipper.Coroutine.Completion
import Fipper.Lib.Text
import Fipper.Route.String
import Fipper.Route.Template
import Fipper.Route.Match
import Fipper.Route.Extract
import Fipper.Server.Endpoints
import Fipper.Server.Response
import Fipper.Server.Dispatch
import Fipper.Coroutine.Driver
import Fipper.Server.Connection
import Fipper.Server.Run
import Fipper.Server.Reassembly
import Fipper.Route.Parse
import Fipper.Lib.Sequence
import Fipper.Server.Table
import Fipper.Server.Message
import Fipper.Coroutine.Resumption
import Fipper.Container.Fifo
import Fipper.Container.Copies
import Fipper.Container.Lifetimes
import Fipper.Container.Iteration
import Fipper.Server.Body
import Fipper.Lib.Numeral
import Fipper.Serial.Integer
import Fipper.Server.Decode
import Fipper.Job.Lifecycle
import Fipper.Route.Progress
import Fipper.Server.Socket
import Fipper.Util.Enum
import Fipper.Util.ErrorStack
import Fipper.Lib.Preprocessor
import Fipper.Util.Macros
import Fipper.Util.Foreach
import Fipper.Util.VarToSeq
import Fipper.Util.Reflected
import Fipper.Lib.Observation
import Fipper.Lib.QueueOrder
import Fipper.Job.Order
import Fipper.Job.Shutdown
import Fipper.Server.Threads
import Fipper.Server.Exchange
import Fipper.Coroutine.Sessions
import Fipper.Coroutine.Refinement
import Fipper.Util.EnumName
import Fipper.Server.Params
import Fipper.Job.Progress
import Fipper.Server.Answers
import Fipper.Server.Descriptors
import Fipper.Server.Interrupt
import Fipper.Server.Destruction
import Fipper.Server.Survival
