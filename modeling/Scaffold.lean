import Scaffold.Amqp
import Scaffold.Amqp.Theorems
import Scaffold.Backtrack
import Scaffold.Database.Identifiers
import Scaffold.Database.Identifiers.Theorems
import Scaffold.Decimal
import Scaffold.Http.Middleware
import Scaffold.Http.Middleware.Identity
import Scaffold.Http.Middleware.Quota
import Scaffold.Http.Middleware.Theorems
import Scaffold.Http.Pagination
import Scaffold.Http.QueryDecode
import Scaffold.Http.QueryDecode.Theorems
import Scaffold.Http.QueryParam
import Scaffold.Http.QueryParam.Theorems
import Scaffold.Http.Response
import Scaffold.Http.Response.Theorems
import Scaffold.Ledger
import Scaffold.Machine
import Scaffold.Pool
import Scaffold.Positional
import Scaffold.Program
import Scaffold.Program.Always
import Scaffold.Program.Similar
import Scaffold.Python.Base64
import Scaffold.Python.Datetime
import Scaffold.Python.Float
import Scaffold.Python.FloatText
import Scaffold.Python.IpAddress
import Scaffold.Python.IpAddress.Theorems
import Scaffold.Python.Json
import Scaffold.Python.JsonNumber
import Scaffold.Python.JsonRepr
import Scaffold.Python.JsonScalar
import Scaffold.Python.Quoted
import Scaffold.Python.JsonValue
import Scaffold.Python.Repr
import Scaffold.Python.Text
import Scaffold.Python.Url
import Scaffold.Queue.Contracts
import Scaffold.Queue.Envelope
import Scaffold.Queue.Envelope.Errors
import Scaffold.Queue.Envelope.Theorems
import Scaffold.Queue.Job
import Scaffold.Queue.Kafka
import Scaffold.Queue.Kafka.Redelivery
import Scaffold.Queue.Kafka.Theorems
import Scaffold.Queue.Manager
import Scaffold.Queue.Manager.Theorems
import Scaffold.Queue.Rabbit
import Scaffold.Queue.Rabbit.Redelivery
import Scaffold.Queue.Rabbit.Theorems
import Scaffold.Queue.Redis
import Scaffold.Queue.Redis.Redelivery
import Scaffold.Queue.Redis.Theorems
import Scaffold.Raising
import Scaffold.RateLimit.Redis
import Scaffold.RateLimit.Redis.Theorems
import Scaffold.Redis.Key
import Scaffold.Redis.Stream
import Scaffold.Resources.Lazy
import Scaffold.Resources.Lazy.Theorems
import Scaffold.Runtime
import Scaffold.Runtime.Theorems
import Scaffold.Scheduler.Engine
import Scaffold.Scheduler.Engine.Theorems
import Scaffold.Threads
import Scaffold.Threads.Theorems
import Scaffold.Users.Conflicts
import Scaffold.Users.Domain
import Scaffold.Users.LoginAttempts
import Scaffold.Users.LoginAttempts.Theorems
import Scaffold.Users.Pages
import Scaffold.Users.Repository
import Scaffold.Users.Sessions
import Scaffold.Users.Sessions.Theorems
import Scaffold.Users.Updates
import Scaffold.Users.Updates.Theorems
import Scaffold.Vector.Chroma
import Scaffold.Vector.Chroma.Theorems
import Scaffold.Vector.Dynamic
import Scaffold.Vector.Dynamic.Theorems
import Scaffold.Vector.Milvus
import Scaffold.Vector.Milvus.Filter
import Scaffold.Vector.Milvus.Filter.Theorems
import Scaffold.Vector.Milvus.Theorems
import Scaffold.Vector.Models
import Scaffold.Worker.Attempts
import Scaffold.Worker.Attempts.Theorems
import Scaffold.Worker.Executor
import Scaffold.Worker.Executor.Identity
import Scaffold.Worker.Executor.Theorems
import Scaffold.Worker.Fleet
import Scaffold.Worker.Fleet.Drivers
import Scaffold.Worker.Fleet.Executions
import Scaffold.Worker.Fleet.Rabbit
import Scaffold.Worker.Fleet.Settled
import Scaffold.Worker.Fleet.Theorems
import Scaffold.Worker.Resolver
import Scaffold.Worker.Resolver.Theorems
import Scaffold.Worker.Runner
import Scaffold.Worker.Runner.Theorems
