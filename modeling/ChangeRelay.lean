import ChangeRelay.Batching.Batcher
import ChangeRelay.Batching.Level
import ChangeRelay.Batching.Monitor
import ChangeRelay.Batching.Settings
import ChangeRelay.Binary.Field
import ChangeRelay.Binary.Varint
import ChangeRelay.CallId
import ChangeRelay.Change.Event
import ChangeRelay.Change.Json
import ChangeRelay.Change.Op
import ChangeRelay.Client.Adaptive
import ChangeRelay.Client.Dispatch
import ChangeRelay.Client.Failure
import ChangeRelay.Client.Retry
import ChangeRelay.Client.Settings
import ChangeRelay.Client.Uri
import ChangeRelay.Collections.Dict
import ChangeRelay.Collections.Table
import ChangeRelay.Collections.TextSet
import ChangeRelay.Dispatch.Settings
import ChangeRelay.Dispatch.State
import ChangeRelay.Dispatch.Step
import ChangeRelay.Dispatch.Walk
import ChangeRelay.Host.Address
import ChangeRelay.Host.Calls
import ChangeRelay.Host.CommandLine
import ChangeRelay.Host.Console
import ChangeRelay.Host.Counts
import ChangeRelay.Host.Prefs
import ChangeRelay.Host.State
import ChangeRelay.Host.Step
import ChangeRelay.Host.Stored
import ChangeRelay.Http.Exchange
import ChangeRelay.Http.MediaType
import ChangeRelay.Http.Request
import ChangeRelay.Invalid
import ChangeRelay.Json.Basic
import ChangeRelay.Json.Printer
import ChangeRelay.Json.Reader
import ChangeRelay.Log
import ChangeRelay.Main
import ChangeRelay.Number.Double
import ChangeRelay.Number.Layout
import ChangeRelay.Number.Numeral
import ChangeRelay.Number.Reading
import ChangeRelay.Number.Shortest
import ChangeRelay.Pipeline
import ChangeRelay.Pipeline.Logged
import ChangeRelay.Pool
import ChangeRelay.Proofs.Batching.Batches
import ChangeRelay.Proofs.Batching.Course
import ChangeRelay.Proofs.Batching.Look
import ChangeRelay.Proofs.Batching.Target
import ChangeRelay.Proofs.Batching.Throughput
import ChangeRelay.Proofs.Binary.Field
import ChangeRelay.Proofs.Change.Json
import ChangeRelay.Proofs.Client.Attempts
import ChangeRelay.Proofs.Client.Backoff
import ChangeRelay.Proofs.Client.Correlation
import ChangeRelay.Proofs.Client.Delivery
import ChangeRelay.Proofs.Client.Publishing
import ChangeRelay.Proofs.Client.Requests
import ChangeRelay.Proofs.Dispatch.Accounts
import ChangeRelay.Proofs.Dispatch.Admission
import ChangeRelay.Proofs.Dispatch.Agreement
import ChangeRelay.Proofs.Dispatch.Cutting
import ChangeRelay.Proofs.Dispatch.Ending
import ChangeRelay.Proofs.Dispatch.Fates
import ChangeRelay.Proofs.Dispatch.History
import ChangeRelay.Proofs.Dispatch.Independence
import ChangeRelay.Proofs.Dispatch.Line
import ChangeRelay.Proofs.Dispatch.Move
import ChangeRelay.Proofs.Dispatch.Outcome
import ChangeRelay.Proofs.Dispatch.Progress
import ChangeRelay.Proofs.Dispatch.Serial
import ChangeRelay.Proofs.Dispatch.Tallies
import ChangeRelay.Proofs.Dispatch.Totals
import ChangeRelay.Proofs.Dispatch.Turns
import ChangeRelay.Proofs.Dispatch.Waiting
import ChangeRelay.Proofs.Dispatch.Walk
import ChangeRelay.Proofs.Host.Capacity
import ChangeRelay.Proofs.Host.Course
import ChangeRelay.Proofs.Host.Deliveries
import ChangeRelay.Proofs.Host.History
import ChangeRelay.Proofs.Host.Move
import ChangeRelay.Proofs.Host.Progress
import ChangeRelay.Proofs.Host.Refusals
import ChangeRelay.Proofs.Host.Session
import ChangeRelay.Proofs.Host.Slots
import ChangeRelay.Proofs.Host.Stored
import ChangeRelay.Proofs.Host.Transports
import ChangeRelay.Proofs.Http.Unread
import ChangeRelay.Proofs.Json.Compact
import ChangeRelay.Proofs.Json.Numeral
import ChangeRelay.Proofs.Json.Messages
import ChangeRelay.Proofs.Number.Layout
import ChangeRelay.Proofs.Reaction.Accounts
import ChangeRelay.Proofs.Reaction.Alone
import ChangeRelay.Proofs.Reaction.Ending
import ChangeRelay.Proofs.Reaction.Guards
import ChangeRelay.Proofs.Reaction.Marks
import ChangeRelay.Proofs.Reaction.Move
import ChangeRelay.Proofs.Reaction.Once
import ChangeRelay.Proofs.Reaction.Origin
import ChangeRelay.Proofs.Reaction.Replies
import ChangeRelay.Proofs.Reaction.Traceless
import ChangeRelay.Proofs.Reaction.Window
import ChangeRelay.Proofs.Result.Json
import ChangeRelay.Proofs.Result.Order
import ChangeRelay.Proofs.Result.Overlap
import ChangeRelay.Proofs.Run
import ChangeRelay.Proofs.Store.Directories
import ChangeRelay.Proofs.Store.Files
import ChangeRelay.Proofs.Store.Initial
import ChangeRelay.Proofs.Store.Sound
import ChangeRelay.Proofs.Text.Order
import ChangeRelay.Proofs.Time
import ChangeRelay.Proofs.Wire.Binary
import ChangeRelay.Proofs.Wire.Body
import ChangeRelay.Proofs.Wire.Checked
import ChangeRelay.Proofs.Wire.Json
import ChangeRelay.Reaction.Settings
import ChangeRelay.Reaction.State
import ChangeRelay.Reaction.Step
import ChangeRelay.Reaction.Window
import ChangeRelay.Reply
import ChangeRelay.Reply.Json
import ChangeRelay.Result.Json
import ChangeRelay.Result.Payload
import ChangeRelay.Result.Value
import ChangeRelay.Simulation.Feed
import ChangeRelay.Simulation.Outlet
import ChangeRelay.Simulation.Run
import ChangeRelay.Simulation.World
import ChangeRelay.Store.Basic
import ChangeRelay.Store.Files
import ChangeRelay.Text.Printable
import ChangeRelay.Text.Quoted
import ChangeRelay.Text.Token
import ChangeRelay.Text.Utf8
import ChangeRelay.Time
import ChangeRelay.Wire.Binary
import ChangeRelay.Wire.Checked
import ChangeRelay.Wire.Json
import ChangeRelay.Wire.Message
import ChangeRelay.Proofs.Number.Order
import ChangeRelay.Proofs.Number.Word
import ChangeRelay.Proofs.Result.Sorting
import ChangeRelay.Proofs.Client.Sending
import ChangeRelay.Proofs.Host.Address
import ChangeRelay.Proofs.Host.Prefs
