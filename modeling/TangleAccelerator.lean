import TangleAccelerator.Buffer.Atomic
import TangleAccelerator.Buffer.Attach
import TangleAccelerator.Buffer.Blocking
import TangleAccelerator.Buffer.Evict
import TangleAccelerator.Buffer.Fetch
import TangleAccelerator.Buffer.Footprint
import TangleAccelerator.Buffer.Handover
import TangleAccelerator.Buffer.Locks
import TangleAccelerator.Buffer.OccupiedSpace
import TangleAccelerator.Buffer.Once
import TangleAccelerator.Buffer.Report
import TangleAccelerator.Buffer.RoundTrip
import TangleAccelerator.Buffer.Scan
import TangleAccelerator.Buffer.Stored
import TangleAccelerator.Bytes.Base64
import TangleAccelerator.Bytes.Block
import TangleAccelerator.Bytes.CString
import TangleAccelerator.Bytes.Decimal
import TangleAccelerator.Bytes.Memory
import TangleAccelerator.Bytes.Numeral
import TangleAccelerator.Bytes.Printf
import TangleAccelerator.Bytes.Tokens
import TangleAccelerator.Cache.Backend
import TangleAccelerator.Common.Types
import TangleAccelerator.Common.World
import TangleAccelerator.Config.CaPem
import TangleAccelerator.Config.Numbers
import TangleAccelerator.Config.Occurrence
import TangleAccelerator.Config.Precedence
import TangleAccelerator.Config.Settings
import TangleAccelerator.Core.Buffer
import TangleAccelerator.Core.Find
import TangleAccelerator.Core.Mam
import TangleAccelerator.Core.PeriodicalTask
import TangleAccelerator.Core.ProxyApis
import TangleAccelerator.Core.Send
import TangleAccelerator.Core.SerHelper
import TangleAccelerator.Core.TextBuffers
import TangleAccelerator.Core.Transfer
import TangleAccelerator.Cql.Table
import TangleAccelerator.Effect.Answered
import TangleAccelerator.Effect.Channel
import TangleAccelerator.Effect.Pool
import TangleAccelerator.Effect.Prog
import TangleAccelerator.Effect.Protocol
import TangleAccelerator.Endpoint.Cipher
import TangleAccelerator.Endpoint.Deserialize
import TangleAccelerator.Endpoint.Nonce
import TangleAccelerator.Endpoint.Request
import TangleAccelerator.Endpoint.Response
import TangleAccelerator.Endpoint.Seal
import TangleAccelerator.Endpoint.Send
import TangleAccelerator.Endpoint.TextSerializer
import TangleAccelerator.Endpoint.Transport
import TangleAccelerator.Fold.History
import TangleAccelerator.Http.Handler
import TangleAccelerator.Http.Routes
import TangleAccelerator.Http.UrlParameter
import TangleAccelerator.Http.Whole
import TangleAccelerator.Json.Tree
import TangleAccelerator.Loop.While
import TangleAccelerator.Mam.Acceptance
import TangleAccelerator.Mam.Conversation
import TangleAccelerator.Mam.Keys
import TangleAccelerator.Mam.Message
import TangleAccelerator.Mam.Order
import TangleAccelerator.Mam.Payload
import TangleAccelerator.Mam.Posts
import TangleAccelerator.Mam.Reading
import TangleAccelerator.Mam.Receive
import TangleAccelerator.Mam.Requests
import TangleAccelerator.Mam.Rollover
import TangleAccelerator.Mam.SendRes
import TangleAccelerator.Mam.Start
import TangleAccelerator.Mam.TagBuffers
import TangleAccelerator.Mqtt.Duplex
import TangleAccelerator.Mqtt.Pairing
import TangleAccelerator.Node.Failover
import TangleAccelerator.Obd.Flatbuffer
import TangleAccelerator.Obd.Monitor
import TangleAccelerator.Obd.Vin
import TangleAccelerator.Permanode.Find
import TangleAccelerator.Permanode.Index
import TangleAccelerator.Permanode.Storage
import TangleAccelerator.Permanode.Trytes
import TangleAccelerator.Query.Fetched
import TangleAccelerator.Query.Objects
import TangleAccelerator.Query.Tags
import TangleAccelerator.Query.TransferReq
import TangleAccelerator.Query.TryteArrays
import TangleAccelerator.Reattacher.Identity
import TangleAccelerator.Reattacher.Run
import TangleAccelerator.Reattacher.Selection
import TangleAccelerator.Redis.Store
import TangleAccelerator.Regex.Basic
import TangleAccelerator.Regex.Posix
import TangleAccelerator.Regex.Search
import TangleAccelerator.Tangle.Address
import TangleAccelerator.Tangle.Bundles
import TangleAccelerator.Tangle.Chain
import TangleAccelerator.Tangle.FirstBundle
import TangleAccelerator.Tangle.Ledger
import TangleAccelerator.Tangle.Survival
import TangleAccelerator.Tangle.Trytes
import TangleAccelerator.Utils.TryteByteConv
