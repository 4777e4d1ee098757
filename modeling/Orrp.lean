import Orrp.Lib.Cursor
import Orrp.Lib.Store
import Orrp.Query.Ast
import Orrp.Query.Tokenizer
import Orrp.Query.Parser
import Orrp.Query.ParseDepth
import Orrp.Query.Render
import Orrp.Engine.KeyFormat
import Orrp.Engine.Validator
import Orrp.Engine.Compare
import Orrp.Engine.Eval
import Orrp.Lib.Group
import Orrp.Lib.Writes
import Orrp.Engine.Writer
import Orrp.Engine.CmdContext
import Orrp.Engine.WorkerMsg
import Orrp.Engine.Worker
import Orrp.Engine.Pipeline
import Orrp.Engine.TagPaths
import Orrp.Engine.ConsumerCache
import Orrp.Engine.Consumer
import Orrp.Engine.ConsumerRuns
import Orrp.Engine.System
import Orrp.Lib.Page
import Orrp.Engine.Query
import Orrp.Engine.Provenance
import Orrp.Lib.Msgpack
import Orrp.Engine.Index
import Orrp.Engine.Encoder
import Orrp.Lib.DList
import Orrp.Engine.ContainerCache
import Orrp.Engine.Container
import Orrp.Engine.ConsumerLru
import Orrp.Lib.Lines
import Orrp.Networking.Server
import Orrp.Query.Lexer
import Orrp.Query.RoundTrip
import Orrp.Core.Bitmaps
import Orrp.Core.Hash
import Orrp.Core.LockStripedHt
import Orrp.Engine.KeyText
import Orrp.Core.BinLog
import Orrp.Lib.FlatFile
import Orrp.Core.MmapArray
import Orrp.Networking.Lifecycle
import Orrp.Lib.MsgpackWire
import Orrp.Networking.Serializer
import Orrp.Engine.EventBytes
import Orrp.Engine.Api
import Orrp.Networking.Work
import Orrp.Networking.Session
