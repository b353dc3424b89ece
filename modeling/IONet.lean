import IONet.Lib.Bytes
import IONet.Lib.Slots
import IONet.Lib.Rounding
import IONet.Lib.Truncation
import IONet.Lib.LastIndex
import IONet.Lib.Throwing
import IONet.Lib.Segments
import IONet.Lib.Machine
import IONet.Core.Double
import IONet.Core.DoubleOrder
import IONet.Core.Types
import IONet.Core.Endian
import IONet.Core.ByteBuffer
import IONet.Core.ByteBufferLaws
import IONet.Core.WireOrder
import IONet.Core.RoundTrip
import IONet.Core.Cursor
import IONet.Core.ReaderRuns
import IONet.Core.WriterRuns
import IONet.Schema.Field
import IONet.Schema.Schema
import IONet.Schema.SchemaParser
import IONet.Schema.Walk
import IONet.Schema.Json
import IONet.Schema.Yaml
import IONet.Schema.SchemaLoader
import IONet.Schema.SchemaBuilder
import IONet.Schema.BuilderCalls
import IONet.Schema.BuilderTrace
import IONet.Schema.BuilderScaling
import IONet.Schema.Expressible
import IONet.Schema.ScalingInverse
import IONet.Codec.DecodedPacket
import IONet.Codec.Decoder
import IONet.Codec.WireLayout
import IONet.Codec.Options
import IONet.Codec.ByName
import IONet.Codec.Streaming
import IONet.Codec.Lenient
import IONet.Codec.Failure
import IONet.Codec.Scaling
import IONet.Codec.Constraints
import IONet.Codec.Bitfields
import IONet.Codec.Reordered
import IONet.Codec.Refinement
import IONet.Codec.Reports
import IONet.Codec.Written
import IONet.Codec.Mirrored
import IONet.Codec.Session
import IONet.Codec.Built
import IONet.Codec.Typed
import IONet.Codec.TypedAccess
import IONet.Codec.Monotone
import IONet.Accepted.Flags
import IONet.Accepted.Layout
import IONet.Accepted.Language
import IONet.Accepted.Diagnosed
import IONet.Accepted.Lookup
import IONet.Accepted.Document
import IONet.Accepted.Frontends
import IONet.Accepted.Guards
import IONet.Accepted.Rearranged
import IONet.Accepted.Handled
import IONet.Accepted.Described
import IONet.Accepted.Loaded
