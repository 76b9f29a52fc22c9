import Otic.Library.Blocks
import Otic.Library.Bytes
import Otic.Library.Chained
import Otic.Library.Decimal
import Otic.Library.Linked
import Otic.Library.Loop
import Otic.Library.Running
import Otic.Library.Varint
import Otic.Base
import Otic.Stored
import Otic.Compare
import Otic.Leb128
import Otic.Leb128Signed
import Otic.ArrayStorage
import Otic.Unpack.Channel
import Otic.Unpack.Unpack
import Otic.Format.Record
import Otic.Unpack.Dictionary
import Otic.Unpack.BlockCorrect
import Otic.Unpack.Reachable
import Otic.Unpack.Reads
import Otic.Unpack.Effects
import Otic.Unpack.Buffers
import Otic.Unpack.Registry
import Otic.Unpack.Closing
import Otic.Unpack.Lines
import Otic.Unpack.Fetch
import Otic.Unpack.Stream
import Otic.Unpack.Generate
import Otic.Unpack.Growth
import Otic.Unpack.Progress
import Otic.Unpack.Ownership
import Otic.Unpack.EmptyArrays
import Otic.Format.Event
import Otic.Format.Grammar
import Otic.Format.Heard
import Otic.Unpack.Accepts
import Otic.Unpack.Malformed
import Otic.Pack.Channel
import Otic.Pack.Encoder
import Otic.Pack.Sends
import Otic.Pack.Refine
import Otic.Pack.Flush
import Otic.Pack.FlushPoints
import Otic.Pack.Injects
import Otic.Pack.Course
import Otic.Pack.Room
import Otic.Pack.Strings
import Otic.Pack.Overrun
import Otic.Pack.Rejections
import Otic.Pack.Insertion
import Otic.Pack.Signals
import Otic.Pack.Frame
import Otic.Pack.Registry
import Otic.Pack.Names
import Otic.Pack.LastValue
import Otic.Pack.Pieces
import Otic.Pack.Statistics
import Otic.Pack.Mixed
import Otic.Pack.Arrays
import Otic.Pack.Expected
import Otic.Pack.Agreement
import Otic.Pack.Acceptance
import Otic.Pack.Lifetime
import Otic.Pack.Plain
import Otic.Pack.Pack
import Otic.Pack.Resize
import Otic.Pack.PackFlush
import Otic.Pack.History
import Otic.Pack.Sessions
import Otic.Pack.Ample
import Otic.Pack.Told
import Otic.System.BlockRoundTrip
import Otic.System.Delivery
import Otic.System.SingleChannel
import Otic.System.RowRoundTrip
import Otic.System.Isolation
import Otic.System.Reuse
import Otic.System.Refusal
import Otic.System.Dictionaries
import Otic.System.Selection
import Otic.System.ArrayRoundTrip
import Otic.System.RawBuffers
import Otic.System.LostRows
import Otic.System.Readers
import Otic.System.Truncation
import Otic.System.Following
import Otic.System.Resized
import Otic.System.Advances
import Otic.System.Carried
import Otic.System.ArrayRows
import Otic.Utility.Aggregator
import Otic.Utility.Extremes
import Otic.Utility.Totals
import Otic.Utility.Reset
import Otic.Utility.TimeSerie
import Otic.Utility.Chronology
import Otic.Utility.Format
import Otic.Utility.FormatWrite
import Otic.Utility.Chunker
import Otic.Php.Pack
import Otic.Php.Unpack
import Otic.Tsv.Chunks
import Otic.Tsv.Compress
import Otic.Tsv.CompareLines
import Otic.Tsv.Decompress
import Otic.Tsv.SelfCheck
