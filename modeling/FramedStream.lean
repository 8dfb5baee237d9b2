import FramedStream.Buffer
import FramedStream.Bytes
import FramedStream.Codec
import FramedStream.Codec.Bundled
import FramedStream.Codec.Library
import FramedStream.Codec.Payload
import FramedStream.Command
import FramedStream.Command.Arguments
import FramedStream.Command.Copying
import FramedStream.Command.Disk
import FramedStream.Command.Endpoint
import FramedStream.Command.Outcome
import FramedStream.Command.Response
import FramedStream.Command.Run
import FramedStream.Decimal.Binary64
import FramedStream.Decimal.Digits
import FramedStream.Decimal.Rounding
import FramedStream.Decimal.Shortest
import FramedStream.Digest.Words
import FramedStream.Digest.Xxh3
import FramedStream.Digest.Xxh64
import FramedStream.Element
import FramedStream.Error
import FramedStream.Factor
import FramedStream.Header
import FramedStream.Json.Document
import FramedStream.Json.Number
import FramedStream.Json.Token
import FramedStream.Json.Value
import FramedStream.Layout
import FramedStream.Lz4.Block
import FramedStream.Main
import FramedStream.Proofs.AnyCodec
import FramedStream.Proofs.Canonical
import FramedStream.Proofs.Codec.Decoding
import FramedStream.Proofs.Codec.Exacting
import FramedStream.Proofs.Codec.Library
import FramedStream.Proofs.Codec.Limits
import FramedStream.Proofs.Codec.Packing
import FramedStream.Proofs.Codec.Rigid
import FramedStream.Proofs.Command.Compression
import FramedStream.Proofs.Command.Copying
import FramedStream.Proofs.Command.Effects
import FramedStream.Proofs.Command.Endpoints
import FramedStream.Proofs.Command.Inspection
import FramedStream.Proofs.Command.Printed
import FramedStream.Proofs.Damage.Shortened
import FramedStream.Proofs.Damage.Truncated
import FramedStream.Proofs.Damage.WrongLength
import FramedStream.Proofs.Decimal.Fraction
import FramedStream.Proofs.Decimal.Precision
import FramedStream.Proofs.Header
import FramedStream.Proofs.Lz4
import FramedStream.Proofs.Lz4.Extent
import FramedStream.Proofs.Quantity
import FramedStream.Proofs.Ranges
import FramedStream.Proofs.Reader.Acceptance
import FramedStream.Proofs.Reader.Ahead
import FramedStream.Proofs.Reader.Blocks
import FramedStream.Proofs.Reader.Carried
import FramedStream.Proofs.Reader.Delivery
import FramedStream.Proofs.Reader.Draining
import FramedStream.Proofs.Reader.Elements
import FramedStream.Proofs.Reader.FailedRead
import FramedStream.Proofs.Reader.Failure
import FramedStream.Proofs.Reader.FaultySource
import FramedStream.Proofs.Reader.Grammar
import FramedStream.Proofs.Reader.InMemory
import FramedStream.Proofs.Reader.Interfaces
import FramedStream.Proofs.Reader.LengthField
import FramedStream.Proofs.Reader.Outlook
import FramedStream.Proofs.Reader.Payload
import FramedStream.Proofs.Reader.Pulls
import FramedStream.Proofs.Reader.Requests
import FramedStream.Proofs.Reader.Standing
import FramedStream.Proofs.RoundTrip
import FramedStream.Proofs.Slices
import FramedStream.Proofs.TypedArrays
import FramedStream.Proofs.Writer.Accepted
import FramedStream.Proofs.Writer.Books
import FramedStream.Proofs.Writer.Call
import FramedStream.Proofs.Writer.Ended
import FramedStream.Proofs.Writer.FailedWrite
import FramedStream.Proofs.Writer.FailingCodec
import FramedStream.Proofs.Writer.FaultySink
import FramedStream.Proofs.Writer.Feeding
import FramedStream.Proofs.Writer.Finished
import FramedStream.Proofs.Writer.Flushing
import FramedStream.Proofs.Writer.InPlace
import FramedStream.Proofs.Writer.Moves
import FramedStream.Proofs.Writer.Reference
import FramedStream.Proofs.Writer.Refusals
import FramedStream.Proofs.Writer.Rounds
import FramedStream.Proofs.Writer.Session
import FramedStream.Proofs.Zstd.Bits
import FramedStream.Proofs.Zstd.Block
import FramedStream.Proofs.Zstd.Extent
import FramedStream.Proofs.Zstd.Frame
import FramedStream.Proofs.Zstd.Sequences
import FramedStream.Quantity
import FramedStream.Reader
import FramedStream.Reader.Input
import FramedStream.Report
import FramedStream.Sink
import FramedStream.Source
import FramedStream.Text.Lines
import FramedStream.Text.Quoted
import FramedStream.Text.Unprintable
import FramedStream.Writer
import FramedStream.Writer.Options
import FramedStream.Zstd.Bits
import FramedStream.Zstd.Encode
import FramedStream.Zstd.Frame
import FramedStream.Zstd.Fse
import FramedStream.Zstd.Huffman
import FramedStream.Zstd.Literals
import FramedStream.Zstd.Sequences
import FramedStream.Zstd.Streams
import FramedStream.Proofs.Reader.InPlace
import FramedStream.Proofs.NoTraps
