import BrokerExam.Batch.Basic
import BrokerExam.Batch.Record
import BrokerExam.Batch.Stream
import BrokerExam.Broker.Defect
import BrokerExam.Broker.Reply
import BrokerExam.Bytes.BigEndian
import BrokerExam.Bytes.Crc32c
import BrokerExam.Bytes.Varint
import BrokerExam.Client
import BrokerExam.CommandLine.Arguments
import BrokerExam.CommandLine.Help
import BrokerExam.CommandLine.Perform
import BrokerExam.CommandLine.Refusal
import BrokerExam.CommandLine.Scope
import BrokerExam.Environment
import BrokerExam.Exam.Describing
import BrokerExam.Exam.Fetching
import BrokerExam.Exam.Handshake
import BrokerExam.Exam.Material
import BrokerExam.Exam.Producing
import BrokerExam.Exam.Setting
import BrokerExam.Exam.Sitting
import BrokerExam.Exam.Stage
import BrokerExam.Failure
import BrokerExam.Fault
import BrokerExam.Field.Basic
import BrokerExam.Field.Navigation
import BrokerExam.Field.Path
import BrokerExam.Field.Value
import BrokerExam.Files.Path
import BrokerExam.Files.Tree
import BrokerExam.Frame
import BrokerExam.Journal
import BrokerExam.Live
import BrokerExam.LogDirectory.Contents
import BrokerExam.LogDirectory.Plan
import BrokerExam.LogDirectory.Read
import BrokerExam.LogDirectory.Write
import BrokerExam.Main
import BrokerExam.Message.ApiKey
import BrokerExam.Message.ApiVersions
import BrokerExam.Message.Basic
import BrokerExam.Message.DescribeTopicPartitions
import BrokerExam.Message.Draft
import BrokerExam.Message.Fetch
import BrokerExam.Message.Produce
import BrokerExam.Metadata.Payload
import BrokerExam.Proofs.Batch.Basic
import BrokerExam.Proofs.Batch.Record
import BrokerExam.Proofs.Batch.Stream
import BrokerExam.Proofs.Bytes.Varint
import BrokerExam.Proofs.Bytes.VarintGroups
import BrokerExam.Proofs.Message.Basic
import BrokerExam.Proofs.Message.Bodies
import BrokerExam.Proofs.Message.FetchStream
import BrokerExam.Proofs.Message.RoundTrip
import BrokerExam.Proofs.Text.Hex
import BrokerExam.Proofs.Text.Utf8
import BrokerExam.Proofs.Wire.Arrays
import BrokerExam.Proofs.Wire.Inside
import BrokerExam.Proofs.Wire.Kind
import BrokerExam.Proofs.Wire.Lawful
import BrokerExam.Proofs.Wire.RawRead
import BrokerExam.Proofs.Wire.Reads
import BrokerExam.Proofs.Wire.Trace
import BrokerExam.ReadProgram
import BrokerExam.Rehearsal.Link
import BrokerExam.Rehearsal.Mask
import BrokerExam.Rehearsal.Network
import BrokerExam.Rehearsal.World
import BrokerExam.Report.HexDump
import BrokerExam.Report.Tree
import BrokerExam.SystemError
import BrokerExam.Text.Base64
import BrokerExam.Text.Duration
import BrokerExam.Text.Hex
import BrokerExam.Text.Numeral
import BrokerExam.Text.Quoted
import BrokerExam.Text.Similarity
import BrokerExam.Text.Split
import BrokerExam.Text.Utf8
import BrokerExam.Trouble
import BrokerExam.Uuid
import BrokerExam.Verdict.ApiVersions
import BrokerExam.Verdict.Check
import BrokerExam.Verdict.DescribeTopicPartitions
import BrokerExam.Verdict.Fetch
import BrokerExam.Verdict.Judge
import BrokerExam.Verdict.OnDisk
import BrokerExam.Verdict.Produce
import BrokerExam.Verdict.Rule
import BrokerExam.Wire.Codec
import BrokerExam.Wire.Cursor
import BrokerExam.Wire.Encoding
import BrokerExam.Wire.Error
import BrokerExam.Wire.FieldRead
import BrokerExam.Wire.Kind
import BrokerExam.Proofs.Verdict.Fetch
import BrokerExam.Proofs.Batch.Disguise
import BrokerExam.Proofs.Field.Apart
import BrokerExam.Proofs.Field.Display
import BrokerExam.Proofs.Field.Navigation
import BrokerExam.Proofs.Wire.Layout
import BrokerExam.Proofs.Wire.FailedRead
import BrokerExam.Proofs.Wire.LaidOut
import BrokerExam.Proofs.Batch.Layout
import BrokerExam.Proofs.Message.Layout
import BrokerExam.Proofs.Message.Tiling
import BrokerExam.Proofs.Report.Tree
import BrokerExam.Proofs.Message.Addresses
import BrokerExam.Proofs.Verdict.Coverage
import BrokerExam.Proofs.Verdict.Faultless
import BrokerExam.Proofs.Wire.Spelling
import BrokerExam.Proofs.Message.FetchReply
import BrokerExam.Proofs.Verdict.FetchFaithful
import BrokerExam.Proofs.Message.ProduceRequest
import BrokerExam.Proofs.Exam.Faithful
import BrokerExam.Proofs.Wire.CutRead
import BrokerExam.Proofs.Wire.Delimited
import BrokerExam.Proofs.Message.PrefixFree
import BrokerExam.Proofs.Verdict.Precedence
import BrokerExam.Proofs.Files.Path
import BrokerExam.Proofs.Files.Operations
import BrokerExam.Proofs.Files.Additions
import BrokerExam.Proofs.LogDirectory.Recording
import BrokerExam.Proofs.LogDirectory.Generate
import BrokerExam.Proofs.LogDirectory.Names
import BrokerExam.Proofs.LogDirectory.Places
import BrokerExam.Proofs.LogDirectory.Written
import BrokerExam.Proofs.LogDirectory.Inside
import BrokerExam.Proofs.LogDirectory.Entries
import BrokerExam.Proofs.LogDirectory.ReadBack
import BrokerExam.Proofs.Metadata.Payload
import BrokerExam.Proofs.LogDirectory.Metadata
import BrokerExam.Proofs.Client.Incoming
import BrokerExam.Proofs.Client.Receive
import BrokerExam.Proofs.Rehearsal.Link
import BrokerExam.Proofs.Exam.Concurrent
import BrokerExam.Proofs.Rehearsal.Serving
import BrokerExam.Proofs.Bytes.Crc32c
import BrokerExam.Proofs.Wire.Pieces
import BrokerExam.Proofs.Batch.Concatenation
import BrokerExam.Proofs.Batch.Corruption
import BrokerExam.Proofs.Batch.Confinement
import BrokerExam.Proofs.Wire.Discipline
import BrokerExam.Proofs.ReadProgram
import BrokerExam.Proofs.Wire.Frugal
import BrokerExam.Proofs.Message.Frugal
import BrokerExam.Proofs.Report.Outline
import BrokerExam.Proofs.Verdict.Produce
import BrokerExam.Proofs.Verdict.DescribeTopicPartitions
import BrokerExam.Proofs.Metadata.TaggedFields
import BrokerExam.Proofs.Text.Numeral
import BrokerExam.Proofs.Message.Collected
import BrokerExam.Proofs.LogDirectory.Refusal
import BrokerExam.Proofs.LogDirectory.Directories
import BrokerExam.Proofs.LogDirectory.Offsets
import BrokerExam.Proofs.Wire.Readable
import BrokerExam.Proofs.Batch.Readable
import BrokerExam.Proofs.Batch.Replaced
import BrokerExam.Proofs.Message.Resent
