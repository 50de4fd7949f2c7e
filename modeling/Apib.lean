import Apib.Library.Transition
import Apib.Library.OutputBuffer
import Apib.Library.Numerals
import Apib.Library.ByteMachine
import Apib.Library.Tally
import Apib.Library.Windows
import Apib.HttpParser.State
import Apib.HttpParser.Execute
import Apib.HttpParser.Reader
import Apib.Http.Message
import Apib.HttpParser.Rules
import Apib.HttpParser.Names
import Apib.HttpParser.Values
import Apib.HttpParser.Heads
import Apib.HttpParser.Bodies
import Apib.HttpParser.Responses
import Apib.Net.Url
import Apib.Net.UrlFile
import Apib.HttpParser.Url
import Apib.HttpParser.UrlRuns
import Apib.HttpParser.UrlText
import Apib.HttpParser.UrlAccepted
import Apib.HttpParser.Authority
import Apib.HttpParser.UrlParsed
import Apib.HttpParser.UrlNormal
import Apib.Net.Init
import Apib.Net.RoundTrip
import Apib.Net.Socket
import Apib.IOThread.State
import Apib.IOThread.Callbacks
import Apib.IOThread.Loop
import Apib.IOThread.Fields
import Apib.IOThread.Wakeup
import Apib.Lifecycle.Moves
import Apib.Lifecycle.Watchers
import Apib.Lifecycle.Paths
import Apib.Lifecycle.Invariant
import Apib.Lifecycle.Commands
import Apib.Lifecycle.Resting
import Apib.Runs.Driven
import Apib.Runs.Accounting
import Apib.Runs.Reuse
import Apib.Runs.Carry
import Apib.Runs.Draws
import Apib.Runs.Requests
import Apib.Runs.Stop
import Apib.Runs.Shrink
import Apib.Reading.Pieces
import Apib.Reading.Fragments
import Apib.Reading.Completion
import Apib.Reading.EndOfStream
import Apib.Reading.Waiting
import Apib.Runs.Ledger
import Apib.Runs.Wire
import Apib.Reporting.Results
import Apib.Reporting.Conservation
import Apib.Reporting.WarmUp
import Apib.Reporting.Swap
import Apib.Reporting.Owners
import Apib.Reporting.Exchanged
import Apib.Library.Segments
import Apib.Lines.LineState
import Apib.Lines.Splitting
import Apib.Monitor.Number
import Apib.Monitor.Protocol
import Apib.Monitor.InStep
import Apib.Library.Descriptors
import Apib.Monitor.Sockets
import Apib.Monitor.Ownership
import Apib.Net.Lifetime
import Apib.Net.Release
import Apib.Library.PercentEncoding
import Apib.Library.Traverse
import Apib.OAuth.BaseString
import Apib.OAuth.Decoding
import Apib.OAuth.Weights
import Apib.OAuth.Parameters
import Apib.OAuth.Signing
import Apib.OAuth.Throwing
import Apib.OAuth.Sent
import Apib.OAuth.Encoding
import Apib.OAuth.Escapes
import Apib.OAuth.Segments
import Apib.Library.Dealing
import Apib.Main.Threads
import Apib.Main.Spread
import Apib.Main.OneShot
import Apib.Runs.References
import Apib.Net.FileLines
import Apib.Library.Sorting
import Apib.OAuth.Order
import Apib.OAuth.Key
import Apib.Main.Division
import Apib.Reporting.Latencies
import Apib.Reporting.Percentiles
import Apib.Library.Variance
import Apib.Reporting.Deviation
import Apib.Net.FailedInit
import Apib.Main.Headers
import Apib.Main.HeadersOnce
import Apib.Lines.Tokens
import Apib.Lines.Bounds
import Apib.Lines.Indices
import Apib.Lines.Failures
import Apib.Lines.Strtok
import Apib.Cpu.Ticks
import Apib.Cpu.Intervals
import Apib.Library.Codes
import Apib.Http.Request
import Apib.Lifecycle.Between
import Apib.Dialogue.Exchanges
import Apib.Dialogue.Hearing
import Apib.Dialogue.Runs
import Apib.Dialogue.Counters
import Apib.Dialogue.Sending
import Apib.Dialogue.Received
import Apib.Library.Interleaving
import Apib.Dialogue.Report
import Apib.Library.Turns
import Apib.HttpParser.Assertions
import Apib.HttpParser.Scanning
import Apib.Runs.Winding
import Apib.Monitor.Sessions
import Apib.Main.Base64
import Apib.Net.Targets
import Apib.Dialogue.CommandLine
import Apib.Http.Connection
import Apib.HttpParser.Options
import Apib.HttpParser.KeepAlive
import Apib.Dialogue.Persistence
