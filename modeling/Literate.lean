import Literate.Bytes
import Literate.Command
import Literate.Command.Console
import Literate.Command.Convert
import Literate.Command.Flags
import Literate.Command.Replace
import Literate.Decimal.Shortest
import Literate.Diagnostic
import Literate.Directive
import Literate.Failure
import Literate.FileTree
import Literate.Format
import Literate.Http.Message
import Literate.Http.Service
import Literate.Http.Target
import Literate.Intake
import Literate.Json
import Literate.Latency
import Literate.Log
import Literate.Main
import Literate.Noweb
import Literate.Noweb.Markup
import Literate.Path
import Literate.Proofs.Bytes
import Literate.Proofs.Directive
import Literate.Proofs.Http.FileName
import Literate.Proofs.Http.Service
import Literate.Proofs.Intake
import Literate.Proofs.Limited
import Literate.Proofs.Noweb.Conversion
import Literate.Proofs.Noweb.Framing
import Literate.Proofs.Noweb.Line
import Literate.Proofs.Noweb.Markup
import Literate.Proofs.Noweb.Rendering
import Literate.Proofs.Noweb.Scan
import Literate.Proofs.Noweb.Stream
import Literate.Proofs.Session.Diagnostics
import Literate.Proofs.Session.History
import Literate.Proofs.Session.Run
import Literate.Proofs.Text
import Literate.Proofs.Writer
import Literate.Session
import Literate.Session.Live
import Literate.Session.Run
import Literate.Settings
import Literate.Settings.Dotenv
import Literate.Settings.Duration
import Literate.Text.Blank
import Literate.Text.Integer
import Literate.Text.Lower
import Literate.Text.Printable
import Literate.Text.Quoted
import Literate.Text.Utf8
import Literate.Watch
import Literate.Writer
import Literate.Writer.Buffered
import Literate.Proofs.Noweb.Indentation
import Literate.Proofs.Session.Targets
import Literate.Proofs.FileTree
import Literate.Proofs.Format
import Literate.Proofs.Writer.Buffered
import Literate.Proofs.Command.Convert
import Literate.Proofs.Http.Access
import Literate.Proofs.Json.Reader
import Literate.Proofs.Json.RoundTrip
import Literate.Proofs.Json.Number
import Literate.Proofs.Noweb.Utf8
import Literate.Proofs.Http.Translation
import Literate.Proofs.Http.Statistics
import Literate.Proofs.Command.Replace
import Literate.Proofs.Watch
import Literate.Proofs.Latency.Rolling
import Literate.Proofs.Watch.Course
import Literate.Proofs.Terminators
import Literate.Proofs.Http.Upload
import Literate.Proofs.Noweb.Code
import Literate.Proofs.Session.Idle
import Literate.Proofs.Noweb.Cut
import Literate.Proofs.Noweb.Docs
import Literate.Proofs.Noweb.Escapes
import Literate.Proofs.Noweb.Uses
import Literate.Proofs.Text.Integer
import Literate.Proofs.Session.Listing
import Literate.Proofs.Path.Safe
import Literate.Proofs.Http.Format
import Literate.Proofs.Command.Overwrite
import Literate.Proofs.Http.AccessLog
import Literate.Proofs.Latency.Compaction
