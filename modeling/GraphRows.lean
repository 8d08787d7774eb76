import GraphRows.Text.Bytes
import GraphRows.Text.Hex
import GraphRows.Text.Shown
import GraphRows.Text.Quoted
import GraphRows.Text.Utf8
import GraphRows.Number.Integer
import GraphRows.Number.Double
import GraphRows.Number.Decimal
import GraphRows.Time.Calendar
import GraphRows.Time.Instant
import GraphRows.Json.Basic
import GraphRows.Json.Printer
import GraphRows.Json.Reader
import GraphRows.Json.Pass
import GraphRows.Fault.Basic
import GraphRows.Fault.Wording
import GraphRows.Binary.Kind
import GraphRows.Row.Tag
import GraphRows.Row.Basic
import GraphRows.Row.Reader
import GraphRows.Config
import GraphRows.Hint
import GraphRows.Value.Basic
import GraphRows.Reference.Token
import GraphRows.Reference.Table
import GraphRows.Reference.Manifest
import GraphRows.Reference.LazyMap
import GraphRows.Sink
import GraphRows.Report
import GraphRows.Store.Basic
import GraphRows.Store.Promise
import GraphRows.Store.Stream
import GraphRows.Store.Equality
import GraphRows.Store.Inspect
import GraphRows.Store.Sketch
import GraphRows.Encoder.Basic
import GraphRows.Encoder.Thunk
import GraphRows.Encoder.Render
import GraphRows.Encoder.Flush
import GraphRows.Encoder.Work
import GraphRows.Encoder.Outlet
import GraphRows.Decoder.Basic
import GraphRows.Decoder.Revive
import GraphRows.Decoder.Deliver
import GraphRows.Decoder.Feed
import GraphRows.Decoder.Intake
import GraphRows.Scenario.Syntax
import GraphRows.Scenario.Host
import GraphRows.Scenario.Build
import GraphRows.Scenario.Step
import GraphRows.Scenario.Run
import GraphRows.Scenario.Exchange
import GraphRows.Proofs.Text.Digits
import GraphRows.Proofs.Text.Utf8
import GraphRows.Proofs.Json.Numbers
import GraphRows.Proofs.Json.ReadBack
import GraphRows.Proofs.Json.Mentions
import GraphRows.Proofs.Row.Framing
import GraphRows.Proofs.Row.Slices
import GraphRows.Proofs.Row.Writing
import GraphRows.Proofs.Row.Grammar
import GraphRows.Proofs.Encoder.Accounts
import GraphRows.Proofs.Encoder.Ledger
import GraphRows.Proofs.Encoder.Owing
import GraphRows.Proofs.Encoder.Walking
import GraphRows.Proofs.Encoder.Output
import GraphRows.Proofs.Encoder.Runs
import GraphRows.Proofs.Encoder.Offering
import GraphRows.Proofs.Encoder.Closing
import GraphRows.Proofs.Encoder.Flushing
import GraphRows.Proofs.Encoder.Outcomes
import GraphRows.Proofs.Decoder.Entries
import GraphRows.Proofs.Decoder.Places
import GraphRows.Proofs.Decoder.Walking
import GraphRows.Proofs.Decoder.Waiting
import GraphRows.Proofs.Decoder.Waits
import GraphRows.Proofs.Decoder.Tidy
import GraphRows.Proofs.Decoder.Reading
import GraphRows.Proofs.Decoder.Delivering
import GraphRows.Proofs.Decoder.Taking
import GraphRows.Proofs.Decoder.Onward
import GraphRows.Proofs.Decoder.History
import GraphRows.Proofs.Decoder.Settling
import GraphRows.Proofs.Decoder.Bookkeeping
import GraphRows.Proofs.Store.Regions
import GraphRows.Proofs.Store.Outcomes
import GraphRows.Proofs.Store.Forwarding
import GraphRows.Proofs.Store.Waking
import GraphRows.Proofs.Store.Likeness
import GraphRows.Proofs.Decoder.Pictures
import GraphRows.Proofs.Decoder.Portrait
import GraphRows.Proofs.Decoder.Asides
import GraphRows.Proofs.Decoder.Drawing
import GraphRows.Proofs.Decoder.Faithful
import GraphRows.Proofs.Decoder.Filling
import GraphRows.Proofs.Decoder.Fulfilment
import GraphRows.Proofs.Decoder.Cutting
import GraphRows.Proofs.Decoder.Origins
import GraphRows.Proofs.Decoder.Lineage
import GraphRows.Proofs.Decoder.Arrivals
import GraphRows.Proofs.Store.Matching
import GraphRows.Proofs.Decoder.Naming
import GraphRows.Proofs.Decoder.Orders
import GraphRows.Proofs.Exchange.Settled
import GraphRows.Proofs.Encoder.Aborting
import GraphRows.Proofs.Encoder.Waiting
import GraphRows.Proofs.Encoder.Waking
import GraphRows.Proofs.Encoder.Pairing
import GraphRows.Proofs.Encoder.Secrecy
import GraphRows.Proofs.Exchange.Aborting
import GraphRows.Proofs.Exchange.Hints
import GraphRows.Proofs.Decoder.Ending
import GraphRows.Proofs.Decoder.Mirroring
import GraphRows.Proofs.Decoder.Streaming
import GraphRows.Proofs.Decoder.Strings
import GraphRows.Proofs.Encoder.Withholding
import GraphRows.Proofs.Encoder.Suspending
