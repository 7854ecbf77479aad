import SampleStream.Expr.RoundTrip
import SampleStream.Expr.Outline
import SampleStream.Config.File
import SampleStream.Wire
import SampleStream.Module.Source
import SampleStream.Session.Bench
import SampleStream.Session.Offline
import SampleStream.Session.Operation
import SampleStream.Main
import SampleStream.Proofs.Cursor
import SampleStream.Proofs.Ty.Rendering
import SampleStream.Proofs.Ty.Reading
import SampleStream.Proofs.Ty.Soundness
import SampleStream.Proofs.Expr.Rendering
import SampleStream.Proofs.Expr.Reading
import SampleStream.Proofs.Expr.Soundness
import SampleStream.Proofs.Literal
import SampleStream.Proofs.Finite
import SampleStream.Proofs.Longest
import SampleStream.Proofs.Tiling
import SampleStream.Proofs.Writing
import SampleStream.Proofs.Parsing
import SampleStream.Proofs.Session.Effects
import SampleStream.Proofs.Session.History
import SampleStream.Proofs.Session.Slot
import SampleStream.Proofs.Session.Sound
import SampleStream.Proofs.Session.Turns
import SampleStream.Proofs.Session.LastLoad
import SampleStream.Proofs.Session.Moves
import SampleStream.Proofs.Session.Quantum
import SampleStream.Proofs.Session.Underway
import SampleStream.Proofs.Session.Acknowledgment
import SampleStream.Proofs.Module.Native
import SampleStream.Proofs.Module.Decoding
import SampleStream.Proofs.Session.Playback
import SampleStream.Proofs.Expr.Halting
import SampleStream.Proofs.Room
import SampleStream.Proofs.Expr.OpenBinder
import SampleStream.Proofs.Ty.Grammar
import SampleStream.Proofs.Session.Backlog
import SampleStream.Proofs.Session.Ownership
import SampleStream.Proofs.Session.Ledger
import SampleStream.Proofs.Session.Rest
import SampleStream.Proofs.Session.Output
import SampleStream.Proofs.Session.Setback
import SampleStream.Proofs.Session.Calls
import SampleStream.Proofs.Session.Thread
import SampleStream.Proofs.Session.Feedback
import SampleStream.Proofs.Session.Readiness
import SampleStream.Proofs.Session.Report
import SampleStream.Proofs.Session.Departure
import SampleStream.Proofs.Session.Refusal
import SampleStream.Proofs.Session.Channels
import SampleStream.Proofs.Module.Seamless
import SampleStream.Proofs.Session.Recording
import SampleStream.Proofs.Json.Spelling
import SampleStream.Proofs.Json.Reading
import SampleStream.Proofs.Json.Writing
import SampleStream.Proofs.Wire
import SampleStream.Proofs.Module.Memory
import SampleStream.Proofs.Agenda
import SampleStream.Proofs.Continuation
import SampleStream.Proofs.Viable
import SampleStream.Proofs.Offence
import SampleStream.Proofs.Reprinting
import SampleStream.Proofs.Layout
import SampleStream.Proofs.Needed
import SampleStream.Proofs.Separation
import SampleStream.Proofs.Location
import SampleStream.Proofs.Underline
import SampleStream.Proofs.Rounding
import SampleStream.Proofs.Shortest
import SampleStream.Proofs.Nearest
import SampleStream.Proofs.Descent
import SampleStream.Proofs.Options
import SampleStream.Proofs.Configuration
import SampleStream.Proofs.Session.Magnitude
import SampleStream.Proofs.Approximation
import SampleStream.Proofs.Precision
import SampleStream.Proofs.Margin
import SampleStream.Proofs.Module.Reloading
