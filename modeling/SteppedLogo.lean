import SteppedLogo.Main
import SteppedLogo.Interpreter.Plain
import SteppedLogo.Package
import SteppedLogo.Program.Script
import SteppedLogo.Turtle.Move
import SteppedLogo.Value.Dictionary
import SteppedLogo.Value.Access
import SteppedLogo.Proofs.Schedule.Queued
import SteppedLogo.Proofs.Program.Operations
import SteppedLogo.Proofs.Program.Pacing
import SteppedLogo.Proofs.Fault.Report
import SteppedLogo.Proofs.World.Futures
import SteppedLogo.Proofs.World.Change
import SteppedLogo.Proofs.World.Turns
import SteppedLogo.Proofs.World.Wired
import SteppedLogo.Proofs.World.Sound
import SteppedLogo.Proofs.World.Grows
import SteppedLogo.Proofs.World.Turn
import SteppedLogo.Proofs.World.Move
import SteppedLogo.Proofs.World.Brings
import SteppedLogo.Proofs.World.Scene
import SteppedLogo.Proofs.Gate.Eases
import SteppedLogo.Proofs.Gate.Outstanding
import SteppedLogo.Proofs.Session.Ending
import SteppedLogo.Proofs.Session.Subsides
import SteppedLogo.Proofs.Session.Passes
import SteppedLogo.Proofs.Session.Boundary
import SteppedLogo.Proofs.Session.Governed
import SteppedLogo.Proofs.Session.Scenes
import SteppedLogo.Proofs.Session.Calls
import SteppedLogo.Proofs.Session.Cancellation
import SteppedLogo.Proofs.Program.Direct
import SteppedLogo.Proofs.Session.Paced
import SteppedLogo.Proofs.Session.Phases
import SteppedLogo.Proofs.Session.Concluded
import SteppedLogo.Proofs.Session.Stepping
import SteppedLogo.Proofs.World.Parts
import SteppedLogo.Proofs.Gate.Timers
import SteppedLogo.Proofs.Gate.Apart
import SteppedLogo.Proofs.Gate.Stages
import SteppedLogo.Proofs.Fault.Search
import SteppedLogo.Proofs.Session.Reported
import SteppedLogo.Proofs.World.Signals
import SteppedLogo.Proofs.Program.Hosted
import SteppedLogo.Proofs.Session.Hosts
import SteppedLogo.Proofs.Session.Handler
import SteppedLogo.Proofs.Session.Runs
import SteppedLogo.Proofs.Session.History
import SteppedLogo.Proofs.Gate.Woken
import SteppedLogo.Proofs.Session.Waits
import SteppedLogo.Proofs.Program.Sequential
import SteppedLogo.Proofs.Session.Overlap
import SteppedLogo.Proofs.Session.Lasting
import SteppedLogo.Proofs.Program.Wrapping
import SteppedLogo.Proofs.Session.Uncut
import SteppedLogo.Proofs.Session.Halted
import SteppedLogo.Proofs.Session.Undisturbed
import SteppedLogo.Proofs.Session.Due
import SteppedLogo.Proofs.Session.Outcome
import SteppedLogo.Proofs.Trace.Coherent
import SteppedLogo.Proofs.Trace.Marker
import SteppedLogo.Proofs.Trace.Shown
import SteppedLogo.Proofs.Session.Vacant
import SteppedLogo.Proofs.Schedule.Map
import SteppedLogo.Proofs.Fault.Paired
import SteppedLogo.Proofs.Program.Abreast
import SteppedLogo.Proofs.Shadow.Basic
import SteppedLogo.Proofs.Shadow.Session
import SteppedLogo.Proofs.Shadow.Perform
import SteppedLogo.Proofs.Shadow.Scene
import SteppedLogo.Proofs.Shadow.Renewed
import SteppedLogo.Proofs.Session.Empty
import SteppedLogo.Proofs.Session.Parked
import SteppedLogo.Proofs.Session.Hosting
import SteppedLogo.Proofs.Shadow.Observers
import SteppedLogo.Proofs.Program.Planned
import SteppedLogo.Proofs.Session.Announced
import SteppedLogo.Proofs.Session.Narrated
import SteppedLogo.Proofs.Session.Narration
import SteppedLogo.Proofs.Gate.Refused
import SteppedLogo.Proofs.Gate.Pacing
import SteppedLogo.Proofs.Schedule.Clock
import SteppedLogo.Proofs.Stream.Boundary
import SteppedLogo.Proofs.Stream.Course
import SteppedLogo.Proofs.Stream.Records
import SteppedLogo.Proofs.Trace.Styled
import SteppedLogo.Proofs.Fault.Path
import SteppedLogo.Proofs.Trace.Rerendering
import SteppedLogo.Proofs.Command.Effect
import SteppedLogo.Proofs.Command.Atomic
import SteppedLogo.Proofs.Turtle.Drawing
import SteppedLogo.Proofs.Prompt.Entries
import SteppedLogo.Proofs.Prompt.Command
import SteppedLogo.Proofs.Decimal.Number
import SteppedLogo.Proofs.Value.Form
import SteppedLogo.Proofs.Value.Key
import SteppedLogo.Proofs.Command.Registry
import SteppedLogo.Proofs.Command.Position
import SteppedLogo.Proofs.World.Pace
import SteppedLogo.Proofs.Session.Checked
import SteppedLogo.Proofs.Session.Interval
import SteppedLogo.Proofs.Decimal.Nearest
import SteppedLogo.Proofs.Decimal.Sum
import SteppedLogo.Proofs.Decimal.Modulo
import SteppedLogo.Proofs.Turtle.Heading
import SteppedLogo.Proofs.Hosting.Conducts
import SteppedLogo.Proofs.Hosting.Engaged
import SteppedLogo.Proofs.Program.Stepwise
import SteppedLogo.Proofs.Hosting.Course
import SteppedLogo.Proofs.Hosting.Modes
