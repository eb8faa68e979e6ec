import ScriptHost.Url.Ipv4
import ScriptHost.Url.Basic
import ScriptHost.Text.Percent
import ScriptHost.Text.Blank
import ScriptHost.Url.Ipv6
import ScriptHost.Url.Host
import ScriptHost.Url.Reference
import ScriptHost.Module.FilePath
import ScriptHost.Number.Layout
import ScriptHost.Json.Reader
import ScriptHost.Json.Writer
import ScriptHost.Config.Layers
import ScriptHost.Config.Document
import ScriptHost.Callback.Adapt
import ScriptHost.Callback.Course
import ScriptHost.Timers.Scenario
import ScriptHost.Module.Order
import ScriptHost.Source.Provider
import ScriptHost.Source.Reading
import ScriptHost.Registry.Basic
import ScriptHost.Dispatch.Basic
import ScriptHost.Recipe.Runs
import ScriptHost.Host.Session
import ScriptHost.Host.Course
import ScriptHost.Program.Document
import ScriptHost.Program.Source
import ScriptHost.Engine.State
import ScriptHost.Engine.Expression
import ScriptHost.Engine.Statement
import ScriptHost.Engine.Instance
import ScriptHost.Engine.Runs
import ScriptHost.Text.Trace
import ScriptHost.Main
import ScriptHost.Proofs.Registry.AtMostOnce
import ScriptHost.Proofs.Registry.LifeCycle
import ScriptHost.Proofs.Registry.Progress
import ScriptHost.Proofs.Registry.Worlds
import ScriptHost.Proofs.Registry.Schedules
import ScriptHost.Proofs.Registry.GivingUp
import ScriptHost.Proofs.Engine.Mains
import ScriptHost.Proofs.Engine.OwnFailures
import ScriptHost.Proofs.Engine.Settled
import ScriptHost.Proofs.Engine.StoppedTimers
import ScriptHost.Proofs.Engine.Secluded
import ScriptHost.Proofs.Engine.SecludedCode
import ScriptHost.Proofs.Engine.SecludedInstances
import ScriptHost.Proofs.Engine.SecludedLoop
import ScriptHost.Proofs.Engine.SecludedRuns
import ScriptHost.Proofs.Engine.Confinement
import ScriptHost.Proofs.Timers.Turn
import ScriptHost.Proofs.Timers.Invariant
import ScriptHost.Proofs.Timers.Moves
import ScriptHost.Proofs.Timers.Active
import ScriptHost.Proofs.Timers.OnSchedule
import ScriptHost.Proofs.Directories.Lines
import ScriptHost.Proofs.Directories.Accounts
import ScriptHost.Proofs.Directories.Progress
import ScriptHost.Proofs.Directories.Partition
import ScriptHost.Proofs.Directories.Handles
import ScriptHost.Proofs.Host.Directories
import ScriptHost.Proofs.Host.Reads
import ScriptHost.Proofs.Host.Callbacks
import ScriptHost.Proofs.Host.Moves
import ScriptHost.Proofs.Host.Answers
import ScriptHost.Proofs.Host.OwnMoves
import ScriptHost.Proofs.Dispatch.Stories
import ScriptHost.Proofs.Dispatch.Told
import ScriptHost.Proofs.Dispatch.Outcome
import ScriptHost.Proofs.Dispatch.Repeated
import ScriptHost.Proofs.Native.Path
import ScriptHost.Proofs.Text.Percent
import ScriptHost.Proofs.Text.Ascii
import ScriptHost.Proofs.CommandLine.Arguments
import ScriptHost.Proofs.CommandLine.Passed
import ScriptHost.Proofs.Config.Layers
import ScriptHost.Proofs.Config.Overlay
import ScriptHost.Proofs.Url.Reference
import ScriptHost.Proofs.Module.Spelling
import ScriptHost.Proofs.Module.Identity
import ScriptHost.Proofs.Module.NamedFiles
import ScriptHost.Proofs.Module.Directories
import ScriptHost.Proofs.Module.RelativeNames
import ScriptHost.Proofs.Module.Fragments
import ScriptHost.Proofs.Url.ReadBack
import ScriptHost.Proofs.Source.Reading
import ScriptHost.Proofs.Callback.FirstResult
import ScriptHost.Proofs.Engine.SingleInstance
import ScriptHost.Proofs.Engine.ImportNames
