import ContainerCommand.Command.Compile
import ContainerCommand.CommandLine.Execute
import ContainerCommand.Config.Storage
import ContainerCommand.Document
import ContainerCommand.Failure
import ContainerCommand.Host.Disk
import ContainerCommand.Host.Standard
import ContainerCommand.Invocation.Capture
import ContainerCommand.Invocation.Programs
import ContainerCommand.Invocation.Run
import ContainerCommand.Json.Printer
import ContainerCommand.Json.Reader
import ContainerCommand.Main
import ContainerCommand.Mount
import ContainerCommand.Number.Binary64
import ContainerCommand.Number.Layout
import ContainerCommand.Parameter.Basic
import ContainerCommand.Parameter.Record
import ContainerCommand.Proofs.Command.Acceptance
import ContainerCommand.Proofs.Command.Buckets
import ContainerCommand.Proofs.Command.Compilation
import ContainerCommand.Proofs.Command.Frame
import ContainerCommand.Proofs.Command.Host
import ContainerCommand.Proofs.Command.Merging
import ContainerCommand.Proofs.Command.MountEffects
import ContainerCommand.Proofs.Command.Redirection
import ContainerCommand.Proofs.Command.Reordering
import ContainerCommand.Proofs.Command.Replay
import ContainerCommand.Proofs.Command.Suppression
import ContainerCommand.Proofs.Command.Translation
import ContainerCommand.Proofs.Command.Words
import ContainerCommand.Proofs.CommandLine.Code
import ContainerCommand.Proofs.Config.Reading
import ContainerCommand.Proofs.Config.Saving
import ContainerCommand.Proofs.Document.Fields
import ContainerCommand.Proofs.Host.Disk
import ContainerCommand.Proofs.Invocation.Capture
import ContainerCommand.Proofs.Json.Writing
import ContainerCommand.Proofs.Mount.Translation
import ContainerCommand.Proofs.Parameter.Decoding
import ContainerCommand.Proofs.Parameter.Soundness
import ContainerCommand.Proofs.Parameter.Writing
import ContainerCommand.Proofs.Path.Components
import ContainerCommand.Proofs.Path.Extension
import ContainerCommand.Proofs.Path.Stem
import ContainerCommand.Proofs.Resolution.Cycle
import ContainerCommand.Proofs.Resolution.Derivation
import ContainerCommand.Proofs.Resolution.Equations
import ContainerCommand.Proofs.Resolution.Nesting
import ContainerCommand.Proofs.Resolution.Walk
import ContainerCommand.Proofs.Schema.Catalogue
import ContainerCommand.Proofs.Schema.Lookup
import ContainerCommand.Proofs.Schema.Merging
import ContainerCommand.Proofs.Task.Arguments
import ContainerCommand.Proofs.Task.Mounts
import ContainerCommand.Proofs.Task.Running
import ContainerCommand.Proofs.TaskFile.Agreement
import ContainerCommand.Proofs.TaskFile.Decoding
import ContainerCommand.Proofs.TaskFile.JsonSchema
import ContainerCommand.Proofs.TaskFile.Shape
import ContainerCommand.Proofs.Template.Grammar
import ContainerCommand.Proofs.Template.Integer
import ContainerCommand.Proofs.Template.Name
import ContainerCommand.Proofs.Template.Slot
import ContainerCommand.Proofs.Template.Truncation
import ContainerCommand.Proofs.Text.Reader
import ContainerCommand.Proofs.Text.Utf8
import ContainerCommand.Proofs.Toml.Quoting
import ContainerCommand.Proofs.Toml.Values
import ContainerCommand.Proofs.Toml.Writing
import ContainerCommand.Resolution.Walk
import ContainerCommand.Schema
import ContainerCommand.Schema.Catalogue
import ContainerCommand.Shell.Arithmetic
import ContainerCommand.Shell.Builtin
import ContainerCommand.Shell.Field
import ContainerCommand.Shell.Format
import ContainerCommand.Shell.Run
import ContainerCommand.Shell.Script
import ContainerCommand.Shell.Token
import ContainerCommand.Table
import ContainerCommand.Task.Builtin
import ContainerCommand.Task.Run
import ContainerCommand.TaskFile.Parse
import ContainerCommand.Template.Argument
import ContainerCommand.Template.Name
import ContainerCommand.Template.Slot
import ContainerCommand.Text.Blank
import ContainerCommand.Text.Reader
import ContainerCommand.Text.Utf8
import ContainerCommand.Toml.Moment
import ContainerCommand.Toml.Numeral
import ContainerCommand.Toml.Reader
import ContainerCommand.Toml.Text
import ContainerCommand.Toml.Writer
import ContainerCommand.Value
