import Depfile.Main
import Depfile.Session
import Depfile.System.Disk
import Depfile.System.Memory
import Depfile.Proofs.Path.Components
import Depfile.Proofs.Path.Walk
import Depfile.Proofs.Path.Under
import Depfile.Proofs.Path.Relative
import Depfile.Proofs.Path.Way
import Depfile.Proofs.Path.Escaped
import Depfile.Proofs.Path.Marked
import Depfile.Proofs.Path.Inside
import Depfile.Proofs.Path.Ancestors
import Depfile.Proofs.Path.Shape
import Depfile.Proofs.Path.Equality
import Depfile.Proofs.Path.Settling
import Depfile.Proofs.Path.Shortest
import Depfile.Proofs.Layout.Cut
import Depfile.Proofs.Layout.Words
import Depfile.Proofs.Layout.Revision
import Depfile.Proofs.Layout.Reword
import Depfile.Proofs.Layout.Separator
import Depfile.Proofs.Layout.Division
import Depfile.Proofs.Layout.Idempotence
import Depfile.Proofs.Layout.Frame
import Depfile.Proofs.Layout.Relocation
import Depfile.Proofs.Layout.Rules
import Depfile.Proofs.Layout.Names
import Depfile.Proofs.Layout.Meaning
import Depfile.Proofs.Layout.Remainder
import Depfile.Proofs.Layout.Completeness
import Depfile.Proofs.Layout.Plain
import Depfile.Proofs.Token.Escape
import Depfile.Proofs.Token.Scan
import Depfile.Proofs.Token.Written
import Depfile.Proofs.Token.Plain
import Depfile.Proofs.Token.Names
import Depfile.Proofs.Dependencies
import Depfile.Proofs.Token.Content
import Depfile.Proofs.Token.RoundTrip
import Depfile.Proofs.Token.Avoidance
import Depfile.Proofs.Normalization.Step
import Depfile.Proofs.System.Memory
import Depfile.Proofs.Text.Utf8
import Depfile.Proofs.Command.Report
import Depfile.Proofs.Normalization.Convergence
import Depfile.Proofs.Command.Run
import Depfile.Proofs.Session.Frame
import Depfile.Proofs.Toml.Keys
import Depfile.Proofs.Command.Layers
import Depfile.Proofs.Command.Level
import Depfile.Proofs.Command.Arguments
import Depfile.Proofs.Session.DryRun
import Depfile.Proofs.Session.Configuration
import Depfile.Proofs.Token.Machine
import Depfile.Proofs.Token.Separation
import Depfile.Proofs.Token.LineEnd
import Depfile.Proofs.Layout.LineEnd
import Depfile.Proofs.Token.Drive
import Depfile.Proofs.Layout.Concatenation
import Depfile.Proofs.Layout.Narrowing
