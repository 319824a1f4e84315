import Targeting.CommandLine.Change
import Targeting.CommandLine.Command
import Targeting.CommandLine.Completion
import Targeting.CommandLine.Error
import Targeting.CommandLine.Help
import Targeting.CommandLine.Interface
import Targeting.CommandLine.Program
import Targeting.CommandLine.Report
import Targeting.Configuration.Basic
import Targeting.Configuration.File
import Targeting.Configuration.Layer
import Targeting.Configuration.Load
import Targeting.Configuration.Variables
import Targeting.Decimal.Binary64
import Targeting.Decimal.Extended
import Targeting.Decimal.Layout
import Targeting.Decimal.Shortest
import Targeting.Entity
import Targeting.Environment.Basic
import Targeting.Environment.Expansion
import Targeting.Expression.Reader
import Targeting.Expression.Writer
import Targeting.Files.Access
import Targeting.Files.Tree
import Targeting.Grammar
import Targeting.Group
import Targeting.Json.Inspection
import Targeting.Json.Number
import Targeting.Json.Reader
import Targeting.Json.Value
import Targeting.Json.Writer
import Targeting.Proofs.CommandLine.Access
import Targeting.Proofs.CommandLine.Action
import Targeting.Proofs.CommandLine.Stored
import Targeting.Proofs.Configuration.Keys
import Targeting.Proofs.Configuration.Load
import Targeting.Proofs.Configuration.Setting
import Targeting.Proofs.Configuration.Variables
import Targeting.Proofs.Decimal.Nearest
import Targeting.Proofs.Decimal.Shortest
import Targeting.Proofs.Entity
import Targeting.Proofs.Expression.Equality
import Targeting.Proofs.Expression.Fault
import Targeting.Proofs.Expression.Format
import Targeting.Proofs.Expression.Formula
import Targeting.Proofs.Expression.Reading
import Targeting.Proofs.Expression.RoundTrip
import Targeting.Proofs.Files.Lawful
import Targeting.Proofs.Group.Change
import Targeting.Proofs.Group.Commute
import Targeting.Proofs.Group.Coverage
import Targeting.Proofs.Group.Edit
import Targeting.Proofs.Group.Editable
import Targeting.Proofs.Group.Operands
import Targeting.Proofs.Group.Outcome
import Targeting.Proofs.Group.Outline
import Targeting.Proofs.Group.Roles
import Targeting.Proofs.Group.Shape
import Targeting.Proofs.Group.View
import Targeting.Proofs.Json.Fractions
import Targeting.Proofs.Json.Members
import Targeting.Proofs.Json.Numbers
import Targeting.Proofs.Json.RoundTrip
import Targeting.Proofs.Json.Rounding
import Targeting.Proofs.Json.Strings
import Targeting.Proofs.Session.Action
import Targeting.Proofs.Session.Attachment
import Targeting.Proofs.Session.Continuity
import Targeting.Proofs.Session.Description
import Targeting.Proofs.Session.Editable
import Targeting.Proofs.Session.Groups
import Targeting.Proofs.Session.LifeCycle
import Targeting.Proofs.Session.Removal
import Targeting.Proofs.Session.Reopening
import Targeting.Proofs.Session.Revision
import Targeting.Proofs.Session.Room
import Targeting.Proofs.Session.Saving
import Targeting.Proofs.Session.Sound
import Targeting.Proofs.Session.Taxonomy
import Targeting.Proofs.Session.Written
import Targeting.Proofs.Storage
import Targeting.Proofs.Tree.Arena
import Targeting.Proofs.Tree.Blindness
import Targeting.Proofs.Tree.Cycle
import Targeting.Proofs.Tree.Depth
import Targeting.Proofs.Tree.Edit
import Targeting.Proofs.Tree.Forest
import Targeting.Proofs.Tree.Growth
import Targeting.Proofs.Tree.Identity
import Targeting.Proofs.Tree.Lookup
import Targeting.Proofs.Tree.Names
import Targeting.Proofs.Tree.Naming
import Targeting.Proofs.Tree.Release
import Targeting.Proofs.Tree.Removal
import Targeting.Proofs.Tree.Run
import Targeting.Proofs.Tree.Stale
import Targeting.Proofs.Tree.Traversal
import Targeting.Proofs.Tree.Walk
import Targeting.Session.Basic
import Targeting.Session.Info
import Targeting.Storage
import Targeting.Taxonomy
import Targeting.Text.Basic
import Targeting.Text.Reader
import Targeting.Toml.Moment
import Targeting.Toml.Number
import Targeting.Toml.Quoted
import Targeting.Toml.Reader
import Targeting.Toml.Table
import Targeting.Toml.Value
import Targeting.Toml.Writer
import Targeting.Tree.Arena
import Targeting.Tree.Basic
import Targeting.Tree.Branch
import Targeting.Tree.Drawing
import Targeting.Tree.Edit
import Targeting.Tree.Error
import Targeting.Tree.Node
import Targeting.Tree.Walk
import Targeting.Unicode.Alphanumeric
import Targeting.Unicode.Unshown
import Targeting.Main
