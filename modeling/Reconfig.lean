import Reconfig.Change
import Reconfig.Command.Compile
import Reconfig.Command.Info
import Reconfig.Command.Order
import Reconfig.CommandLine.Arguments
import Reconfig.CommandLine.Failure
import Reconfig.CommandLine.Run
import Reconfig.Dict
import Reconfig.Diff.Compare
import Reconfig.Diff.Liveness
import Reconfig.Diff.Report
import Reconfig.Files
import Reconfig.Flat.Expand
import Reconfig.Flat.Flatten
import Reconfig.Json.Basic
import Reconfig.Json.Numeral
import Reconfig.Json.Place
import Reconfig.Json.Reader
import Reconfig.Json.Writer
import Reconfig.Key.Basic
import Reconfig.Key.Text
import Reconfig.Main
import Reconfig.Number.Binary64
import Reconfig.Number.Decimal
import Reconfig.Number.Layout
import Reconfig.Number.Numeral
import Reconfig.Number.Shortest
import Reconfig.Pattern.Basic
import Reconfig.Pattern.Reader
import Reconfig.Plan
import Reconfig.Proofs.Batch
import Reconfig.Proofs.Deletion
import Reconfig.Proofs.Dict
import Reconfig.Proofs.Flatten
import Reconfig.Proofs.Identity
import Reconfig.Proofs.Instances
import Reconfig.Proofs.Key
import Reconfig.Proofs.Leaves
import Reconfig.Proofs.Lifecycle
import Reconfig.Proofs.Normal
import Reconfig.Proofs.Objects
import Reconfig.Proofs.Order
import Reconfig.Proofs.Plan
import Reconfig.Proofs.Reach
import Reconfig.Proofs.Reading
import Reconfig.Proofs.Regular
import Reconfig.Proofs.Removal
import Reconfig.Proofs.Replication
import Reconfig.Proofs.Report
import Reconfig.Proofs.RoundTrip
import Reconfig.Proofs.Script
import Reconfig.Proofs.SecondRun
import Reconfig.Proofs.Trie
import Reconfig.Schema.Basic
import Reconfig.Schema.Catalogue
import Reconfig.Schema.Check
import Reconfig.Schema.Form
import Reconfig.Schema.Format
import Reconfig.Schema.Issue
import Reconfig.Schema.Library
import Reconfig.Schema.Reader
import Reconfig.Schema.Registry
import Reconfig.Schema.Source
import Reconfig.Schema.Standard
import Reconfig.Schema.Version
import Reconfig.Settings.Basic
import Reconfig.Settings.Reader
import Reconfig.Text.Base64
import Reconfig.Text.Blank
import Reconfig.Text.Digit
import Reconfig.Text.Letter
import Reconfig.Text.Moment
import Reconfig.Text.Percent
import Reconfig.Text.Scan
import Reconfig.Text.Split
import Reconfig.Text.Utf8
import Reconfig.Tree.Basic
import Reconfig.Tree.Document
import Reconfig.Tree.Text
import Reconfig.Url.Basic
import Reconfig.Url.Host
import Reconfig.Url.Reader
import Reconfig.Vocabulary
import Reconfig.Yaml.Cursor
import Reconfig.Yaml.Meaning
import Reconfig.Yaml.Node
import Reconfig.Yaml.Reader
import Reconfig.Yaml.Scalar
import Reconfig.Yaml.Tag
import Reconfig.Yaml.Token
import Reconfig.Yaml.Value
import Reconfig.Proofs.Alike
import Reconfig.Proofs.Surroundings
import Reconfig.Proofs.Locality
import Reconfig.Proofs.Exclusion
import Reconfig.Proofs.EmptyEdits
import Reconfig.Proofs.Announcement
import Reconfig.Proofs.Catalogue
import Reconfig.Proofs.Refusal
import Reconfig.Proofs.Sections
import Reconfig.Proofs.ListEdits
import Reconfig.Proofs.Arrangement
import Reconfig.Proofs.Sweep
import Reconfig.Proofs.Reset
import Reconfig.Proofs.WellFormed
import Reconfig.Proofs.Regrouping
import Reconfig.Proofs.Settled
import Reconfig.Proofs.Expand
import Reconfig.Proofs.Flattened
import Reconfig.Proofs.Integers
import Reconfig.Proofs.Grouping
import Reconfig.Proofs.Canonical
import Reconfig.Proofs.MixedLists
import Reconfig.Proofs.Sinks
import Reconfig.Proofs.SchemaFields
import Reconfig.Proofs.SchemaFrame
import Reconfig.Proofs.Releases
import Reconfig.Proofs.Registration
import Reconfig.Proofs.Requirements
import Reconfig.Proofs.Defaults
