import QueryComposer.Double.Notation
import QueryComposer.Double.Nearest
import QueryComposer.OrderedMap
import QueryComposer.Text.Blank
import QueryComposer.Text.Quoted
import QueryComposer.Text.Join
import QueryComposer.Json.Reader
import QueryComposer.Json.Printer
import QueryComposer.BuildError
import QueryComposer.Value.Literal
import QueryComposer.Value.OfJson
import QueryComposer.Selection.Basic
import QueryComposer.Request
import QueryComposer.Description.OfJson
import QueryComposer.Description.Build
import QueryComposer.Files.Disk
import QueryComposer.Text.Lines
import QueryComposer.Main
import QueryComposer.Proofs.OrderedMap
import QueryComposer.Proofs.Result
import QueryComposer.Proofs.Json.Reading
import QueryComposer.Proofs.Value.Literal
import QueryComposer.Proofs.Nodes.Session
import QueryComposer.Proofs.Nodes.WellFormed
import QueryComposer.Proofs.Double.Notation
import QueryComposer.Proofs.Rendering.Compositional
import QueryComposer.Proofs.Rendering.Apart
import QueryComposer.Proofs.Rendering.Canonical
import QueryComposer.Proofs.Rendering.ValuesApart
import QueryComposer.Proofs.Rendering.Unambiguous
import QueryComposer.Proofs.Position
import QueryComposer.Proofs.Value.Refused
import QueryComposer.Proofs.Description.Arguments
import QueryComposer.Proofs.Value.Integers
import QueryComposer.Proofs.Description.Violations
import QueryComposer.Proofs.Description.FirstViolation
import QueryComposer.Proofs.Rendering.Layout
import QueryComposer.Proofs.Description.Layout
import QueryComposer.Proofs.Double.Nearest
import QueryComposer.Proofs.Json.RoundTrip
import QueryComposer.Proofs.Rendering.Formats
import QueryComposer.Proofs.Rendering.Payload
import QueryComposer.Proofs.Rendering.Runs
import QueryComposer.Proofs.Value.Equality
import QueryComposer.Proofs.Nodes.Equality
import QueryComposer.Proofs.Json.Nesting
import QueryComposer.Proofs.Json.Records
import QueryComposer.Proofs.Description.Spellings
import QueryComposer.Proofs.Places
import QueryComposer.Proofs.Value.Conversion
import QueryComposer.Proofs.Nodes.Validation
import QueryComposer.Proofs.Rendering.PlainJson
import QueryComposer.Proofs.Value.Order
import QueryComposer.Proofs.Nodes.Drafts
import QueryComposer.Proofs.Nodes.Changes
import QueryComposer.Proofs.Nodes.Declarations
import QueryComposer.Proofs.Nodes.VariableNames
import QueryComposer.Proofs.Files.ByteOrder
import QueryComposer.Proofs.Files.Visits
import QueryComposer.Proofs.Rendering.Collection
import QueryComposer.Proofs.Nodes.OperationField
import QueryComposer.Proofs.InputType
import QueryComposer.Proofs.Description.TypeNames
import QueryComposer.Proofs.Addresses
