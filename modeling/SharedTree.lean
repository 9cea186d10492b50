import SharedTree.Flags
import SharedTree.Handle
import SharedTree.Json.Draft
import SharedTree.Json.Numeral
import SharedTree.Json.Reader
import SharedTree.Json.Scanner
import SharedTree.Json.Value
import SharedTree.Kind
import SharedTree.Node.Basic
import SharedTree.Node.Decoding
import SharedTree.Node.Encoding
import SharedTree.Node.Factory
import SharedTree.Node.Listing
import SharedTree.Node.Revision
import SharedTree.Node.Shape
import SharedTree.Node.Size
import SharedTree.Node.View
import SharedTree.Number.Plain
import SharedTree.Number.Shortest
import SharedTree.Pass.Basic
import SharedTree.Pass.Descent
import SharedTree.Pass.Event
import SharedTree.Pass.Plain
import SharedTree.Pass.Register
import SharedTree.Pass.Rules
import SharedTree.Pass.Runner
import SharedTree.Pass.Settings
import SharedTree.Pass.Transform
import SharedTree.Proofs.Allocation
import SharedTree.Proofs.Balance
import SharedTree.Proofs.Becoming
import SharedTree.Proofs.Building
import SharedTree.Proofs.Chronicle
import SharedTree.Proofs.Congruence
import SharedTree.Proofs.Conservation
import SharedTree.Proofs.Counting
import SharedTree.Proofs.Decoding
import SharedTree.Proofs.Elementwise
import SharedTree.Proofs.Error
import SharedTree.Proofs.Failure
import SharedTree.Proofs.Fresh
import SharedTree.Proofs.Fusion
import SharedTree.Proofs.Height
import SharedTree.Proofs.History
import SharedTree.Proofs.Idempotence
import SharedTree.Proofs.Keeping
import SharedTree.Proofs.Ledger
import SharedTree.Proofs.Likeness
import SharedTree.Proofs.Limit
import SharedTree.Proofs.Listing
import SharedTree.Proofs.Making
import SharedTree.Proofs.Moment
import SharedTree.Proofs.Nesting
import SharedTree.Proofs.Normal
import SharedTree.Proofs.Operation
import SharedTree.Proofs.Origin
import SharedTree.Proofs.Parallel
import SharedTree.Proofs.Passage
import SharedTree.Proofs.Reach
import SharedTree.Proofs.Reading
import SharedTree.Proofs.Record
import SharedTree.Proofs.Refinement
import SharedTree.Proofs.Register
import SharedTree.Proofs.Relocation
import SharedTree.Proofs.RoundTrip
import SharedTree.Proofs.Runaway
import SharedTree.Proofs.Scanning
import SharedTree.Proofs.Sharing
import SharedTree.Proofs.Spelling
import SharedTree.Proofs.Step
import SharedTree.Proofs.Survey
import SharedTree.Proofs.Telling
import SharedTree.Proofs.Unambiguity
import SharedTree.Proofs.Update
import SharedTree.Proofs.Walk
import SharedTree.Sample
import SharedTree.Schema
import SharedTree.Span
import SharedTree.Subscription
import SharedTree.Text.Blank
import SharedTree.Text.Hex
import SharedTree.Text.Integer
import SharedTree.Token
import SharedTree.Workbench.Action
import SharedTree.Workbench.Inventory
import SharedTree.Workbench.Recipe
import SharedTree.Workbench.Session
import SharedTree.Proofs.Relocation
