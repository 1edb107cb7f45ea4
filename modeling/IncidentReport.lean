import IncidentReport.Resolution.Live
import IncidentReport.Resolution.Settings
import IncidentReport.Inspect
import IncidentReport.Sample
import IncidentReport.Proofs.Forest.Paths
import IncidentReport.Proofs.Forest.WellFormed
import IncidentReport.Proofs.Tree.Valid
import IncidentReport.Proofs.Forest.Construction
import IncidentReport.Proofs.Forest.Planting
import IncidentReport.Proofs.Resolution.Builds
import IncidentReport.Proofs.Resolution.Live
import IncidentReport.Proofs.Resolution.Reports
import IncidentReport.Proofs.Forest.Frame
import IncidentReport.World
import IncidentReport.Proofs.World
import IncidentReport.Proofs.Isolation
import IncidentReport.Proofs.Resolution.Templates
import IncidentReport.Proofs.Markup.Escape
import IncidentReport.Proofs.Markup.Name
import IncidentReport.Proofs.Text.Split
import IncidentReport.Proofs.Markup.Normal
import IncidentReport.Proofs.Markup.StartTag
import IncidentReport.Proofs.Markup.Tokens
import IncidentReport.Proofs.Markup.Assembly
import IncidentReport.Proofs.Markup.RoundTrip
import IncidentReport.Proofs.Resolution.Gathering
import IncidentReport.Proofs.Resolution.Refinement
import IncidentReport.Proofs.Resolution.ReportTrees
import IncidentReport.Proofs.Node.Attributes
import IncidentReport.Proofs.Tree.Nodes
import IncidentReport.Proofs.Tree.Same
import IncidentReport.Proofs.Forest.Equality
import IncidentReport.Proofs.Node.Normal
import IncidentReport.Proofs.Tree.RoundTrip
import IncidentReport.Proofs.Tree.Writing
import IncidentReport.Proofs.ReadBack
import IncidentReport.Proofs.Resolution.Reach
import IncidentReport.Proofs.Resolution.Twins
import IncidentReport.Proofs.Locality
import IncidentReport.Proofs.Resolution.Ranked
import IncidentReport.Proofs.Stability
import IncidentReport.Proofs.Attachment
import IncidentReport.Proofs.Log
import IncidentReport.Proofs.Tree.Grammar
import IncidentReport.Proofs.Markup.Scope
import IncidentReport.Proofs.Markup.SingleRoot
import IncidentReport.Proofs.Node.Growth
import IncidentReport.Proofs.Defaults
import IncidentReport.Proofs.History
import IncidentReport.Proofs.Copies
import IncidentReport.Proofs.Forest.Recursion
import IncidentReport.Proofs.Resolution.Recursion
import IncidentReport.Proofs.Termination
import IncidentReport.Proofs.Classification
import IncidentReport.Proofs.Resolution.Steps
import IncidentReport.Proofs.Placement
import IncidentReport.Proofs.Width
import IncidentReport.Proofs.Attribution
import IncidentReport.Proofs.Tree.CharacterData
import IncidentReport.Proofs.Nesting
import IncidentReport.Proofs.Unexpanded
import IncidentReport.Proofs.Provenance
import IncidentReport.Proofs.Inheritance
import IncidentReport.Proofs.Search
import IncidentReport.Proofs.Tree.Dump
import IncidentReport.Proofs.Equality
import IncidentReport.Proofs.Mutation
