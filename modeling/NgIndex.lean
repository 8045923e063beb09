import NgIndex.Main
import NgIndex.Text.Edit.Places
import NgIndex.Proofs.Files
import NgIndex.Proofs.Index.Update
import NgIndex.Proofs.Index.Convergence
import NgIndex.Proofs.Analysis.Stable
import NgIndex.Proofs.Index.Watched
import NgIndex.Proofs.Index.Coherence
import NgIndex.Proofs.Lookup.Ending
import NgIndex.Proofs.Analysis.Ending
import NgIndex.Proofs.Analysis.Candidates
import NgIndex.Proofs.Script.Within
import NgIndex.Proofs.Lookup.Inside
import NgIndex.Proofs.Analysis.Circle
import NgIndex.Proofs.Index.Overlap
import NgIndex.Proofs.Index.InTurn
import NgIndex.Proofs.Index.Tasks
import NgIndex.Proofs.Index.Generations
import NgIndex.Proofs.Index.Notifications
import NgIndex.Proofs.Index.Buffers
import NgIndex.Proofs.Entity.Inheritance
import NgIndex.Proofs.Index.FailedRefresh
import NgIndex.Proofs.Lookup.DefaultExport
import NgIndex.Proofs.Lookup.WholeImport
import NgIndex.Proofs.Script.Scope
import NgIndex.Proofs.Analysis.Chain
import NgIndex.Proofs.Analysis.Registrations
import NgIndex.Proofs.Analysis.Unsupported
import NgIndex.Proofs.Analysis.ClassFactories
import NgIndex.Proofs.Script.Outline
import NgIndex.Proofs.Script.Recommented
import NgIndex.Proofs.Lookup.Recommented
import NgIndex.Proofs.Analysis.Recommented
import NgIndex.Proofs.Text.Edit
import NgIndex.Proofs.Scan
import NgIndex.Proofs.Index.Membership
import NgIndex.Proofs.Index.Renaming
import NgIndex.Proofs.Path.Address
import NgIndex.Proofs.Entity.Members
import NgIndex.Proofs.Text.Bytes
import NgIndex.Proofs.Glob.Match
import NgIndex.Proofs.Glob.Names
import NgIndex.Proofs.Index.Selection
import NgIndex.Proofs.Lookup.Isolated
import NgIndex.Proofs.Analysis.Isolated
import NgIndex.Proofs.Entity.BindingType
import NgIndex.Proofs.Script.Table
import NgIndex.Proofs.Analysis.Members
import NgIndex.Proofs.Index.MarkupNames
import NgIndex.Proofs.Entity.Route
import NgIndex.Proofs.Markup.Reference
import NgIndex.Proofs.Script.Traversal
import NgIndex.Proofs.Path.Joined
