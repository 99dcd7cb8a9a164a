import Stencil.Main
import Stencil.Template.Outline
import Stencil.Page.Session
import Stencil.Proofs.Scope.Nested
import Stencil.Proofs.Template.Brackets
import Stencil.Proofs.Template.Meaning
import Stencil.Proofs.Template.Fragments
import Stencil.Proofs.Template.Faults
import Stencil.Proofs.Template.Below
import Stencil.Proofs.Template.Joined
import Stencil.Proofs.Template.Numbering
import Stencil.Proofs.Template.Ordered
import Stencil.Proofs.Scan.Exact
import Stencil.Proofs.Scan.Tiling
import Stencil.Proofs.Scan.Lines
import Stencil.Proofs.Literal.Grammar
import Stencil.Proofs.Page.Overrides
import Stencil.Proofs.Page.Nearest
import Stencil.Proofs.Page.Reach
import Stencil.Proofs.Page.Seams
import Stencil.Proofs.Page.History
import Stencil.Proofs.Page.Coherence
import Stencil.Proofs.Literal.Printed
import Stencil.Proofs.Page.Matching
import Stencil.Proofs.Site.Turns
import Stencil.Proofs.Site.Refusal
import Stencil.Proofs.Scope.Mention
import Stencil.Proofs.Command.Check
import Stencil.Proofs.Site.Report
import Stencil.Proofs.Site.Styles
import Stencil.Proofs.Site.Creation
import Stencil.Proofs.Site.Rebuild
import Stencil.Proofs.Bounds.Engine
import Stencil.Proofs.Value.Integers
import Stencil.Proofs.Page.Substitution
import Stencil.Proofs.Page.Naming
import Stencil.Proofs.Value.Equality
import Stencil.Proofs.Template.Closing
import Stencil.Proofs.Scope.Enclosed
import Stencil.Proofs.Scope.EmptySegments
import Stencil.Proofs.Scope.Stepwise
import Stencil.Proofs.Literal.Names
import Stencil.Proofs.Literal.Refusal
import Stencil.Proofs.Page.Refusal
import Stencil.Proofs.Scan.Apart
import Stencil.Proofs.Template.Kinds
import Stencil.Proofs.Files.Removal
import Stencil.Proofs.Files.Listing
import Stencil.Proofs.Files.Spelling
import Stencil.Proofs.Site.Listing
import Stencil.Proofs.Site.Watching
