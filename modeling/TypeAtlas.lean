import TypeAtlas.Main
import TypeAtlas.Proofs.CommandLine.Literal
import TypeAtlas.Proofs.Extraction.Closure
import TypeAtlas.Proofs.Extraction.Conservation
import TypeAtlas.Proofs.Extraction.Entries
import TypeAtlas.Proofs.Extraction.Externals
import TypeAtlas.Proofs.Extraction.Invariance
import TypeAtlas.Proofs.Extraction.Limits
import TypeAtlas.Proofs.Extraction.Lineage
import TypeAtlas.Proofs.Extraction.RawTypes
import TypeAtlas.Proofs.Extraction.Resolved
import TypeAtlas.Proofs.Extraction.Throwable
import TypeAtlas.Proofs.Extraction.TypeStrings
import TypeAtlas.Proofs.Model.Changes
import TypeAtlas.Proofs.Model.Decoding
import TypeAtlas.Proofs.Project.Duplicates
import TypeAtlas.Proofs.Project.Failures
import TypeAtlas.Proofs.Project.OuterTypes
import TypeAtlas.Proofs.Project.Placement
import TypeAtlas.Proofs.Project.Retry
import TypeAtlas.Proofs.Project.Shadowing
import TypeAtlas.Proofs.Project.Supertypes
import TypeAtlas.Proofs.Project.Variables
import TypeAtlas.Proofs.Scope.Enclosing
import TypeAtlas.Proofs.Scope.Inheritance
import TypeAtlas.Proofs.Scope.MethodVariables
import TypeAtlas.Proofs.Scope.Qualification
import TypeAtlas.Proofs.Scope.Search
import TypeAtlas.Proofs.Syntax.Comments
import TypeAtlas.Proofs.Syntax.CompactConstructors
import TypeAtlas.Proofs.Syntax.Preorder
import TypeAtlas.Proofs.Syntax.RoundTrip
import TypeAtlas.Proofs.Syntax.Signatures
