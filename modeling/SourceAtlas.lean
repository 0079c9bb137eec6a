import SourceAtlas.Proofs.AliasedImports
import SourceAtlas.Proofs.BareDeclarations
import SourceAtlas.Proofs.BoundedSearch
import SourceAtlas.Proofs.BraceAgreement
import SourceAtlas.Proofs.ChangeImpact
import SourceAtlas.Proofs.ChangeSets
import SourceAtlas.Proofs.ClassMethods
import SourceAtlas.Proofs.DeclarationRanges
import SourceAtlas.Proofs.DeclaredNames
import SourceAtlas.Proofs.ExactNames
import SourceAtlas.Proofs.ExactUpdates
import SourceAtlas.Proofs.FileOrder
import SourceAtlas.Proofs.IndexCommit
import SourceAtlas.Proofs.LineNumbering
import SourceAtlas.Proofs.NestedSections
import SourceAtlas.Proofs.ParenGroups
import SourceAtlas.Proofs.ProjectFolders
import SourceAtlas.Proofs.QuotedPaths
import SourceAtlas.Proofs.Reentry
import SourceAtlas.Proofs.SectionLines
import SourceAtlas.Proofs.SemicolonMembers
import SourceAtlas.Proofs.SharedEndings
import SourceAtlas.Proofs.TurnedGraphs
import SourceAtlas.Proofs.UseGroups
import SourceAtlas.Proofs.VanishedFiles
import SourceAtlas.Proofs.Visibility
import SourceAtlas.Query.Guide
import SourceAtlas.Service.Tool
