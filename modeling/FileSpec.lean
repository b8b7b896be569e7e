import FileSpec.Directory.SelectedFiles
import FileSpec.FileTree.Change
import FileSpec.Main
import FileSpec.Proofs.Directory.LazyWalk
import FileSpec.Proofs.Directory.Selection
import FileSpec.Proofs.Path.Reservations
import FileSpec.Proofs.Path.Trim
import FileSpec.Proofs.Path.Validity
import FileSpec.Proofs.Pattern.CaseFolding
import FileSpec.Proofs.Pattern.Matching
import FileSpec.Proofs.Pattern.SeparatorKinds
import FileSpec.Proofs.Settings.Resolution
import FileSpec.Proofs.Path.Absolute
import FileSpec.Proofs.FileTree.Variants
import FileSpec.Proofs.Path.Occupied
import FileSpec.Proofs.Pattern.AnyDirectories
import FileSpec.Proofs.Directory.NameScope
import FileSpec.Proofs.Settings.Faults
import FileSpec.Proofs.Command.Outcome
import FileSpec.Proofs.Pattern.PathSeparators
import FileSpec.Proofs.Directory.Order
import FileSpec.Proofs.Pattern.LiteralSpecifications
import FileSpec.Proofs.FileTree.Directories
import FileSpec.Proofs.FileTree.Listing
import FileSpec.Proofs.FileTree.Walks
import FileSpec.Proofs.Pattern.AsteriskRuns
import FileSpec.Proofs.Pattern.BelowDirectory
import FileSpec.Proofs.Pattern.SameExpression
import FileSpec.Proofs.Pattern.RunCount
import FileSpec.Proofs.Path.Repair
import FileSpec.Proofs.Path.DisplayedDirectory
import FileSpec.Proofs.Path.CheckedPaths
import FileSpec.Proofs.Directory.Requests
import FileSpec.Proofs.Directory.Unreadable
import FileSpec.Proofs.Directory.WantedNames
import FileSpec.Proofs.Path.Joining
import FileSpec.Proofs.Path.ShownNames
import FileSpec.Proofs.Pattern.NameClass
import FileSpec.Proofs.Settings.FieldByField
import FileSpec.Proofs.Pattern.Splitting
