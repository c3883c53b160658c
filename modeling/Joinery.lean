import Joinery.EventBus
import Joinery.Main
import Joinery.Proofs.Assembly.Convergence
import Joinery.Proofs.FileSet.LastOperation
import Joinery.Proofs.Resolver.Location
import Joinery.Proofs.Validation.Locality
import Joinery.Proofs.Assembly.Chronicle
import Joinery.Proofs.Dependencies
import Joinery.Proofs.Assembly.Packages
import Joinery.Proofs.Assembly.Locking
import Joinery.Proofs.Assembly.Unaided
import Joinery.Proofs.Validation.Depth
import Joinery.Proofs.EventBus
import Joinery.Proofs.QuickCheck
import Joinery.Proofs.SourceModule.EmptyLine
import Joinery.Proofs.SourceModule.CommentLines
import Joinery.Proofs.Text.Reading
import Joinery.Proofs.SourceModule.Written
import Joinery.Proofs.SourceModule.WrittenLines
import Joinery.Proofs.SourceModule.WrittenImports
import Joinery.Proofs.SourceModule.ExportStatements
import Joinery.Proofs.SourceModule.WrittenExports
import Joinery.Proofs.ExportFix.Mentions
import Joinery.Proofs.Assembly.Overwriting
import Joinery.Proofs.Tsconfig.Transparency
import Joinery.Proofs.Json.Plain
import Joinery.Proofs.Json.Written
import Joinery.Proofs.Assembly.SavedResult
import Joinery.Proofs.FileSet.Refusal
import Joinery.Proofs.Distinct
import Joinery.Proofs.Sorting
import Joinery.Proofs.Assembly.Grouping
import Joinery.Proofs.Assembly.Accounting
import Joinery.Proofs.FileSet.Plurals
import Joinery.Proofs.Resolver.Spelling
import Joinery.Proofs.MissingFile
import Joinery.Proofs.SourceModule.RemarkedLists
import Joinery.Proofs.Tsconfig.Patterns
import Joinery.Proofs.Disk.Writing
import Joinery.Proofs.SourceModule.StarLines
import Joinery.Proofs.Validation.Required
import Joinery.Proofs.SourceModule.StatementLines
import Joinery.Proofs.Validation.Accounts
import Joinery.Proofs.Assembly.Generated
import Joinery.Proofs.EventBus.Isolation
import Joinery.Proofs.Path.Spelling
import Joinery.Proofs.Resolver.Aliases
import Joinery.Proofs.Locks
import Joinery.Proofs.Config.Overriding
