import SchemaMigration.Main
import SchemaMigration.Scripted.Session
import SchemaMigration.Proofs.DistinctVersions
import SchemaMigration.Proofs.MoveProgress
import SchemaMigration.Proofs.PlanRefusals
import SchemaMigration.Proofs.RedoOrder
import SchemaMigration.Proofs.RevertProgress
import SchemaMigration.Proofs.ScriptAttempts
import SchemaMigration.Proofs.StatementBinding
import SchemaMigration.Proofs.StatementSegments
import SchemaMigration.Proofs.TransactionDiscipline
import SchemaMigration.Proofs.Undoing
import SchemaMigration.Proofs.UpProgress
import SchemaMigration.Proofs.VersionLiterals
import SchemaMigration.Proofs.IdentifierNames
import SchemaMigration.Proofs.Preview
import SchemaMigration.Proofs.RecordedVersions
import SchemaMigration.Proofs.StatementTemplates
import SchemaMigration.Proofs.StatementsSent
import SchemaMigration.Proofs.BufferedTransactions
import SchemaMigration.Proofs.LinkExchanges
import SchemaMigration.Proofs.TableLookup
import SchemaMigration.Proofs.ErrorReports
import SchemaMigration.Proofs.MonthlyPartitions
import SchemaMigration.Proofs.SourceNames
import SchemaMigration.Proofs.Rescanning
import SchemaMigration.Proofs.KeptInsertions
import SchemaMigration.Proofs.TransactionStreams
import SchemaMigration.Proofs.Placeholders
import SchemaMigration.Proofs.OutputFormat
import SchemaMigration.Proofs.GivenScripts
import SchemaMigration.Proofs.WrittenValues
import SchemaMigration.Proofs.ReturnedValues
import SchemaMigration.Proofs.IntegerReading
import SchemaMigration.Proofs.FileNames
import SchemaMigration.Proofs.TextOrder
import SchemaMigration.Proofs.CatalogFilling
import SchemaMigration.Proofs.RepeatedCalls
import SchemaMigration.Proofs.RefusedNames
import SchemaMigration.Proofs.ExceptionNotices
import SchemaMigration.Proofs.AnsweredTables
import SchemaMigration.Proofs.TimestampOrder
import SchemaMigration.Proofs.BoundedOperations
import SchemaMigration.Proofs.EndpointFailover
import SchemaMigration.Proofs.WordRuns
import SchemaMigration.Proofs.StatementWalks
