import ListQuery.Endpoint
import ListQuery.Rows.PageWindow
import ListQuery.Schema.Document
import ListQuery.Proofs.CompileOutcome
import ListQuery.Proofs.ProjectionNodes
import ListQuery.Proofs.SharedContext
import ListQuery.Proofs.CollectedRows
import ListQuery.Proofs.BucketPartition
import ListQuery.Proofs.FilterGroups
import ListQuery.Proofs.FilterAccount
import ListQuery.Proofs.NearestQuotient
import ListQuery.Proofs.SoundParameters
import ListQuery.Proofs.PageWindows
import ListQuery.Proofs.LoadedRegistry
import ListQuery.Proofs.DocumentFaults
import ListQuery.Proofs.RequestOutcome
import ListQuery.Proofs.SortGate
import ListQuery.Proofs.WhereClauses
import ListQuery.Proofs.ConditionDecoding
import ListQuery.Proofs.DayNumbers
import ListQuery.Proofs.TimestampOutcome
import ListQuery.Proofs.SharedBuckets
import ListQuery.Proofs.WrittenScalars
import ListQuery.Proofs.CanonicalReading
import ListQuery.Proofs.WrittenBuckets
import ListQuery.Proofs.Catalogue
import ListQuery.Proofs.FilterSpelling
import ListQuery.Proofs.RequestFaults
import ListQuery.Proofs.LoadedRequests
import ListQuery.Proofs.JsonGrammar
import ListQuery.Proofs.JsonAcceptance
import ListQuery.Proofs.LineEnds
import ListQuery.Proofs.FileOutcome
import ListQuery.Proofs.WrittenSelections
import ListQuery.Proofs.WrittenDates
import ListQuery.Proofs.WrittenTimestamps
import ListQuery.Proofs.ZoneDesignators
import ListQuery.Proofs.DecimalRounding
import ListQuery.Proofs.NumberTexts
import ListQuery.Proofs.NumberPrefixes
import ListQuery.Proofs.LeadingIntegers
import ListQuery.Proofs.CloseMatches
import ListQuery.Proofs.CompositeLayers
import ListQuery.Proofs.SettledParameters
import ListQuery.Proofs.Suggestions
import ListQuery.Proofs.RowPaths
import ListQuery.Proofs.SplitRoutes
import ListQuery.Proofs.JsonNesting
import ListQuery.Proofs.ParameterProblems
