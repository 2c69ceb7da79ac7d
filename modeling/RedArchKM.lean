import RedArchKM.Access.FolderPropagation
import RedArchKM.Access.DimensionCreation
import RedArchKM.Workflow.RunVariables
import RedArchKM.Workflow.Absorption
import RedArchKM.Workflow.InclusiveJoin
import RedArchKM.Workflow.Components
import RedArchKM.Workflow.RunHistory
import RedArchKM.Workflow.RetryBudget
import RedArchKM.Workflow.NormalizedGraphs
import RedArchKM.Workflow.EventRuns
import RedArchKM.Agents.Reviewers
import RedArchKM.Agents.ReviewRounds
import RedArchKM.Ingest.Entitlements
import RedArchKM.Ingest.LatestContent
import RedArchKM.Promotion.Fingerprints
import RedArchKM.Promotion.SkipImport
import RedArchKM.Graph.SharedTriplets
import RedArchKM.Search.SearchBoundary
import RedArchKM.Facts.Reingest
import RedArchKM.Facts.Provenance
import RedArchKM.Facts.AgentBoundary
import RedArchKM.Facts.Communities
import RedArchKM.Access.ConcurrentMoves
import RedArchKM.Text.PagedRead
import RedArchKM.Text.WordChunker
import RedArchKM.Text.StitchedChunks
import RedArchKM.Text.SpokenSummary
import RedArchKM.Promotion.RelinkedRecords
import RedArchKM.Designer.StoreRuns
import RedArchKM.Workflow.Schedules
import RedArchKM.Forms.LinkUse
import RedArchKM.Agents.Decisions
import RedArchKM.Agents.StalledOrders
import RedArchKM.Forms.PageReads
import RedArchKM.Forms.PublicPage
import RedArchKM.Promotion.Promotions
import RedArchKM.Knowledge.AllOrNothing
import RedArchKM.Access.MaskCodec
import RedArchKM.Access.BulkVisibility
import RedArchKM.Access.FolderPaths
import RedArchKM.Forms.MonthArithmetic
import RedArchKM.Workflow.DecisionTables
