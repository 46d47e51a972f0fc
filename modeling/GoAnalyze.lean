import GoAnalyze.Lib.JsonRead
import GoAnalyze.Lib.HashChain
import GoAnalyze.Lib.Runs
import GoAnalyze.Lib.ReadCommitted
import GoAnalyze.Lib.EventLoop
import GoAnalyze.Lib.Exclusive
import GoAnalyze.Lib.Turns
import GoAnalyze.Lib.Sql
import GoAnalyze.Lib.Paging
import GoAnalyze.Lib.Like
import GoAnalyze.Lib.WebUrl
import GoAnalyze.Lib.Markup
import GoAnalyze.Lib.HeaderField
import GoAnalyze.Lib.TwoRuns
import GoAnalyze.Lib.Fragments
import GoAnalyze.Lib.Zoom
import GoAnalyze.Lib.Base64
import GoAnalyze.Lib.UriComponent
import GoAnalyze.Lib.JsJson
import GoAnalyze.Lib.JsonExchange
import GoAnalyze.Spec.Models
import GoAnalyze.Spec.Audit
import GoAnalyze.Spec.AppendTransactions
import GoAnalyze.Spec.Migrations
import GoAnalyze.Spec.Engine
import GoAnalyze.Spec.Database
import GoAnalyze.Spec.Ingestion
import GoAnalyze.Spec.Search
import GoAnalyze.Spec.Handlers
import GoAnalyze.Spec.Streaming
import GoAnalyze.Proofs.EventHash
import GoAnalyze.Proofs.TamperEvidence
import GoAnalyze.Proofs.StoredEvents
import GoAnalyze.Proofs.ChainLinearity
import GoAnalyze.Proofs.ListingOrder
import GoAnalyze.Proofs.MigratedChains
import GoAnalyze.Proofs.Programs
import GoAnalyze.Proofs.TenantIsolation
import GoAnalyze.Proofs.IndexedSearch
import GoAnalyze.Proofs.Confidentiality
import GoAnalyze.Lib.Frame
import GoAnalyze.Lib.TextIndex
import GoAnalyze.Spec.OpenSearch
import GoAnalyze.Proofs.Downloads
import GoAnalyze.Spec.Midway
import GoAnalyze.Proofs.AllOrNothing
import GoAnalyze.Proofs.ColumnBounds
import GoAnalyze.Proofs.SearchOutages
import GoAnalyze.Spec.RateLimit
import GoAnalyze.Lib.FixedWindow
import GoAnalyze.Proofs.RateLimitBound
import GoAnalyze.Proofs.CounterExpiry
import GoAnalyze.Spec.SigningKeys
import GoAnalyze.Proofs.KeyStaleness
import GoAnalyze.Spec.SignIn
import GoAnalyze.Proofs.SignInRace
import GoAnalyze.Spec.BrowserAuth
import GoAnalyze.Proofs.BrowserSession
import GoAnalyze.Proofs.TokenRefresh
import GoAnalyze.Proofs.LoginRedemption
import GoAnalyze.Proofs.Citations
import GoAnalyze.Spec.AuditWalk
import GoAnalyze.Proofs.AuditPages
import GoAnalyze.Proofs.AuditWalk
import GoAnalyze.Proofs.UnlockedAppends
import GoAnalyze.Proofs.PipelineRuns
import GoAnalyze.Proofs.TokenErrors
import GoAnalyze.Spec.Middleware
import GoAnalyze.Proofs.SecurityHeaders
import GoAnalyze.Spec.Highlights
import GoAnalyze.Proofs.Highlights
import GoAnalyze.Spec.LoginRedirect
import GoAnalyze.Proofs.LoginRedirects
import GoAnalyze.Proofs.SearchPages
import GoAnalyze.Proofs.SubstringSearch
import GoAnalyze.Proofs.DispositionHeader
import GoAnalyze.Proofs.DownloadHeaders
import GoAnalyze.Proofs.ReviewMonotone
import GoAnalyze.Proofs.WorkflowRouting
import GoAnalyze.Spec.RiskDisplay
import GoAnalyze.Proofs.RiskDisplay
import GoAnalyze.Spec.ApiClient
import GoAnalyze.Proofs.ClientDownloads
import GoAnalyze.Spec.DataHooks
import GoAnalyze.Proofs.LatestRequest
import GoAnalyze.Spec.UploadForm
import GoAnalyze.Proofs.UploadProgress
import GoAnalyze.Spec.ClientSession
import GoAnalyze.Proofs.ClientSession
import GoAnalyze.Proofs.DetailPages
import GoAnalyze.Proofs.SessionCache
import GoAnalyze.Spec.Jwt
import GoAnalyze.Proofs.JwtRoundTrip
import GoAnalyze.Lib.Unwinding
import GoAnalyze.Spec.Ledger
import GoAnalyze.Proofs.Outcomes
import GoAnalyze.Proofs.Ledger
import GoAnalyze.Proofs.PurgedRuns
import GoAnalyze.Lib.AsyncTriples
import GoAnalyze.Spec.Authentication
import GoAnalyze.Proofs.RetryAfter
import GoAnalyze.Proofs.Authentication
import GoAnalyze.Lib.FormUrlencoded
import GoAnalyze.Spec.QueryParams
import GoAnalyze.Spec.JsonBodies
import GoAnalyze.Spec.LiveUpload
import GoAnalyze.Proofs.QueryParams
import GoAnalyze.Proofs.JsonBodies
import GoAnalyze.Proofs.LiveApi
import GoAnalyze.Proofs.LiveUpload
