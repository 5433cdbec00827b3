import Finverse.Framework.Program
import Finverse.Framework.Crash
import Finverse.Framework.Pool
import Finverse.Framework.Solo
import Finverse.Framework.OrderedMap
import Finverse.Framework.Table
import Finverse.Framework.Column
import Finverse.Auth.Types
import Finverse.Auth.Domain
import Finverse.Auth.Stores
import Finverse.Auth.Ports
import Finverse.Auth.Service
import Finverse.Auth.Effects
import Finverse.Auth.SessionFamilies
import Finverse.Auth.RefreshRotation
import Finverse.Auth.LogoutRace
import Finverse.Auth.SecondFactor
import Finverse.Auth.SignIns
import Finverse.Auth.Lockout
import Finverse.Ledger.Types
import Finverse.Ledger.MemoryStore
import Finverse.Ledger.PostgresStore
import Finverse.Ledger.ImportCommit
import Finverse.Ledger.Resync
import Finverse.Ledger.SyncBatch
import Finverse.Framework.Delta
import Finverse.Banking.Sync
import Finverse.Banking.Convergence
import Finverse.Banking.SyncRuns
import Finverse.Banking.WebhookDelivery
import Finverse.Banking.Webhooks
import Finverse.Http
import Finverse.Split.Domain
import Finverse.Split.MemoryStore
import Finverse.Split.Service
import Finverse.Split.Balances
import Finverse.Billing.Service
import Finverse.Billing.Redelivery
import Finverse.Statements.Types
import Finverse.Statements.MemoryStore
import Finverse.Statements.PostgresStore
import Finverse.Statements.Ports
import Finverse.Statements.Service
import Finverse.Statements.SplitMerge
import Finverse.Statements.Approval
import Finverse.Statements.ApprovalRace
import Finverse.Statements.Effects
import Finverse.Statements.Lifecycle
import Finverse.Statements.SourceRetention
import Finverse.Framework.Ranking
import Finverse.Categorization.Normalize
import Finverse.Categorization.Categorize
import Finverse.Categorization.Corrections
import Finverse.Categorization.RuleApply
import Finverse.Categorization.RuleStores
import Finverse.Categorization.RuleRuns
import Finverse.Categorization.RuleUndo
import Finverse.Imports.CsvParse
import Finverse.Imports.TransactionsCsv
import Finverse.Imports.CsvRoundTrip
import Finverse.Imports.Mapping
import Finverse.Imports.Review
import Finverse.Imports.Service
import Finverse.Imports.Runs
import Finverse.Imports.Undo
import Finverse.Imports.Reimport
import Finverse.Framework.History
import Finverse.Auth.Footprints
import Finverse.Auth.MfaSteps
import Finverse.Auth.EnrolmentRace
import Finverse.Auth.CodeReplay
import Finverse.Auth.ChallengeGuesses
import Finverse.Auth.PasswordReset
import Finverse.Auth.ResetRuns
import Finverse.Mobile.SessionStore
import Finverse.Mobile.SignedOut
import Finverse.Webauthn.CredentialStores
import Finverse.Webauthn.UniqueCredentials
import Finverse.Webauthn.Ports
import Finverse.Webauthn.Service
import Finverse.Webauthn.Ceremonies
import Finverse.Webauthn.PasskeyRuns
import Finverse.Auth.GuessBound
import Finverse.Billing.Plans
import Finverse.Banking.Links
import Finverse.Banking.LinkCap
import Finverse.Billing.PlanRuns
import Finverse.Billing.Handlers
import Finverse.Billing.Converge
import Finverse.Insights.Dates
import Finverse.Insights.Subscriptions
import Finverse.Insights.Forecast
import Finverse.Insights.CurrencyIsolation
import Finverse.Analytics.Ports
import Finverse.Analytics.Service
import Finverse.Analytics.Effects
import Finverse.Analytics.Coherence
import Finverse.Workbook.ZipBudget
import Finverse.Money.Units
import Finverse.Money.Rates
import Finverse.Banking.PlaidAmounts
import Finverse.Imports.DateOrder
import Finverse.Imports.AmountForms
import Finverse.Framework.Pattern
import Finverse.Statements.Drafts
import Finverse.Statements.CardRows
import Finverse.Statements.CardPeriods
import Finverse.Statements.TextRows
import Finverse.Imports.CsvRecords
import Finverse.Workbook.Grid
import Finverse.Workbook.Xml
import Finverse.Workbook.SharedStrings
import Finverse.Framework.Alignment
import Finverse.Workbook.Elements
import Finverse.Workbook.Cells
import Finverse.Workbook.Worksheets
import Finverse.Framework.Writes
import Finverse.Workbook.Placement
import Finverse.Framework.Matching
import Finverse.Transactions.Transfers
import Finverse.Transactions.Refunds
import Finverse.Categorization.RulePreview
import Finverse.Categorization.Spread
import Finverse.Imports.SourceLines
import Finverse.Framework.Like
import Finverse.Ledger.Query
import Finverse.Ledger.Search
import Finverse.Framework.Paging
import Finverse.Ledger.Pages
import Finverse.Categorization.Learner
import Finverse.Ledger.NaturalSearch
import Finverse.Ledger.TransactionsEndpoint
import Finverse.Framework.Steps
import Finverse.Statements.RowReview
import Finverse.Statements.ReviewRuns
import Finverse.Framework.Netting
import Finverse.Split.SettleUp
import Finverse.Split.FewestPayments
import Finverse.Split.EqualSplits
import Finverse.Money.Totals
import Finverse.Insights.DateSteps
import Finverse.Scheduled.IsoDates
import Finverse.Scheduled.Schedule
import Finverse.Scheduled.Anchored
import Finverse.Scheduled.Upcoming
import Finverse.Scheduled.Next
import Finverse.Scheduled.Service
import Finverse.Scheduled.StoredSchedules
import Finverse.Scheduled.CommittedOutflow
import Finverse.Insights.Projection
import Finverse.Framework.Fuel
import Finverse.Insights.IncomeMonths
import Finverse.Insights.ForecastTexts
import Finverse.Insights.Conservation
import Finverse.Insights.PriceSteps
import Finverse.Framework.Tally
import Finverse.Insights.Categories
import Finverse.Insights.Periods
import Finverse.Insights.Evidence
import Finverse.Insights.Analytics
import Finverse.Insights.Buckets
import Finverse.Insights.Trend
import Finverse.Insights.Reconciles
import Finverse.Reconciliation.Restricted
import Finverse.Framework.Doubles
import Finverse.Framework.Bytes
import Finverse.Webauthn.Cbor
import Finverse.Webauthn.CborItems
import Finverse.Webauthn.CborReading
import Finverse.Webauthn.CborSoundness
import Finverse.Framework.Base64
import Finverse.Webauthn.CborCompleteness
import Finverse.Webauthn.Attestation
import Finverse.Webauthn.Spki
import Finverse.Webauthn.AttestationObjects
import Finverse.Money.Allocate
import Finverse.Framework.BitQueue
import Finverse.Auth.Base32
import Finverse.Webauthn.CborJournal
import Finverse.Webauthn.CborLimits
import Finverse.Framework.Windows
import Finverse.RateLimits.Storage
import Finverse.RateLimits.Cleanup
import Finverse.RateLimits.Bound
import Finverse.Categorization.Blanks
import Finverse.Categorization.Idempotence
import Finverse.Receipts.Parse
import Finverse.Receipts.Amounts
import Finverse.Receipts.Totals
import Finverse.Analytics.Corrections
import Finverse.Mobile.OfflineQueue
import Finverse.Notifications.FinancialAlerts
import Finverse.Notifications.Service
import Finverse.Postgres.Migrations
import Finverse.Ledger.SavedViews
import Finverse.Split.Membership
