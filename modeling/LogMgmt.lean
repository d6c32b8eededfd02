import LogMgmt.Lib.Prog
import LogMgmt.Lib.RowOrder
import LogMgmt.Lib.Pages
import LogMgmt.Lib.Detector
import LogMgmt.Lib.Spacing
import LogMgmt.Lib.Calendar
import LogMgmt.Lib.Interleave
import LogMgmt.Lib.UrlEncoded
import LogMgmt.Pool
import LogMgmt.Storage
import LogMgmt.Paging
import LogMgmt.Columns
import LogMgmt.TimeRanges
import LogMgmt.AlertRules
import LogMgmt.RuleStore
import LogMgmt.AlertsPage
import LogMgmt.Detection
import LogMgmt.OneEvaluation
import LogMgmt.Commits
import LogMgmt.FailedLogins
import LogMgmt.Webhooks
import LogMgmt.Precreation
import LogMgmt.Retention
import LogMgmt.Routing
import LogMgmt.Noninterference
import LogMgmt.Authority
import LogMgmt.Outages
import LogMgmt.Isolation
import LogMgmt.SyslogServer
import LogMgmt.Classification
import LogMgmt.Rollover
import LogMgmt.Rfc3339
import LogMgmt.TcpFraming
import LogMgmt.BatchLoader
import LogMgmt.RenderedLines
import LogMgmt.Preservation
import LogMgmt.ReadEndpoints
import LogMgmt.Transports
import LogMgmt.Rebasing
import LogMgmt.SearchPage
import LogMgmt.AuthContext
import LogMgmt.DashboardPage
import LogMgmt.Evidence
import LogMgmt.LoginBursts
import LogMgmt.Accounts
import LogMgmt.Stats
import LogMgmt.Completion
import LogMgmt.Atomicity
import LogMgmt.FlatTable
import LogMgmt.QueryString
import LogMgmt.Browsing
import LogMgmt.OneTenant
import LogMgmt.Views
import LogMgmt.WriterLoop
import LogMgmt.AlertsList
