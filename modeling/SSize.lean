import SSize.Catalog.Between
import SSize.Catalog.Forward
import SSize.Catalog.History
import SSize.Catalog.Indexes
import SSize.Catalog.Item
import SSize.Catalog.Load
import SSize.Catalog.Published
import SSize.Catalog.Query
import SSize.Catalog.Refresh
import SSize.Catalog.Snapshot
import SSize.Catalog.Tables
import SSize.Catalog.WriteBack
import SSize.Config
import SSize.ConfigFile
import SSize.Db.Conversions
import SSize.Db.Metrics
import SSize.Db.Recount
import SSize.Db.Rollup
import SSize.Db.Stats
import SSize.Deploy.Proxy
import SSize.EventHistory
import SSize.Events
import SSize.Handlers.Amount
import SSize.Handlers.Cookies
import SSize.Handlers.Dispatch
import SSize.Handlers.Effects
import SSize.Handlers.FeedCache
import SSize.Handlers.Files
import SSize.Handlers.Numbers
import SSize.Handlers.Pages
import SSize.Handlers.Postback
import SSize.Handlers.Query
import SSize.Handlers.QueryString
import SSize.Handlers.Request
import SSize.Handlers.Rubles
import SSize.Handlers.Strtod
import SSize.Http
import SSize.IpHash
import SSize.Json
import SSize.Lib.Attach
import SSize.Lib.Binary64
import SSize.Lib.Collected
import SSize.Lib.Forward
import SSize.Lib.Framing
import SSize.Lib.Groups
import SSize.Lib.Handoff
import SSize.Lib.Hundredths
import SSize.Lib.Leases
import SSize.Lib.Markup
import SSize.Lib.PositionIndex
import SSize.Lib.References
import SSize.Lib.Replace
import SSize.Lib.Revalidated
import SSize.Lib.Rounds
import SSize.Lib.Runs
import SSize.Lib.Separated
import SSize.Lib.Tables
import SSize.Lib.Thinning
import SSize.Lib.Timers
import SSize.Lib.TopList
import SSize.Lib.Unwinding
import SSize.Links
import SSize.Migrations.Apply
import SSize.Migrations.Concurrent
import SSize.Migrations.Discover
import SSize.Migrations.Order
import SSize.Migrations.Resume
import SSize.Models
import SSize.Placeholders
import SSize.Retention.Archive
import SSize.Retention.Counters
import SSize.Retention.Coverage
import SSize.Retention.Runs
import SSize.Revenue.Attribution
import SSize.Revenue.Deliveries
import SSize.Revenue.LastWins
import SSize.Revenue.Retries
import SSize.Revenue.Runs
import SSize.Server.Beacons
import SSize.Server.Browser
import SSize.Server.Calm
import SSize.Server.Chips
import SSize.Server.ClickCount
import SSize.Server.Clicks
import SSize.Server.Connection
import SSize.Server.Faceless
import SSize.Server.Funnel
import SSize.Server.Headers
import SSize.Server.ImpressionCount
import SSize.Server.Listing
import SSize.Server.Positions
import SSize.Server.Provenance
import SSize.Server.Redirects
import SSize.Server.Revalidation
import SSize.Server.Run
import SSize.Server.Sessions
import SSize.Server.Sources
import SSize.Server.TopItems
import SSize.Server.WithoutBots
import SSize.Site.Clock
import SSize.Site.Earnings
import SSize.Site.Fresh
import SSize.Site.Latency
import SSize.Site.Moves
import SSize.Site.Process
import SSize.Site.Snapshots
import SSize.Site.Timetable
import SSize.Static.App
import SSize.Static.Impressions
import SSize.Static.Views
import SSize.Templates.Feed
import SSize.Templates.Item
import SSize.Templates.SearchText
import SSize.Text
import SSize.Worker.ClickOrder
import SSize.Worker.ConversionFlush
import SSize.Worker.EventFlush
import SSize.Worker.Faceless
import SSize.Worker.Flow
import SSize.Worker.Ledger
import SSize.Worker.Maintenance
import SSize.Worker.Moves
import SSize.Worker.Pipeline
import SSize.Worker.Rounds
import SSize.Worker.Shutdown
import SSize.Worker.Thinned
