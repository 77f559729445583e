import Rustodon.Schemes.FixedWindow
import Rustodon.RateLimit.Local
import Rustodon.RateLimit.Budget
import Rustodon.RateLimit.Shared
import Rustodon.Html.Math
import Rustodon.RateLimit.Agreement
import Rustodon.Inbox.Activity
import Rustodon.Inbox.TypeArrays
import Rustodon.Schemes.Base64
import Rustodon.Signatures.Http
import Rustodon.Signatures.Soundness
import Rustodon.Signatures.RoundTrip
import Rustodon.Queue.Spec
import Rustodon.Schemes.Runs
import Rustodon.Queue.Rows
import Rustodon.Queue.Machine
import Rustodon.Queue.Steps
import Rustodon.Queue.Fencing
import Rustodon.Queue.Ordering
import Rustodon.Queue.Events
import Rustodon.Queue.Outbox
import Rustodon.Queue.Delivery
import Rustodon.Schemes.Cursors
import Rustodon.Streaming.Routes
import Rustodon.Streaming.Socket
import Rustodon.Streaming.Handoff
import Rustodon.Inbox.Authority
import Rustodon.Schemes.FirstWins
import Rustodon.Streaming.Staging
import Rustodon.Streaming.Flush
import Rustodon.Schemes.Pages
import Rustodon.Worker.PollExpiration
import Rustodon.Worker.Reconciliation
import Rustodon.Web.RackParameters
import Rustodon.Schemes.Bytes
import Rustodon.Web.MultipartRoundTrip
import Rustodon.Web.RackQuery
import Rustodon.Web.RackShape
import Rustodon.Web.RackRoundTrip
import Rustodon.Html.Local
import Rustodon.Schemes.Markup
import Rustodon.Html.LocalParts
import Rustodon.Html.Paragraphs
import Rustodon.Html.LocalSafety
import Rustodon.Media.Paperclip
import Rustodon.Media.PaperclipRoundTrip
import Rustodon.Activity.Membership
import Rustodon.Worker.UpdateVersions
import Rustodon.Activity.Exactness
import Rustodon.Remote.Url
import Rustodon.Remote.CanonicalDomain
import Rustodon.Remote.Budget
import Rustodon.Remote.BudgetCap
import Rustodon.Remote.Addresses
import Rustodon.Remote.Transport
import Rustodon.Remote.Confinement
import Rustodon.Remote.Actors
import Rustodon.Remote.Resolver
import Rustodon.Remote.KeyOwnership
import Rustodon.Schemes.Reclaim
import Rustodon.Worker.ProfileMedia
import Rustodon.Worker.ProfileCache
import Rustodon.Schemes.Jsonb
import Rustodon.Streaming.ReplayQuery
import Rustodon.Streaming.ReplayRoutes
import Rustodon.Schemes.JsonMaps
import Rustodon.Crypto.Envelope
import Rustodon.Crypto.EnvelopeFields
import Rustodon.Crypto.EnvelopeRoundTrip
import Rustodon.Ingest.Accounts
import Rustodon.Ingest.Suspension
import Rustodon.Ingest.Notes
import Rustodon.Schemes.Climb
import Rustodon.Ingest.Threads
import Rustodon.Relationships.Rows
import Rustodon.Relationships.Operations
import Rustodon.Relationships.Relations
import Rustodon.Relationships.Refinement
import Rustodon.Relationships.Machine
import Rustodon.Polls.Remote
import Rustodon.Polls.RemoteRuns
import Rustodon.Html.StatusText
import Rustodon.Html.Handles
import Rustodon.Html.Recognisers
import Rustodon.Html.Agreement
import Rustodon.Queue.Frames
import Rustodon.Polls.Distribution
import Rustodon.Polls.DistributionRuns
import Rustodon.Polls.NoLostUpdate
import Rustodon.Schemes.Counts
import Rustodon.Polls.UpdateEntries
import Rustodon.Polls.LocalTallies
import Rustodon.Polls.VoteFrames
import Rustodon.Polls.VoteInvariants
import Rustodon.Polls.VoteExactness
import Rustodon.Moderation.DomainPolicy
import Rustodon.Moderation.DomainBlocks
import Rustodon.Moderation.PolicyCoherence
import Rustodon.Moderation.DomainLocks
import Rustodon.Moderation.RestrictionOwnership
import Rustodon.Notifications.Operations
import Rustodon.Notifications.RequestCounts
import Rustodon.Statuses.Creation
import Rustodon.Statuses.Idempotency
import Rustodon.Statuses.IdempotentCreation
import Rustodon.Statuses.IdempotentRetry
import Rustodon.Conversations.Rows
import Rustodon.Schemes.Versions
import Rustodon.Conversations.Machine
import Rustodon.Conversations.Invariant
import Rustodon.Conversations.Steps
import Rustodon.Conversations.Index
import Rustodon.OAuth.Checks
import Rustodon.Schemes.Locks
import Rustodon.OAuth.Machine
import Rustodon.OAuth.Changes
import Rustodon.OAuth.Fence
import Rustodon.OAuth.Codes
import Rustodon.Schemes.FirstSeen
import Rustodon.Emoji.Shortcodes
import Rustodon.FeaturedTags.Exactness
import Rustodon.Outgoing.Line
import Rustodon.Outgoing.Agreement
import Rustodon.Ingest.References
import Rustodon.Ingest.ReferenceIntegrity
import Rustodon.Schemes.Windows
import Rustodon.Timelines.Access
import Rustodon.Timelines.Queries
import Rustodon.Timelines.Feeds
import Rustodon.Timelines.Disclosure
import Rustodon.Schemes.Groups
import Rustodon.Timelines.Snapshots
import Rustodon.Timelines.RouteAgreement
import Rustodon.Timelines.HomeStream
import Rustodon.Timelines.HomeAgreement
import Rustodon.Timelines.Library
import Rustodon.Schemes.Recursion
import Rustodon.Schemes.Trails
import Rustodon.Timelines.Context
import Rustodon.Web.RackNames
import Rustodon.Federation.Archive
import Rustodon.Federation.Parameters
import Rustodon.Schemes.Walks
import Rustodon.Federation.Documents
import Rustodon.Federation.Endpoints
import Rustodon.Federation.RepliesWalk
import Rustodon.Federation.Disclosure
import Rustodon.Schemes.Passing
import Rustodon.Html.InvalidAnchors
