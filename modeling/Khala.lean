import Khala.Agent.FrameLaws
import Khala.Agent.FrameDrain
import Khala.Agent.Delivery
import Khala.Agent.CursorHistory
import Khala.Agent.ModeConvergence
import Khala.Agent.ModeAuthority
import Khala.Agent.FoldedState
import Khala.Agent.MigrationSafety
import Khala.Agent.WakeLock
import Khala.Agent.HistoryPaging
import Khala.Agent.WakeAccounting
import Khala.Agent.WakeBudget
import Khala.Agent.LinkTokens
import Khala.Agent.NamesApart
import Khala.Control.DefiniteOutcomes
import Khala.Control.OneWrite
import Khala.Control.OneOwner
import Khala.Control.MembershipLease
import Khala.Control.ShareOnce
import Khala.Control.LinkRuns
import Khala.Contracts.Coordination
import Khala.Contracts.ImportedHistory
import Khala.Contracts.NameHistory
import Khala.Contracts.ImageMetadata
import Khala.Messaging.OneRoom
import Khala.Agent.AnnouncedOnce
import Khala.Contracts.NoneDropped
import Khala.Contracts.CodecLaws
import Khala.Contracts.FreshNames
import Khala.Web.ChannelColors
import Khala.Messaging.ContextPages
import Khala.Messaging.TimelineRuns
import Khala.Web.LiveOrder
import Khala.Web.OwnerEditRuns
import Khala.Contracts.ImageContent
import Khala.Contracts.Base64Url
import Khala.OpenCode.KeptFrames
import Khala.Contracts.BoundArchive
import Khala.Mcp.Clients
import Khala.OpenCode.FailedPrompts
import Khala.Agent.KeptEvents
import Khala.Agent.LocalLog
import Khala.Js.Native
import Khala.Agent.DurableLog
