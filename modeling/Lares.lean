import Lares.Framework.System
import Lares.Budget.SpendingCap
import Lares.Budget.Settlement
import Lares.Budget.Dispatch
import Lares.Gateway.StreamGrammar
import Lares.Gateway.WireEvidence
import Lares.SourceTransaction.Outcome
import Lares.Journal.Fold
import Lares.Framework.Pages
import Lares.Framework.PrefixCode
import Lares.Journal.Committed
import Lares.Journal.FullCheck
import Lares.Journal.NightlySafety
import Lares.Journal.LineSafety
import Lares.Journal.TamperEvidence
import Lares.Approvals.PersonalActionSafety
import Lares.Approvals.ExactCardSafety
import Lares.Proactivity.GateSafety
import Lares.Telegram.Rotation
import Lares.Meetings.FollowupSafety
import Lares.Tracks.HomeSafety
import Lares.Dream.CycleSafety
import Lares.Migrations.RunnerSafety
import Lares.Keeper.VaultBrokerSafety
import Lares.Budget.Pricing
import Lares.Journal.WindowTotals
import Lares.Gateway.WireAgreement
import Lares.Proactivity.WallClock
import Lares.VaultFormat.OriginExact
import Lares.Notion.AppliedUpdate
import Lares.Notion.CollisionLookup
import Lares.Notion.LinkResolver
import Lares.Notion.PushSafety
import Lares.Notion.RejectionSafety
import Lares.Notion.InlineRoundTrip
import Lares.Notion.PullFences
import Lares.Reading.BoundedText
import Lares.Deadlines.NextDue
import Lares.Proactivity.Recurrence
import Lares.Facts.CorrectionTruth
import Lares.VaultFormat.ForgetLedger
import Lares.Keeper.EgressMeaning
import Lares.Calendar.DoubleBooked
import Lares.Budget.OwnerJobs
import Lares.Conversations.RetentionSafety
import Lares.RefreshLock.SingleFlight
import Lares.Atlas.FrontmatterEdits
import Lares.Notes.HiddenNotes
import Lares.Approvals.FingerprintBinding
import Lares.Obligations.PipelineSafety
import Lares.OriginTaint.TurnTaintSafety
import Lares.Approvals.ApprovedCallSafety
import Lares.Keeper.ModelPurposeSafety
