import MokuroBunko.Sched.RateSoundness
import MokuroBunko.Server.ShapeSecrecy
import MokuroBunko.Server.Blame
import MokuroBunko.Dav.HistoryRuns
import MokuroBunko.Library.CatalogPasses
import MokuroBunko.Library.IndexCache
import MokuroBunko.Library.SidecarOwnership
import MokuroBunko.Library.PageMatching
import MokuroBunko.Db.LastAdmin
import MokuroBunko.Db.TokenRuns
import MokuroBunko.Auth.LoginCacheRuns
import MokuroBunko.Http.LimiterRuns
import MokuroBunko.Config.GenerationList
import MokuroBunko.Control.PauseRuns
import MokuroBunko.Processor.PauseWatch
import MokuroBunko.Processor.Delivery
import MokuroBunko.Server.BenchRuns
import MokuroBunko.Dav.WriteRaceRuns
import MokuroBunko.Server.BenchSettles
import MokuroBunko.Dav.ResourceKeys
import MokuroBunko.Sched.Deadlines
import MokuroBunko.Sched.QueueOrder
import MokuroBunko.Sched.FinishDecision
import MokuroBunko.Sched.PlanSoundness
import MokuroBunko.Library.RegenPasses
import MokuroBunko.Server.UpdateAttempts
import MokuroBunko.Dav.LockCoverage
import MokuroBunko.Sched.CostLine
import MokuroBunko.Sched.CoveredSeconds
import MokuroBunko.Server.DownloadHistory
import MokuroBunko.Dav.ByteRanges
import MokuroBunko.Dav.Preconditions
import MokuroBunko.Sched.TimestampGrammar
import MokuroBunko.Layout.MergeComponents
import MokuroBunko.Dav.ArchiveVerify
import MokuroBunko.Layout.RubyBoxes
import MokuroBunko.Library.ZipMembers
import MokuroBunko.Layout.SidecarIdentity
import MokuroBunko.Layout.SettledDisputes
import MokuroBunko.Layout.MergedReadings
import MokuroBunko.Server.UpdateRetries
import MokuroBunko.Server.ReleaseOffers
import MokuroBunko.Processor.VolumeSeconds
import MokuroBunko.Dav.PropPatch
import MokuroBunko.Processor.Diagnosis
import MokuroBunko.Library.OneSpelling
import MokuroBunko.Db.AuditPages
import MokuroBunko.Processor.ActivityClaims
import MokuroBunko.Dav.Announcements
import MokuroBunko.Layout.DecimalRounding
import MokuroBunko.Sched.NaturalOrder
import MokuroBunko.Library.PageKey
import MokuroBunko.Library.CommunityRuns
import MokuroBunko.Processor.WidthSearch
import MokuroBunko.Library.SidecarSweep
import MokuroBunko.Dav.IfHeader
import MokuroBunko.Ocr.ChooseCut
