import Wallow.Bff.LogoutRace
import Wallow.Bff.RefreshRace
import Wallow.Bff.RotatedCookie
import Wallow.Identity.SignInPaths
import Wallow.Identity.MfaRuns
import Wallow.Bff.CookieHistory
import Wallow.Identity.InvitationRace
import Wallow.Identity.BackupCodes
import Wallow.Identity.Sessions
import Wallow.Api.PresenceHistory
import Wallow.Api.RealtimeHub
import Wallow.Bff.TrustedRanges
import Wallow.Bff.Redaction
import Wallow.Bff.UpstreamTarget
import Wallow.Bff.FreshSession
import Wallow.Telemetry.SourceMapText
import Wallow.Telemetry.Provisioned
import Wallow.Bff.ServiceReplays
import Wallow.Api.SseStream
import Wallow.Bff.NamespaceClaims
import Wallow.Identity.LockoutRace
import Wallow.Identity.LockoutBackoff
import Wallow.Identity.ClientLockout
import Wallow.Identity.PasswordlessRace
import Wallow.Identity.PasswordlessSpellings
import Wallow.Identity.ConsentTokens
import Wallow.Identity.SingleLogoutRuns
import Wallow.Identity.DeactivationRace
import Wallow.ApiKeys.KeyCap
import Wallow.ApiKeys.RevocationRace
import Wallow.Storage.SweptObjects
import Wallow.Storage.Quota
import Wallow.Shared.SchemaAcceptance
import Wallow.Shared.MessageTenants
import Wallow.Notifications.WebPushRace
import Wallow.Notifications.RetryEmails
import Wallow.Logger.Buffer
import Wallow.Telemetry.ClientLifecycle
import Wallow.Branding.LogoRace
import Wallow.Identity.AccessRevoker
import Wallow.Identity.Base32
import Wallow.Identity.RoleHistories
import Wallow.Identity.RedirectOrigins
import Wallow.Notifications.PushDeliveries
import Wallow.Identity.UsageBuffer
import Wallow.Storage.AdmittedNames
import Wallow.Storage.PartialReads
import Wallow.Storage.BaseDirectories
import Wallow.Notifications.EmailTemplates
import Wallow.Shared.SettingsFailures
import Wallow.ApiKeys.CreationFailures
import Wallow.Identity.ConsentRequests
import Wallow.Shared.PrivateTargets
import Wallow.Telemetry.Propagation
import Wallow.Telemetry.ExporterRuns
import Wallow.Telemetry.QueueAccounts
import Wallow.Telemetry.ForwardedIdentity
import Wallow.Telemetry.SanitizedPasses
import Wallow.Identity.Slugs
import Wallow.Bff.CookieLocks
import Wallow.Publication.PackageOrder
import Wallow.Logger.RateLimit
import Wallow.Publication.ChangedPaths
import Wallow.Publication.AliasRuns
import Wallow.Logger.Otlp
import Wallow.Publication.Site
import Wallow.Bff.Logins
