import Kohaku.Sql.Table
import Kohaku.Lts.Exec
import Kohaku.Base64.UrlSafe
import Kohaku.Keys
import Kohaku.Auth.Base32
import Kohaku.Auth.Totp
import Kohaku.Db
import Kohaku.Mail.Message
import Kohaku.Mail.Outbox
import Kohaku.Auth.Mail
import Kohaku.Auth.Password
import Kohaku.Auth.Session
import Kohaku.Auth.Recovery
import Kohaku.Auth.Credentials
import Kohaku.Auth.Reset
import Kohaku.Admin.Account
import Kohaku.Admin.Reset
import Kohaku.Jobs
import Kohaku.Server
import Kohaku.Server.Effect
import Kohaku.Server.Steps
import Kohaku.Server.Tables
import Kohaku.SignIn.PasswordEpoch
import Kohaku.Lockout.Counters
import Kohaku.SignIn.Lockout
import Kohaku.SignIn.KnownDevice
import Kohaku.SignIn.LockColumns
import Kohaku.SignIn.Strangers
import Kohaku.Reset.Tokens
import Kohaku.Reset.StaysUsable
import Kohaku.Reset.SingleUse
import Kohaku.SignIn.OwnSession
import Kohaku.TwoFactor.Factors
import Kohaku.TwoFactor.NoReplay
import Kohaku.TwoFactor.Sessions
import Kohaku.TwoFactor.RecoveryCodes
import Kohaku.SignIn.LockoutMail
import Kohaku.Limits.Rate
import Kohaku.Limits.Calls
import Kohaku.Limits.Window
import Kohaku.Limits.MailBudget
import Kohaku.Limits.Reference
import Kohaku.Limits.Flood
import Kohaku.Limits.Checked
import Kohaku.Limits.PublicMail
import Kohaku.Outbox.Rows
import Kohaku.Outbox.Lifecycle
import Kohaku.Config
import Kohaku.Projects.Fields
import Kohaku.Projects.Store
import Kohaku.Routing.Hosts
import Kohaku.Routing.Published
import Kohaku.Routing.Agree
import Kohaku.Routing.MainHost
import Kohaku.Backup.Restore
import Kohaku.Backup.ToFile
import Kohaku.Sql.Top
import Kohaku.SignIn.Devices
import Kohaku.Migrate.Prepare
import Kohaku.Migrate.Resume
import Kohaku.Migrate.Copies
import Kohaku.Bits.Block
import Kohaku.Network.Proxies
import Kohaku.Network.ClientIp
import Kohaku.Outbox.Schedule
import Kohaku.Projects.Concurrent
import Kohaku.SignIn.Lifetime
import Kohaku.SignIn.Retention
import Kohaku.Sql.Glob
import Kohaku.Audit.Identifiers
import Kohaku.Projects.Schema
import Kohaku.Projects.Resubmit
import Kohaku.Mail.Quoted
import Kohaku.Config.BaseUrl
import Kohaku.Routing.HostMatch
import Kohaku.Routing.TlsAsk
import Kohaku.Auth.Cookies
import Kohaku.Calendar.Gregorian
import Kohaku.Time.UtcMinute
import Kohaku.Config.Load
import Kohaku.Encoding.Framed
import Kohaku.Bits.Groups
import Kohaku.Keys.Inputs
import Kohaku.Auth.Rfc4648
import Kohaku.Auth.KeyUri
import Kohaku.Auth.RecoveryInput
import Kohaku.Pool.Ledger
import Kohaku.Db.Readers
import Kohaku.Ask.Program
import Kohaku.Limits.Permits
import Kohaku.Http.Layers
import Kohaku.Routing.Build
import Kohaku.Routing.Responses
import Kohaku.Routing.SignedOut
