import SmartDns.Api.AddressEdits
import SmartDns.Api.AuthThrottle
import SmartDns.Api.ServeDns
import SmartDns.Api.TrustedProxy
import SmartDns.App.Overtaking
import SmartDns.App.Reload
import SmartDns.Cache.Flight
import SmartDns.Cache.GetExpired
import SmartDns.Cache.NotifyAfter
import SmartDns.Cache.Paging
import SmartDns.Cache.Persist
import SmartDns.Cache.Retention
import SmartDns.Cache.Uptime
import SmartDns.Cache.WaitHint
import SmartDns.Config.Exchange
import SmartDns.Config.IncludeScope
import SmartDns.Config.Inherit
import SmartDns.Config.IpSetFile
import SmartDns.Config.LastWins
import SmartDns.Config.Parity
import SmartDns.Config.ProxyCredentials
import SmartDns.Config.SetRules
import SmartDns.Config.Unopened
import SmartDns.Config.WorkingDir
import SmartDns.Ffi.Interval
import SmartDns.Ffi.WellFormed
import SmartDns.Log.LogQueue
import SmartDns.Log.Rotation
import SmartDns.Rule.AddressRound
import SmartDns.Rule.Complete
import SmartDns.Rule.MapCalls
import SmartDns.Server.AlignedTtl
import SmartDns.Server.Dns64
import SmartDns.Server.DualStack
import SmartDns.Server.Echo
import SmartDns.Server.FailedLookup
import SmartDns.Server.FamiliesApart
import SmartDns.Server.Flatten
import SmartDns.Server.Leases
import SmartDns.Server.Limit
import SmartDns.Server.LostRequest
import SmartDns.Server.PrivateZones
import SmartDns.Server.Projection
import SmartDns.Server.QueryLimit
import SmartDns.Server.Refresh
import SmartDns.Server.Reply
import SmartDns.Server.SwitchedGroup
import SmartDns.Server.UdpLimit
import SmartDns.Upstream.Fallback
import SmartDns.Upstream.Fold
import SmartDns.Upstream.Narrowing
import SmartDns.Upstream.Socks5
import SmartDns.Upstream.Strategy
import SmartDns.Upstream.TierPing
import SmartDns.Upstream.UdpClient
import SmartDns.Upstream.UrlRound
import SmartDns.Wire.Accepted
import SmartDns.Wire.TcpStream
