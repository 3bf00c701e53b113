import Cdns.Lib.Buffer
import Cdns.Lib.CoverSet
import Cdns.Lib.Unordered
import Cdns.Exn
import Cdns.Str
import Cdns.Filter
import Cdns.FilterSpec
import Cdns.FilterMerge
import Cdns.FilterMatch
import Cdns.Query
import Cdns.QuerySpec
import Cdns.Cache
import Cdns.Lib.Keyed
import Cdns.CacheSpec
import Cdns.Sodium
import Cdns.Encryptor
import Cdns.RoundTrip
import Cdns.Certificate
import Cdns.Connection
import Cdns.Address
import Cdns.Answer
import Cdns.AnswerSpec
import Cdns.Responder
import Cdns.ResponderSpec
import Cdns.Upstream
import Cdns.UpstreamSpec
import Cdns.Confidential
import Cdns.Hostname
import Cdns.Builder
import Cdns.HostsAnswer
import Cdns.Lib.Endian
import Cdns.CacheFile
import Cdns.CacheServe
import Cdns.Passing
import Cdns.Failure
import Cdns.Routing
import Cdns.Config
import Cdns.Reload
import Cdns.AddressText
import Cdns.Certifier
import Cdns.FilterText
import Cdns.Lifetime
import Cdns.Requests
import Cdns.WireName
import Cdns.Lib.Greatest
import Cdns.Lib.Split
import Cdns.CertificateChoice
import Cdns.Providers
import Cdns.ResolverList
import Cdns.Csv
import Cdns.ResolverFile
import Cdns.Padding
import Cdns.AddressForms
import Cdns.ResolvConf
import Cdns.HostsFile
import Cdns.Rewrite
import Cdns.Lib.Machine
import Cdns.Daemon
import Cdns.DaemonSpec
import Cdns.DaemonLife
import Cdns.ProcessCases
import Cdns.DaemonLoss
import Cdns.Backlog
import Cdns.DaemonAnswers
import Cdns.Trust
import Cdns.Exchange
import Cdns.Handshake
import Cdns.Start
import Cdns.Restart
import Cdns.Session
import Cdns.Options
import Cdns.Settings
import Cdns.Steady
