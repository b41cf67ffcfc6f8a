import Nufw.Lib.Memory
import Nufw.Lib.Wire
import Nufw.Lib.Reader
import Nufw.Lib.EarlyExit
import Nufw.Lib.Transition
import Nufw.Lib.Table
import Nufw.Lib.LinkedList
import Nufw.Lib.SearchTree
import Nufw.Lib.SearchFilter
import Nufw.Nubase.PacketParser
import Nufw.Nubase.ExtHeaders
import Nufw.Nubase.Strings
import Nufw.Nubase.ConfigTable
import Nufw.Nubase.Inet
import Nufw.Nuauth.Connections
import Nufw.Nuauth.Period
import Nufw.Nuauth.PeriodEnds
import Nufw.Nuauth.PeriodItems
import Nufw.Nuauth.TakeDecision
import Nufw.Nuauth.Verdict
import Nufw.Nuauth.PrioToNok
import Nufw.Nuauth.PrioToOk
import Nufw.Nuauth.ForeignAcl
import Nufw.Nuauth.LogAttributes
import Nufw.Nuauth.NufwServers
import Nufw.Nuauth.SendAuthResponse
import Nufw.Nuauth.AuthHash
import Nufw.Nuauth.Core
import Nufw.Nuauth.CoreInv
import Nufw.Nuauth.Accounting
import Nufw.Nuauth.Routing
import Nufw.Nuauth.SessionUsage
import Nufw.Nuauth.ServersConnected
import Nufw.Nuauth.PcktAuthsrv
import Nufw.Nuauth.Datagrams
import Nufw.Nuauth.UserAuthsrv
import Nufw.Nuauth.UserProgress
import Nufw.Nuauth.UserGrammar
import Nufw.Nuauth.ClientMngr
import Nufw.Nuauth.ClientTables
import Nufw.Nuauth.TlsUser
import Nufw.Nuauth.ClientSchedule
import Nufw.Nuauth.ClientMessages
import Nufw.Nuauth.TlsSasl
import Nufw.Nuauth.LoginLimits
import Nufw.Nuauth.ProtoVersions
import Nufw.Nuauth.Acls
import Nufw.Nuauth.ArrivalOrder
import Nufw.Nuauth.Identity
import Nufw.Nuauth.Arrivals
import Nufw.Nuauth.Halves
import Nufw.Nuauth.TlsNufw
import Nufw.Nuauth.RequestReads
import Nufw.Nuauth.LocalidAuth
import Nufw.Nuauth.HelloRequests
import Nufw.Nuauth.HelloFrame
import Nufw.Nuauth.Cache
import Nufw.Nuauth.CacheRun
import Nufw.Nuauth.AclCache
import Nufw.Nuauth.CacheUsage
import Nufw.Nuauth.CacheSafety
import Nufw.Nuauth.CacheLeak
import Nufw.Nuauth.AclKeys
import Nufw.Nuauth.Plaintext
import Nufw.Nuauth.Ldap
import Nufw.Nuauth.LdapQuery
import Nufw.Nuauth.AclFile
import Nufw.Nuauth.PortLists
import Nufw.Nuauth.CidrLists
import Nufw.Nuauth.AclSections
import Nufw.Nuauth.AclRestrictions
import Nufw.Nuauth.AclCheck
import Nufw.Nuauth.MissingAttributes
import Nufw.Nuauth.Lookups
import Nufw.Nuauth.Transparency
import Nufw.Nuauth.CommandEnc
import Nufw.Nuauth.Command
import Nufw.Nufw.Common
import Nufw.Nufw.Packetsrv
import Nufw.Nufw.Requests
import Nufw.Nufw.Classification
import Nufw.Nufw.Authsrv
import Nufw.Nufw.Answers
import Nufw.Nufw.Framing
import Nufw.Nufw.Decisions
import Nufw.Nufw.PacketsList
import Nufw.Nufw.Verdicts
import Nufw.Clients.Sending
import Nufw.Clients.Announcements
import Nufw.NuauthCommand.CommandDec
import Nufw.NuauthCommand.ValueCodec
import Nufw.NuauthCommand.Listings
import Nufw.NuauthCommand.Answers
import Nufw.Emc.Directory
import Nufw.Emc.Networks
import Nufw.Lib.WhileLoop
import Nufw.Nuauth.ExpiredClients
import Nufw.Nuauth.PushDelay
import Nufw.Nuauth.MarkModules
import Nufw.Nuauth.GroupFile
import Nufw.Nuauth.LdapRetry
import Nufw.Nubase.Decimal
import Nufw.Lib.Buckets
import Nufw.Nuauth.LdapNumbers
import Nufw.Clients.TcpTable
import Nufw.Nuauth.PasswordCheck
import Nufw.Nuauth.ClientInfo
import Nufw.Nuauth.ProtoNegotiation
import Nufw.Lib.Sentinel
import Nufw.Nuauth.ServerLists
import Nufw.Nuauth.CapaSlots
import Nufw.Nubase.Conversions
import Nufw.Nufw.PacketTimeout
import Nufw.Lib.InternetChecksum
import Nufw.Nufw.IcmpChecksum
import Nufw.Nuauth.AddrPort
import Nufw.Lib.Writes
import Nufw.Nuauth.UlogdRequest
import Nufw.Lib.Substrings
import Nufw.Clients.Capabilities
import Nufw.Nubase.Scanf
import Nufw.Clients.ProcTable
import Nufw.Nubase.ExtProto
import Nufw.Nuauth.ExtMessages
import Nufw.Lib.Escaping
import Nufw.Nubase.ConfLexer
import Nufw.Lib.Script
import Nufw.Clients.FinishInit
import Nufw.Nuauth.FinishNego
import Nufw.Handshake
import Nufw.Firewall
import Nufw.Nussl.Transfer
import Nufw.Nussl.Base64
import Nufw.Nuauth.UserFile
import Nufw.Nuauth.Authenticated
