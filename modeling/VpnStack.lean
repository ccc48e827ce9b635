import VpnStack.Lib.Prog
import VpnStack.Lib.Script
import VpnStack.Lib.Text
import VpnStack.Lib.Fallible
import VpnStack.Lib.Json
import VpnStack.Lib.JsonReader
import VpnStack.Lib.PyJson
import VpnStack.Lib.Python
import VpnStack.Basic
import VpnStack.Users
import VpnStack.Protocols.Basic
import VpnStack.Protocols.Ikev2
import VpnStack.Theorems.Ikev2Env
import VpnStack.Protocols.Dnstt
import VpnStack.Protocols.VlessReality
import VpnStack.Protocols.Hysteria2
import VpnStack.Protocols
import VpnStack.DnsttSshd
import VpnStack.Docker
import VpnStack.Ikev2Ctl
import VpnStack.World
import VpnStack.Composectl
import VpnStack.Apply
import VpnStack.Commands
import VpnStack.Effects
import VpnStack.Theorems.DnsttLogins
import VpnStack.Theorems.Converge
import VpnStack.Theorems.Inputs
import VpnStack.Theorems.Pending
import VpnStack.Theorems.Promote
import VpnStack.Theorems.Revocation
import VpnStack.Theorems.Settings
import VpnStack.Theorems.Access
import VpnStack.Lib.Transition
import VpnStack.Lib.Flock
import VpnStack.Locking
import VpnStack.Theorems.Locks
import VpnStack.Firewall
import VpnStack.Theorems.Lockout
import VpnStack.Deadman
import VpnStack.Theorems.Disarm
import VpnStack.Lib.Base64
import VpnStack.Bootstrap
import VpnStack.Theorems.Keyring
import VpnStack.Tunnel.Controller
import VpnStack.Theorems.Disconnect
import VpnStack.Theorems.Connect
import VpnStack.Share
import VpnStack.ShareUri
import VpnStack.Theorems.SplitShareUri
import VpnStack.Theorems.ShareLinks
import VpnStack.Theorems.ChangedServices
import VpnStack.Theorems.Teardown
import VpnStack.Theorems.Toggle
import VpnStack.Theorems.Reconcile
import VpnStack.Lib.Dict
import VpnStack.Ufw
import VpnStack.Theorems.Ufw
import VpnStack.Control.Json
import VpnStack.Payload
import VpnStack.Control.Models
import VpnStack.Control.Errors
import VpnStack.Theorems.Receipts
import VpnStack.Dotenv
import VpnStack.Theorems.Interpolation
import VpnStack.Export
import VpnStack.Theorems.Preference
import VpnStack.Lib.Posix
import VpnStack.Lib.Template
import VpnStack.Control.Shell
import VpnStack.Theorems.Quoting
import VpnStack.Provision.Commands
import VpnStack.Theorems.Filling
import VpnStack.Lib.Optimistic
import VpnStack.Lib.JsonPrefix
import VpnStack.Lib.DartJson
import VpnStack.Servers
import VpnStack.Theorems.Servers
import VpnStack.HostKeys
import VpnStack.Theorems.HostKeys
import VpnStack.Theorems.Ownership
import VpnStack.Session
import VpnStack.Theorems.Connections
import VpnStack.Theorems.Bundles
import VpnStack.Theorems.LinkGrammar
import VpnStack.Theorems.Shapes
import VpnStack.Lib.Ipv4
import VpnStack.Ikev2Pool
import VpnStack.Theorems.PoolNetwork
import VpnStack.Forwarding
import VpnStack.Theorems.Forwarding
import VpnStack.SharePage
import VpnStack.Theorems.SharePage
import VpnStack.ShareBind
import VpnStack.Theorems.ShareBind
import VpnStack.Lib.Lines
import VpnStack.Listeners
import VpnStack.Theorems.Listeners
import VpnStack.Provision.Preflight
import VpnStack.Theorems.Preflight
import VpnStack.Stores
import VpnStack.Theorems.Stores
import VpnStack.Backup
import VpnStack.Theorems.Backup
import VpnStack.Lib.DartDate
import VpnStack.Lib.JsonEncode
import VpnStack.Theorems.ServerStore
import VpnStack.Smoke
import VpnStack.Theorems.Smoke
import VpnStack.Theorems.Mounts
import VpnStack.Tunnel.Service
import VpnStack.Theorems.Published
import VpnStack.Theorems.Forgotten
import VpnStack.Tunnel.System
import VpnStack.Theorems.Starts
import VpnStack.Theorems.Stamped
import VpnStack.Theorems.StartRequest
import VpnStack.Theorems.Retention
