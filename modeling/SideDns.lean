import SideDns.Store.Concurrent
import SideDns.Store.Resolution
import SideDns.Store.Reload
import SideDns.Dns.Manager
import SideDns.Daemon.Turns
import SideDns.Daemon.Durability
import SideDns.Daemon.EventStream
import SideDns.Ipc.Server
import SideDns.Ipc.Delivery
import SideDns.Ipc.Registration
import SideDns.Cli.Run
import SideDns.Library.DomainName
import SideDns.Library.Pattern
import SideDns.Config
import SideDns.Dns.Configurator
import SideDns.Dns.MacOs
import SideDns.Dns.Coverage
import SideDns.Dns.Server
import SideDns.Dns.Reentry
import SideDns.Dns.Answering
import SideDns.Proxy.Server
import SideDns.Library.Json
import SideDns.Library.IpText
import SideDns.Address
import SideDns.Library.Lines
import SideDns.Library.Serde
import SideDns.Ipc.Wire
import SideDns.Lowercase
import SideDns.Store.Replacement
import SideDns.Ipc.Requests
import SideDns.Ipc.Views
import SideDns.Ipc.Normalized
import SideDns.Ipc.Removal
import SideDns.Dns.Forwarding
import SideDns.Grammar
import SideDns.Cli.Processes
import SideDns.Certs.Ca
import SideDns.Cli.Cleanup
import SideDns.Library.Multimap
import SideDns.Proxy.Headers
import SideDns.Library.FieldList
import SideDns.Proxy.Upgrade
import SideDns.Dns.Eviction
import SideDns.Daemon.Provenance
import SideDns.Library.JsonExtension
import SideDns.Ipc.Client
import SideDns.Ipc.Subscription
import SideDns.Ipc.EndToEnd
import SideDns.Daemon.Recovery
import SideDns.Dns.SystemConfig
import SideDns.Daemon.CertRestore
import SideDns.Daemon.Sequential
import SideDns.Proxy.Redirect
import SideDns.Ipc.Socket
import SideDns.Certs.Trust
import SideDns.Cli.Cert
import SideDns.Cli.Commands
import SideDns.Cli.Session
import SideDns.Daemon.Traffic
