import Tuic.Proofs.Network
import Tuic.Proofs.Lossless
import Tuic.Proofs.Truncation
import Tuic.Proofs.Provenance
import Tuic.Proofs.Reassembly
import Tuic.Proofs.Datagram
import Tuic.Proofs.Dissociated
import Tuic.Proofs.UdpSession
import Tuic.Proofs.Authorisation
import Tuic.Proofs.Kick
import Tuic.Proofs.Limit
import Tuic.Proofs.Authenticated
import Tuic.Proofs.Counter
import Tuic.Proofs.Exchange
import Tuic.Proofs.Socks5
import Tuic.Proofs.Associate
import Tuic.Proofs.Delimited
import Tuic.Proofs.AsyncUnmarshal
import Tuic.Proofs.Count
import Tuic.Proofs.Native
import Tuic.Proofs.QuicRelay
import Tuic.Proofs.Rejected
import Tuic.Proofs.Totals
import Tuic.Proofs.Traffic
import Tuic.Proofs.Owners
import Tuic.Proofs.RelayMode
import Tuic.Proofs.Partition
import Tuic.Proofs.Exporter
import Tuic.Proofs.Socks5Session
import Tuic.Proofs.StreamLimit
import Tuic.Proofs.Idle
import Tuic.Proofs.ExchangeCount
import Tuic.Proofs.Link
import Tuic.Proofs.Complete
import Tuic.Proofs.GetConn
import Tuic.Proofs.Tunnel
import Tuic.Proofs.TcpRelay
import Tuic.Proofs.Background
import Tuic.Proofs.AcceptLoop
import Tuic.Proofs.Tls
import Tuic.Proofs.Accounting
import Tuic.Proofs.Drains
