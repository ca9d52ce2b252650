import PeerTrust.CommandLine.Places
import PeerTrust.Main
import PeerTrust.Proofs.CommandLine.Check
import PeerTrust.Proofs.Hostname.Pattern
import PeerTrust.Proofs.Net.Endpoint
import PeerTrust.Proofs.Settings.Stack
import PeerTrust.Proofs.Text.Rows
import PeerTrust.Proofs.Tls.Admission
import PeerTrust.Proofs.Tls.Hints
import PeerTrust.Proofs.Tls.Waits
import PeerTrust.Proofs.Trust.Commute
import PeerTrust.Proofs.Trust.Stopped
import PeerTrust.Proofs.Trust.Unlogged
import PeerTrust.Proofs.World.AnyOf
import PeerTrust.Proofs.World.Build
import PeerTrust.Proofs.World.Captures
import PeerTrust.Proofs.World.Flatten
import PeerTrust.Proofs.World.Issuers
import PeerTrust.Proofs.World.Logged
import PeerTrust.Proofs.World.Renewal
import PeerTrust.Proofs.World.Unlogged
import PeerTrust.Trust.Criterion
