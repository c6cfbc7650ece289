import ConquerD.Client.ChatStore
import ConquerD.Client.DecodeSlate
import ConquerD.Client.FrameGeometry
import ConquerD.Client.Nv12
import ConquerD.Client.Verify.BulkOrder
import ConquerD.Client.Verify.DeltaTiling
import ConquerD.Client.Verify.Departure
import ConquerD.Client.Verify.FileBounds
import ConquerD.Client.Verify.FreshEpochs
import ConquerD.Client.Verify.InviteTrust
import ConquerD.Client.Verify.JitterBuffer
import ConquerD.Client.Verify.OwnSessions
import ConquerD.Client.Verify.PeerRecords
import ConquerD.Client.Verify.ReceivedNames
import ConquerD.Client.Verify.RelayPrivacy
import ConquerD.Client.Verify.Replay
import ConquerD.Client.Verify.Respelling
import ConquerD.Client.Verify.RoomInvites
import ConquerD.Client.Verify.RoomScopes
import ConquerD.Client.Verify.SpaceRoots
import ConquerD.Client.Verify.StableKeyer
import ConquerD.Client.Verify.StreamOrder
import ConquerD.Client.Verify.VideoDelivery
import ConquerD.Client.Verify.VideoPlayout
import ConquerD.Client.Verify.VideoRoundTrip
import ConquerD.Client.VoicePlayout
import ConquerD.Features.TrustedKeys
import ConquerD.Features.Verify.ChannelTags
import ConquerD.Features.Verify.OwnRates
import ConquerD.Installer.Verify.Extract
import ConquerD.Installer.Verify.IntactInstall
import ConquerD.Interop.CertNames
import ConquerD.Manager.Shell
import ConquerD.Manager.Verify.FirewallEdits
import ConquerD.Manager.Verify.HostKeys
import ConquerD.Manager.Verify.Ports
import ConquerD.Supernode.EndpointMailbox
import ConquerD.Supernode.HolePunch
import ConquerD.Supernode.Verify.ActiveSpeakers
import ConquerD.Supernode.Verify.ClusterRoster
import ConquerD.Supernode.Verify.FanOut
import ConquerD.Supernode.Verify.FileQuota
import ConquerD.Supernode.Verify.GameSessions
import ConquerD.Supernode.Verify.IdleRooms
import ConquerD.Supernode.Verify.Intakes
import ConquerD.Supernode.Verify.InviteBudgets
import ConquerD.Supernode.Verify.LinkRegistry
import ConquerD.Supernode.Verify.PeerSpelling
import ConquerD.Supernode.Verify.PeerTrust
import ConquerD.Supernode.Verify.QuotaWindows
import ConquerD.Supernode.Verify.RelayIndices
import ConquerD.Supernode.Verify.RoomCreate
import ConquerD.Supernode.Verify.SpaceAdmission
import ConquerD.Supernode.Verify.SpaceGossip
import ConquerD.Supernode.Verify.Spelling
import ConquerD.Supernode.Verify.TargetResolution
import ConquerD.Supernode.Verify.TokenAdmission
import ConquerD.Supernode.Verify.VideoWishes
import ConquerD.Transport.KeyPossession
