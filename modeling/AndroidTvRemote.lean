import AndroidTvRemote.Runs
import AndroidTvRemote.SendQueue
import AndroidTvRemote.WireRoundTrip
import AndroidTvRemote.Generations
import AndroidTvRemote.StateMachine
import AndroidTvRemote.Outbox
import AndroidTvRemote.HandshakeFirst
import AndroidTvRemote.Availability
import AndroidTvRemote.Identity
import AndroidTvRemote.TimerWaits
import AndroidTvRemote.NewConnection
import AndroidTvRemote.Replies
import AndroidTvRemote.VoiceCallbacks
import AndroidTvRemote.PairingCalls
import AndroidTvRemote.VarintForm
import AndroidTvRemote.KeyNumbers
import AndroidTvRemote.LengthPrefix
import AndroidTvRemote.VoiceChunks
import AndroidTvRemote.TextCursor
import AndroidTvRemote.PairingCodes
import AndroidTvRemote.PairingHandshake
import AndroidTvRemote.CertificateFiles
import AndroidTvRemote.Backoff
import AndroidTvRemote.Deeds
import AndroidTvRemote.Reconnect
import AndroidTvRemote.IdleTimer
import AndroidTvRemote.DeviceIdentity
import AndroidTvRemote.Lifecycle
import AndroidTvRemote.BoundedWaits
import AndroidTvRemote.Delivery
import AndroidTvRemote.Recovery
import AndroidTvRemote.Requests
import AndroidTvRemote.Shutdown
import AndroidTvRemote.Api
import AndroidTvRemote.PairingFlow
import AndroidTvRemote.Telling
import AndroidTvRemote.Sizes
import AndroidTvRemote.Streams
