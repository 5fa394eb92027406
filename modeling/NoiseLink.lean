import NoiseLink.Echo.Visit
import NoiseLink.Main
import NoiseLink.Probe.Transport
import NoiseLink.Scenario.Keys
import NoiseLink.Scenario.Run
import NoiseLink.Tcp.Run
import NoiseLink.Proofs.Cipher.Refusal
import NoiseLink.Proofs.Link.Lockstep
import NoiseLink.Proofs.Link.Truncation
import NoiseLink.Proofs.Link.Writing
import NoiseLink.Proofs.Receiver.Cancellation
import NoiseLink.Proofs.Receiver.Buffers
import NoiseLink.Proofs.Handshake.Completion
import NoiseLink.Proofs.Handshake.Anonymity
import NoiseLink.Proofs.Listener.Ports
import NoiseLink.Proofs.Listener.Isolation
import NoiseLink.Proofs.Handshake.Deadline
import NoiseLink.Proofs.Sender.Refusals
import NoiseLink.Proofs.Stream.Wakeups
import NoiseLink.Proofs.Echo.Exactness
import NoiseLink.Proofs.Handshake.InStep
import NoiseLink.Proofs.Handshake.KeyBytes
import NoiseLink.Proofs.Text.Layout
