import ModelRelay.Chat.Builder
import ModelRelay.Main
import ModelRelay.Proofs.Chat.Counting
import ModelRelay.Proofs.Chat.Settling
import ModelRelay.Proofs.Chat.Splitting
import ModelRelay.Proofs.Claude.Agreement
import ModelRelay.Proofs.Claude.Bill
import ModelRelay.Proofs.Claude.Conversation
import ModelRelay.Proofs.Claude.Translation
import ModelRelay.Proofs.Claude.Verbatim
import ModelRelay.Proofs.Config.Acceptance
import ModelRelay.Proofs.Config.Advertised
import ModelRelay.Proofs.Config.Keys
import ModelRelay.Proofs.Delivery.Alike
import ModelRelay.Proofs.Delivery.Interleaving
import ModelRelay.Proofs.Delivery.Reading
import ModelRelay.Proofs.Http.Discretion
import ModelRelay.Proofs.Http.Envelope
import ModelRelay.Proofs.OpenAi.Completion
import ModelRelay.Proofs.OpenAi.Conversion
import ModelRelay.Proofs.Provider.Forwarding
import ModelRelay.Proofs.Relay.Billing
import ModelRelay.Proofs.Relay.Blame
import ModelRelay.Proofs.Relay.Callers
import ModelRelay.Proofs.Relay.Deadline
import ModelRelay.Proofs.Relay.Failures
import ModelRelay.Proofs.Relay.Prepared
import ModelRelay.Proofs.Relay.Shared
import ModelRelay.Proofs.Sse.Notices
