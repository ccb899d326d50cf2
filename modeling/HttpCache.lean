import HttpCache.Proofs.Canonical
import HttpCache.Proofs.Entry.BodyText
import HttpCache.Proofs.Entry.ByName
import HttpCache.Proofs.Entry.Delivery
import HttpCache.Proofs.Entry.Expiration
import HttpCache.Proofs.Entry.Merging
import HttpCache.Proofs.Join
import HttpCache.Proofs.Key
import HttpCache.Proofs.Layer.Bypass
import HttpCache.Proofs.Layer.Commutation
import HttpCache.Proofs.Layer.Configured
import HttpCache.Proofs.Layer.Provenance
import HttpCache.Proofs.Layer.Renewal
import HttpCache.Proofs.Layer.Repeat
import HttpCache.Proofs.Layer.Torn
import HttpCache.Proofs.Message.Multimap
import HttpCache.Proofs.Message.Problem
import HttpCache.Proofs.Message.Wire
import HttpCache.Proofs.Nesting
import HttpCache.Proofs.Server.Limit
import HttpCache.Proofs.Server.Progress
import HttpCache.Proofs.Sink.Delivery
import HttpCache.Proofs.Sink.Withholding
import HttpCache.Proofs.Store.Isolation
import HttpCache.Proofs.Store.Retention
import HttpCache.Server.Listening
import HttpCache.Store.Inert
