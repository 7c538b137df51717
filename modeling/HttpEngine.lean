import HttpEngine.Message.Delivery
import HttpEngine.Message.Reception
import HttpEngine.Serving.Bench
import HttpEngine.Serving.Config.Load
import HttpEngine.Serving.Handshake
import HttpEngine.Serving.Setup
import HttpEngine.Handling.Stock
import HttpEngine.Proofs.Handling.Compression
import HttpEngine.Proofs.Handling.CookieLife
import HttpEngine.Proofs.Handling.CookieReturn
import HttpEngine.Proofs.Handling.EmptyBodies
import HttpEngine.Proofs.Handling.Negotiation
import HttpEngine.Proofs.Handling.Nesting
import HttpEngine.Proofs.Message.Cookies
import HttpEngine.Proofs.Message.Head
import HttpEngine.Proofs.Message.HeaderLists
import HttpEngine.Proofs.Message.Parsing
import HttpEngine.Proofs.Message.Paths
import HttpEngine.Proofs.Message.Limit
import HttpEngine.Proofs.Message.Lookup
import HttpEngine.Proofs.Message.Overriding
import HttpEngine.Proofs.Message.Payload
import HttpEngine.Proofs.Message.Reads
import HttpEngine.Proofs.Message.Reply
import HttpEngine.Proofs.Message.RoundTrip
import HttpEngine.Proofs.Message.SharedVerbs
import HttpEngine.Proofs.Message.UriData
import HttpEngine.Proofs.Message.Views
import HttpEngine.Proofs.Serving.Awaiting
import HttpEngine.Proofs.Serving.FailedStart
import HttpEngine.Proofs.Serving.LifeCycle
import HttpEngine.Proofs.Serving.Neighbours
import HttpEngine.Proofs.Serving.Registry
import HttpEngine.Proofs.Serving.Sizes
import HttpEngine.Proofs.Transport.Calls
import HttpEngine.Proofs.Transport.Accounting
import HttpEngine.Proofs.Transport.Covered
import HttpEngine.Proofs.Transport.Deferring
import HttpEngine.Proofs.Transport.Retries
import HttpEngine.Proofs.Transport.InRange
