import LiveTree.Proofs.Arguments
import LiveTree.Proofs.Arrival
import LiveTree.Proofs.Attachment
import LiveTree.Proofs.AttributeIndex
import LiveTree.Proofs.Attributes
import LiveTree.Proofs.Cascade
import LiveTree.Proofs.Cascade.Recursion
import LiveTree.Proofs.Decoding
import LiveTree.Proofs.Deferral
import LiveTree.Proofs.Delivery
import LiveTree.Proofs.Dispatch
import LiveTree.Proofs.Display
import LiveTree.Proofs.Document.Traversal
import LiveTree.Proofs.Escalation
import LiveTree.Proofs.Extension
import LiveTree.Proofs.Grammar
import LiveTree.Proofs.Grammar.Signature
import LiveTree.Proofs.Guards
import LiveTree.Proofs.Inheritance
import LiveTree.Proofs.Interpolation
import LiveTree.Proofs.Light
import LiveTree.Proofs.Listening
import LiveTree.Proofs.Loading
import LiveTree.Proofs.Mirror
import LiveTree.Proofs.Naming
import LiveTree.Proofs.News
import LiveTree.Proofs.Numeral
import LiveTree.Proofs.Ownership
import LiveTree.Proofs.Paths
import LiveTree.Proofs.Projection
import LiveTree.Proofs.Readiness
import LiveTree.Proofs.Refresh
import LiveTree.Proofs.RoundTrip
import LiveTree.Proofs.RoundTrip.Template
import LiveTree.Proofs.Strays
import LiveTree.Proofs.Subscription
import LiveTree.Proofs.Typing
import LiveTree.Proofs.Unbinding
import LiveTree.Proofs.Upgrade
import LiveTree.Script
