import MintSale.Allowlist
import MintSale.Calldata
import MintSale.Host
import MintSale.Proofs.Allowlist.Forgery
import MintSale.Proofs.Allowlist.Tree
import MintSale.Proofs.Calldata
import MintSale.Proofs.Calldata.Reading
import MintSale.Proofs.Calldata.Signatures
import MintSale.Proofs.Checkout.Approval
import MintSale.Proofs.Checkout.Buying
import MintSale.Proofs.Checkout.Deeds
import MintSale.Proofs.Checkout.Failing
import MintSale.Proofs.Checkout.Fairness
import MintSale.Proofs.Checkout.Faults
import MintSale.Proofs.Checkout.Holding
import MintSale.Proofs.Checkout.Listing
import MintSale.Proofs.Checkout.Meaning
import MintSale.Proofs.Checkout.Reporting
import MintSale.Proofs.Checkout.Resetting
import MintSale.Proofs.Checkout.Scenes
import MintSale.Proofs.Checkout.Sending
import MintSale.Proofs.Checkout.Serving
import MintSale.Proofs.Checkout.Spending
import MintSale.Proofs.Checkout.States
import MintSale.Proofs.Checkout.Submission
import MintSale.Proofs.Collaborator.Candor
import MintSale.Proofs.Collaborator.Conduct
import MintSale.Proofs.Collaborator.Groups
import MintSale.Proofs.Collaborator.Hearing
import MintSale.Proofs.Collaborator.Replies
import MintSale.Proofs.Format.Checkout
import MintSale.Proofs.Format.Sale
import MintSale.Proofs.History
import MintSale.Proofs.Host
import MintSale.Proofs.Json.Codec
import MintSale.Proofs.Json.Text
import MintSale.Proofs.Keccak
import MintSale.Proofs.Ledger
import MintSale.Proofs.Ledger.Log
import MintSale.Proofs.LiveFeed
import MintSale.Proofs.LiveFeed.Rounds
import MintSale.Proofs.Minter
import MintSale.Proofs.Notices
import MintSale.Proofs.ReturnData
import MintSale.Proofs.Sale.Calling
import MintSale.Proofs.Sale.Chronicle
import MintSale.Proofs.Sale.Clearance
import MintSale.Proofs.Sale.Delivery
import MintSale.Proofs.Sale.Director
import MintSale.Proofs.Sale.Failures
import MintSale.Proofs.Sale.Files
import MintSale.Proofs.Sale.FirstCause
import MintSale.Proofs.Sale.Floor
import MintSale.Proofs.Sale.Identity
import MintSale.Proofs.Sale.Landing
import MintSale.Proofs.Sale.Metadata
import MintSale.Proofs.Sale.Mirror
import MintSale.Proofs.Sale.Phases
import MintSale.Proofs.Sale.Readings
import MintSale.Proofs.Sale.Record
import MintSale.Proofs.Sale.Report
import MintSale.Proofs.Sale.Rest
import MintSale.Proofs.Sale.Restoring
import MintSale.Proofs.Sale.Settling
import MintSale.Proofs.Sale.Showing
import MintSale.Proofs.Sale.Silence
import MintSale.Proofs.Sale.Staff
import MintSale.Proofs.Sale.Tracking
import MintSale.Proofs.Sale.Truth
import MintSale.Proofs.Sale.Wallets
import MintSale.Proofs.Spellings
import MintSale.Proofs.Text.Digits
import MintSale.Proofs.Text.Hex
import MintSale.Proofs.Timestamp.Text
import MintSale.Proofs.WatchDesk
import MintSale.Proofs.WatchDesk.Blocks
import MintSale.Proofs.Wire.Decoding
import MintSale.Proofs.Wire.Posting
import MintSale.Proofs.Wire.Projects
import MintSale.Proofs.Wire.Quantities
import MintSale.Proofs.Wire.Receipts
import MintSale.Proofs.Wire.Replies
import MintSale.Proofs.Wire.Retrying
import MintSale.Rehearsal.Following
import MintSale.Rehearsal.Journal
import MintSale.Rehearsal.Scenario
import MintSale.ReturnData
import MintSale.Sale.Floor
import MintSale.Sale.Restoring
import MintSale.Settings
import MintSale.Wire.Clients
