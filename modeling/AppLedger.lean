import AppLedger.Client.Lifecycle
import AppLedger.Http.Config
import AppLedger.Http.Node
import AppLedger.Sample.Ledger
import AppLedger.Sample.Scripted
import AppLedger.Signer
import AppLedger.Transaction.Draft
import AppLedger.Transaction.Group
import AppLedger.Proofs.Abi.Layout
import AppLedger.Proofs.Text.Base32
import AppLedger.Proofs.Abi.AddressText
import AppLedger.Proofs.Abi.RoundTrip
import AppLedger.Proofs.Msgpack.Record
import AppLedger.Proofs.Msgpack.Field
import AppLedger.Proofs.Transaction.Normal
import AppLedger.Proofs.Transaction.Wire
import AppLedger.Proofs.Transaction.RoundTrip
import AppLedger.Proofs.Abi.Method
import AppLedger.Proofs.Client.References
import AppLedger.Proofs.Client.Argument
import AppLedger.Proofs.Client.ProgramPages
import AppLedger.Proofs.Transaction.Group
import AppLedger.Proofs.Ledger.GroupBinding
import AppLedger.Proofs.Transaction.SignedRoundTrip
import AppLedger.Proofs.Ledger.Decoded
import AppLedger.Proofs.Ledger.Call
import AppLedger.Proofs.Ledger.Evaluation
import AppLedger.Proofs.Ledger.Run
import AppLedger.Proofs.Ledger.Replay
import AppLedger.Proofs.AtomicGroup.Signing
import AppLedger.Proofs.AtomicGroup.Sending
import AppLedger.Proofs.Client.DefaultCalls
import AppLedger.Proofs.AtomicGroup.Run
import AppLedger.Proofs.Transaction.Canonical
import AppLedger.Proofs.Msgpack.Sizes
import AppLedger.Proofs.Transaction.Reencoding
import AppLedger.Proofs.Ledger.Schema
import AppLedger.Proofs.Ledger.Isolation
import AppLedger.Proofs.Ledger.Bookkeeping
import AppLedger.Proofs.Ledger.Independence
import AppLedger.Proofs.Ledger.Rekeying
import AppLedger.Proofs.Ledger.SignerAgreement
import AppLedger.Proofs.Ledger.Simulation
import AppLedger.Proofs.Ledger.ClearState
import AppLedger.Proofs.Ledger.Creation
import AppLedger.Proofs.Text.Decimal
import AppLedger.Proofs.Abi.TypeText
import AppLedger.Proofs.Abi.Signature
import AppLedger.Proofs.Client.MethodLookup
import AppLedger.Proofs.Client.Call
import AppLedger.Proofs.Client.LedgerRun
import AppLedger.Proofs.Client.Creation
import AppLedger.Proofs.Client.Deployment
import AppLedger.Proofs.AtomicGroup.Results
import AppLedger.Proofs.Client.ClearStateCalls
import AppLedger.Proofs.Client.Explanation
import AppLedger.Proofs.Client.CompiledOnce
import AppLedger.Proofs.Client.Registration
import AppLedger.Proofs.Abi.Typing
import AppLedger.Proofs.Abi.Tight
import AppLedger.Proofs.Abi.Limits
import AppLedger.Proofs.Abi.Spelling
import AppLedger.Proofs.Text.Base32Number
import AppLedger.Proofs.Address
import AppLedger.Proofs.Transaction.Fee
import AppLedger.Proofs.Client.Limits
import AppLedger.Proofs.AtomicGroup.Confirmation
import AppLedger.Proofs.AtomicGroup.Gathering
import AppLedger.Proofs.Client.CreationSize
import AppLedger.Proofs.Client.StructHint
import AppLedger.Proofs.Client.BuilderCalls
import AppLedger.Proofs.Http.GroupBody
import AppLedger.Proofs.LogicError.Listing
