import AppLedger.Effect
import AppLedger.Node.Error
import AppLedger.State
import AppLedger.Transaction.Signed

/-! A node of the network: what it reports, and the operations that it offers to a client. -/

namespace AppLedger

/-- What the network suggests for new transactions. The fee is a price for each byte. -/
structure NetworkParams where
  fee : UInt64
  minFee : UInt64
  lastRound : UInt64
  genesisId : String
  genesisHash : Digest
  consensusVersion : String
  deriving DecidableEq

def localGenesisIds : List String :=
  ["devnet-v1", "sandnet-v1", "dockernet-v1"]

/-- Whether the name of a genesis block is that of a local network. -/
def isLocalGenesis (id : String) : Bool :=
  localGenesisIds.contains id

def NetworkParams.feeParams (p : NetworkParams) : FeeParams :=
  { feePerByte := p.fee, minFee := p.minFee }

/-- What a node knows about a transaction that was sent to it. The error of the pool is not empty
once the pool has dropped the transaction. -/
structure Confirmation where
  round : Option Nat := none
  poolError : String := ""
  createdApp : Option UInt64 := none
  logs : List Bytes := []
  deriving DecidableEq

structure ApplicationInfo where
  app : UInt64
  creator : Address
  approval : Bytes
  clear : Bytes
  globalSchema : StateSchema
  localSchema : StateSchema
  extraPages : UInt64
  globalState : AppState
  deriving DecidableEq

/-- The account that signs is given where it is another one. -/
structure AccountInfo where
  address : Address
  balance : Nat
  authAddress : Option Address
  optedIn : Nat
  created : Nat
  round : Nat
  deriving DecidableEq

/-- What a group would have done. -/
structure Simulation where
  lastRound : Nat
  failure : Option String
  results : List Confirmation
  deriving DecidableEq

/-- The operations of a node that is a part of the world `σ`. -/
structure Node (σ : Type) where
  params : Effect NodeError σ NetworkParams
  /-- Sends a group and yields the identity of its first transaction. -/
  submit : List SignedTransaction → Effect NodeError σ String
  pending : (id : String) → Effect NodeError σ Confirmation
  /-- The last round that the node has seen. -/
  lastRound : Effect NodeError σ Nat
  waitForBlock : (round : Nat) → Effect NodeError σ Nat
  application : (app : UInt64) → Effect NodeError σ ApplicationInfo
  account : Address → Effect NodeError σ AccountInfo
  /-- The local state of an account in an application. -/
  accountState : Address → (app : UInt64) → Effect NodeError σ AppState
  simulate : List SignedTransaction → Effect NodeError σ Simulation

/-- The node as a part of a larger world. -/
def Node.lift {σ τ : Type} (node : Node σ)
    (f : ∀ {α : Type}, Effect NodeError σ α → Effect NodeError τ α) : Node τ where
  params := f node.params
  submit group := f (node.submit group)
  pending id := f (node.pending id)
  lastRound := f node.lastRound
  waitForBlock round := f (node.waitForBlock round)
  application app := f (node.application app)
  account address := f (node.account address)
  accountState address app := f (node.accountState address app)
  simulate group := f (node.simulate group)

end AppLedger
