import AppLedger.AtomicGroup.Member
import AppLedger.Client.Error
import AppLedger.Transaction.Group

/-! Groups under way: transactions are added, bound together, signed and sent. -/

namespace AppLedger

inductive GroupStatus
  | building
  | built
  | signed
  | submitted
  | committed
  deriving DecidableEq

namespace GroupStatus

def rank : GroupStatus → Nat
  | .building => 0
  | .built => 1
  | .signed => 2
  | .submitted => 3
  | .committed => 4

def text : GroupStatus → String
  | .building => "Building"
  | .built => "Built"
  | .signed => "Signed"
  | .submitted => "Submitted"
  | .committed => "Committed"

end GroupStatus

/-- The methods are those that the members at the given places call. -/
structure AtomicGroup where
  members : List Member := []
  methods : List (Nat × Abi.Method) := []
  built : Option (List Member) := none
  signed : Option (List SignedTransaction) := none
  status : GroupStatus := .building

/-- A call of a method, with the transactions that go in front of it. -/
structure MethodCall where
  call : Member
  method : Abi.Method
  before : List Member := []

namespace AtomicGroup

def size (g : AtomicGroup) : Nat :=
  g.members.length

def checkRoom (g : AtomicGroup) (more : Nat) : Except ClientError Unit :=
  if g.status ≠ .building then .error (.state .alreadyBuilt)
  else if maxGroupSize < g.size + more then .error (.argument .fullGroup)
  else .ok ()

/-- Adds the members one by one; those in front of one that cannot be added stay. -/
def pushAll (g : AtomicGroup) : List Member → Except ClientError Unit × AtomicGroup
  | [] => (.ok (), g)
  | m :: rest =>
    if m.transaction.header.group.isSome then (.error (.argument .grouped), g)
    else pushAll { g with members := g.members ++ [m] } rest

def addTransaction (g : AtomicGroup) (m : Member) : Except ClientError Unit × AtomicGroup :=
  match g.checkRoom 1 with
  | .error why => (.error why, g)
  | .ok () => g.pushAll [m]

def addMethodCall (g : AtomicGroup) (c : MethodCall) : Except ClientError Unit × AtomicGroup :=
  match g.checkRoom (c.before.length + 1) with
  | .error why => (.error why, g)
  | .ok () =>
    match g.pushAll (c.before ++ [c.call]) with
    | (.error why, g) => (.error why, g)
    | (.ok (), g) => (.ok (), { g with methods := g.methods ++ [(g.size - 1, c.method)] })

/-- The members with the identity of the group. One member needs none. -/
def boundMembers (g : AtomicGroup) : Except ClientError (List Member) :=
  if g.members.isEmpty then .error (.argument .emptyGroup)
  else if g.size = 1 then .ok g.members
  else do
    let bound ← (Transaction.assignGroup (g.members.map (·.transaction))).mapError .transaction
    return List.zipWith (fun t m => { m with transaction := t }) bound g.members

def build (g : AtomicGroup) : Except ClientError (List Member) × AtomicGroup :=
  match g.built with
  | some built => (.ok built, g)
  | none =>
    match g.boundMembers with
    | .error why => (.error why, g)
    | .ok built => (.ok built, { g with built := some built, status := .built })

/-- A signer with the places of the transactions that it is to sign. -/
structure Batch where
  signer : SignerHandle
  places : List Nat
  deriving DecidableEq

def addToBatch (signer : SignerHandle) (place : Nat) : List Batch → List Batch
  | [] => [⟨signer, [place]⟩]
  | b :: rest =>
    if b.signer.number = signer.number then { b with places := b.places ++ [place] } :: rest
    else b :: addToBatch signer place rest

def batchesFrom (place : Nat) (batches : List Batch) : List Member → List Batch
  | [] => batches
  | m :: rest => batchesFrom (place + 1) (addToBatch m.signer place batches) rest

/-- One batch for each signer. -/
def batches (members : List Member) : List Batch :=
  batchesFrom 0 [] members

def signBatch (ts : List Transaction) (b : Batch) :
    Except SignError (List (Nat × SignedTransaction)) := do
  return b.places.zip (← b.signer.signer.signAt ts b.places)

/-- The signed transaction for a place. -/
def atPlace? (signed : List (Nat × SignedTransaction)) (place : Nat) : Option SignedTransaction :=
  (signed.find? (·.1 = place)).map Prod.snd

/-- Lets the signers sign their batches, in the given order. -/
def signBatches (ts : List Transaction) (order : List Batch) :
    Except ClientError (List SignedTransaction) := do
  let signed ← (order.mapM (signBatch ts)).mapError fun why => .configuration (.signing why)
  let places := List.range ts.length
  match places.filter fun i => (atPlace? signed.flatten i).isNone with
  | [] => return places.filterMap (atPlace? signed.flatten)
  | unsigned => throw (.configuration (.unsigned unsigned))

def gatherSignatures (g : AtomicGroup) :
    Except ClientError (List SignedTransaction) × AtomicGroup :=
  match g.signed with
  | some signed => (.ok signed, g)
  | none =>
    match g.build with
    | (.error why, g) => (.error why, g)
    | (.ok built, g) =>
      match signBatches (built.map (·.transaction)) (batches built) with
      | .error why => (.error why, g)
      | .ok signed => (.ok signed, { g with signed := some signed, status := .signed })

end AtomicGroup

end AppLedger
