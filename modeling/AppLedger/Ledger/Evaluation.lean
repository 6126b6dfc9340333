import AppLedger.Ledger.Authorization
import AppLedger.Transaction.Group

/-! What a group does to a ledger as a whole: all of its transactions take effect, or none. -/

namespace AppLedger

/-- The genesis block of the ledger. -/
def ledgerGenesisId : String := "dockernet-v1"

def ledgerGenesisHash : Digest := ⟨List.replicate 32 9, List.length_replicate⟩

def ledgerMinFee : Nat := 1000

/-- What a group has done. The state is not confirmed yet. -/
structure Evaluation where
  state : LedgerState
  round : Nat
  results : List (String × Confirmation)

namespace Evaluation

def verifyMembers (group : List Transaction) : Except GroupRejection Unit :=
  match Transaction.groupId (group.map (·.withGroup none)) with
  | .error why => .error (.transaction why)
  | .ok id => if group.all (·.header.group = some id) then .ok () else .error .incomplete

/-- A transaction by itself needs no group. Others belong to the group of exactly these
transactions. -/
def verifyGroup (group : List Transaction) : Except GroupRejection Unit :=
  if group.length = 1 ∧ group.all (·.header.group.isNone) then .ok () else verifyMembers group

/-- The members of a group pay for each other. -/
def verifyFees (group : List Transaction) : Except GroupRejection Unit :=
  let required := ledgerMinFee * group.length
  let paid := group.foldl (fun paid t => paid + (t.header.fee.getD 0).toNat) 0
  if paid < required then .error (.lowFee paid required) else .ok ()

def verifyHeader (h : Header) (round : Nat) : Except MemberRejection Unit :=
  if round < h.firstValid.toNat ∨ h.lastValid.toNat < round then
    .error (.dead round h.firstValid.toNat h.lastValid.toNat)
  else if h.genesisHash.any (· ≠ ledgerGenesisHash) then .error .genesisHash
  else if h.genesisId.any (· ≠ ledgerGenesisId) then .error .genesisId
  else .ok ()

/-- Where the group is evaluated: on a ledger, in a round, with or without signatures. -/
structure Setting where
  programs : ProgramTable
  base : LedgerState
  group : List Transaction
  allowUnsigned : Bool

def Setting.round (c : Setting) : Nat :=
  c.base.lastRound + 1

/-- The effect of the member at a place, on the state that the members before it have left. Only
the transactions of earlier groups count as already in the ledger. -/
def applyMember (c : Setting) (s : LedgerState) (index : Nat) (id : String)
    (stxn : SignedTransaction) : Except MemberRejection (Confirmation × LedgerState) := do
  if c.base.confirmations.contains id then throw .replayed
  verifyHeader stxn.transaction.header c.round
  unless stxn.isUnsigned && c.allowUnsigned do
    (stxn.verify (s.authorizer stxn.transaction.sender)).mapError .unauthorized
  (s.apply c.programs c.group index stxn.transaction).mapError .call

/-- The effects of the members from `index` on. -/
def applyFrom (c : Setting) (s : LedgerState) (index : Nat) :
    List SignedTransaction → Except GroupRejection (List (String × Confirmation) × LedgerState)
  | [] => .ok ([], s)
  | stxn :: rest => do
    let id ← stxn.id.mapError .transaction
    let (confirmation, s) ← (applyMember c s index id stxn).mapError (.member id)
    let (results, s) ← applyFrom c s (index + 1) rest
    return ((id, confirmation) :: results, s)

def ofGroup (programs : ProgramTable) (base : LedgerState) (signed : List SignedTransaction)
    (allowUnsigned : Bool) : Except GroupRejection Evaluation := do
  if signed.isEmpty then throw .empty
  if maxGroupSize < signed.length then throw (.tooLarge signed.length)
  let group := signed.map (·.transaction)
  verifyGroup group
  verifyFees group
  let c : Setting := { programs, base, group, allowUnsigned }
  let (results, state) ← applyFrom c base 0 signed
  return { state, round := c.round, results }

end Evaluation

end AppLedger
