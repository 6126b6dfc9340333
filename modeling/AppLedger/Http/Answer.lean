import AppLedger.Json.Reader
import AppLedger.Json.Record
import AppLedger.Node.Basic
import AppLedger.Program.Compiler
import AppLedger.Text.Base64

/-! The answers of a node that is asked over HTTP. Bodies are JSON, with byte strings in
base64. -/

namespace AppLedger.Http

open Json Json.Tree

def decodeBase64 (s : String) : Except BadAnswer Bytes :=
  (Text.Base64.decode? s).elim (.error .base64) .ok

def decodeAddress (s : String) : Except BadAnswer Address :=
  (Address.ofText s).mapError .address

/-- The body as a record of the given form. -/
def decodeBody {α : Type} (read : Tree → Option α) (body : String) : Except BadAnswer α :=
  ((Json.read? body).bind read).elim (.error .json) .ok

/-- The message that a node wraps its errors in, or else the body as it is. -/
def errorText (body : String) : String :=
  let message? (tree : Tree) : Option String :=
    match tree.fields? [⟨"message", false⟩] with
    | some [message] => required? text? message
    | _ => none
  ((Json.read? body).bind message?).getD body

def params (body : String) : Except BadAnswer NetworkParams := do
  let (params, hash) ← decodeBody read? body
  match FixedBytes.ofBytes? (← decodeBase64 hash) with
  | some genesisHash => return { params with genesisHash }
  | none => throw .genesisHash
where
  read? (tree : Tree) : Option (NetworkParams × String) := do
    let fields :=
      ["consensus-version", "fee", "genesis-hash", "genesis-id", "last-round", "min-fee"]
    match ← tree.fields? (fields.map (⟨·, false⟩)) with
    | [consensusVersion, fee, hash, genesisId, lastRound, minFee] =>
      let params : NetworkParams :=
        { consensusVersion := ← required? text? consensusVersion, fee := ← required? uint64? fee,
          genesisId := ← required? text? genesisId, lastRound := ← required? uint64? lastRound,
          minFee := ← required? uint64? minFee, genesisHash := .zero }
      return (params, ← required? text? hash)
    | _ => none

/-- The identity of the first transaction of a group that was sent. -/
def sentId (body : String) : Except BadAnswer String :=
  decodeBody read? body
where
  read? (tree : Tree) : Option String := do
    match ← tree.fields? [⟨"txId", false⟩] with
    | [id] => required? text? id
    | _ => none

/-- A confirmation whose logs are still in base64. -/
structure EncodedConfirmation where
  confirmation : Confirmation
  logs : List String

def encodedConfirmation? (tree : Tree) : Option EncodedConfirmation := do
  let fields := [⟨"confirmed-round", false⟩, ⟨"pool-error", true⟩, ⟨"application-index", false⟩,
    ⟨"logs", true⟩]
  match ← tree.fields? fields with
  | [round, poolError, createdApp, logs] =>
    let round ← nullable? uint64? round
    let confirmation : Confirmation :=
      { round := round.map UInt64.toNat, poolError := ← withDefault? "" text? poolError,
        createdApp := ← nullable? uint64? createdApp }
    return { confirmation, logs := ← withDefault? [] (list? text?) logs }
  | _ => none

def EncodedConfirmation.decode (e : EncodedConfirmation) : Except BadAnswer Confirmation := do
  return { e.confirmation with logs := ← e.logs.mapM decodeBase64 }

def confirmation (body : String) : Except BadAnswer Confirmation := do
  (← decodeBody encodedConfirmation? body).decode

def lastRound (body : String) : Except BadAnswer Nat :=
  decodeBody read? body
where
  read? (tree : Tree) : Option Nat := do
    match ← tree.fields? [⟨"last-round", false⟩] with
    | [round] => return (← required? uint64? round).toNat
    | _ => none

/-- A key and a value of a state, in base64. The type says which of the two values counts. -/
structure EncodedEntry where
  key : String
  type : Nat
  bytes : String
  uint : UInt64

def encodedEntry? (tree : Tree) : Option EncodedEntry := do
  match ← tree.fields? [⟨"key", false⟩, ⟨"value", false⟩] with
  | [key, some value] =>
    match ← value.fields? [⟨"type", false⟩, ⟨"bytes", true⟩, ⟨"uint", true⟩] with
    | [type, bytes, uint] =>
      return { key := ← required? text? key, type := ← required? (natBelow? 256) type,
               bytes := ← withDefault? "" text? bytes, uint := ← withDefault? 0 uint64? uint }
    | _ => none
  | _ => none

def EncodedEntry.decode (e : EncodedEntry) : Except BadAnswer (Bytes × StateValue) := do
  let value ←
    if e.type = 1 then do
      let bytes ← decodeBase64 e.bytes
      pure (StateValue.bytes bytes)
    else if e.type = 2 then pure (StateValue.uint e.uint)
    else throw (.stateType e.type)
  let key ← decodeBase64 e.key
  return (key, value)

def decodeState (entries : List EncodedEntry) : Except BadAnswer AppState := do
  return AppState.empty.putAll (← entries.mapM EncodedEntry.decode)

def schema? (tree : Tree) : Option StateSchema := do
  match ← tree.fields? [⟨"num-uint", true⟩, ⟨"num-byte-slice", true⟩] with
  | [uints, byteSlices] =>
    return { uints := ← withDefault? 0 uint64? uints,
             byteSlices := ← withDefault? 0 uint64? byteSlices }
  | _ => none

/-- An application whose byte strings are still in base64. -/
structure EncodedApplication where
  app : UInt64 := 0
  creator : String
  approval : String
  clear : String
  extraPages : UInt64
  globalState : List EncodedEntry
  globalSchema : StateSchema
  localSchema : StateSchema

def applicationParams? (tree : Tree) : Option EncodedApplication := do
  let fields := [⟨"creator", false⟩, ⟨"approval-program", false⟩, ⟨"clear-state-program", false⟩,
    ⟨"extra-program-pages", true⟩, ⟨"global-state", true⟩, ⟨"global-state-schema", true⟩,
    ⟨"local-state-schema", true⟩]
  match ← tree.fields? fields with
  | [creator, approval, clear, extraPages, globalState, globalSchema, localSchema] =>
    return { creator := ← required? text? creator, approval := ← required? text? approval,
             clear := ← required? text? clear, extraPages := ← withDefault? 0 uint64? extraPages,
             globalState := ← withDefault? [] (list? encodedEntry?) globalState,
             globalSchema := ← withDefault? {} schema? globalSchema,
             localSchema := ← withDefault? {} schema? localSchema }
  | _ => none

def encodedApplication? (tree : Tree) : Option EncodedApplication := do
  match ← tree.fields? [⟨"id", false⟩, ⟨"params", false⟩] with
  | [app, params] =>
    let app ← required? uint64? app
    return { ← required? applicationParams? params with app }
  | _ => none

def application (body : String) : Except BadAnswer ApplicationInfo := do
  let e ← decodeBody encodedApplication? body
  let creator ← decodeAddress e.creator
  let approval ← decodeBase64 e.approval
  let clear ← decodeBase64 e.clear
  let globalState ← decodeState e.globalState
  return { app := e.app, creator, approval, clear, globalSchema := e.globalSchema,
           localSchema := e.localSchema, extraPages := e.extraPages, globalState }

/-- An account whose addresses are still texts. -/
structure EncodedAccount where
  address : String
  authAddress : Option String
  info : AccountInfo

def encodedAccount? (tree : Tree) : Option EncodedAccount := do
  let fields := [⟨"address", false⟩, ⟨"amount", false⟩, ⟨"auth-addr", false⟩,
    ⟨"total-apps-opted-in", true⟩, ⟨"total-created-apps", true⟩, ⟨"round", false⟩]
  match ← tree.fields? fields with
  | [address, balance, authAddress, optedIn, created, round] =>
    let info : AccountInfo :=
      { address := .zero, balance := (← required? uint64? balance).toNat, authAddress := none,
        optedIn := (← withDefault? 0 uint64? optedIn).toNat,
        created := (← withDefault? 0 uint64? created).toNat,
        round := (← required? uint64? round).toNat }
    return { address := ← required? text? address, authAddress := ← nullable? text? authAddress,
             info }
  | _ => none

def account (body : String) : Except BadAnswer AccountInfo := do
  let e ← decodeBody encodedAccount? body
  let address ← decodeAddress e.address
  let authAddress ← e.authAddress.mapM decodeAddress
  return { e.info with address, authAddress }

/-- The local state of an account. Absent where the account has not opted in. -/
def accountState? (body : String) : Except BadAnswer (Option AppState) := do
  (← decodeBody read? body).mapM decodeState
where
  keyValues? (tree : Tree) : Option (List EncodedEntry) := do
    match ← tree.fields? [⟨"key-value", true⟩] with
    | [entries] => withDefault? [] (list? encodedEntry?) entries
    | _ => none
  read? (tree : Tree) : Option (Option (List EncodedEntry)) := do
    match ← tree.fields? [⟨"app-local-state", false⟩] with
    | [state] => nullable? keyValues? state
    | _ => none

/-- Only the first group counts. -/
def simulation (body : String) : Except BadAnswer Simulation := do
  match ← decodeBody read? body with
  | (_, []) => throw .noGroups
  | (lastRound, (failure, results) :: _) =>
    return { lastRound, failure, results := ← results.mapM (·.decode) }
where
  result? (tree : Tree) : Option EncodedConfirmation := do
    match ← tree.fields? [⟨"txn-result", false⟩] with
    | [result] => required? encodedConfirmation? result
    | _ => none
  group? (tree : Tree) : Option (Option String × List EncodedConfirmation) := do
    match ← tree.fields? [⟨"failure-message", false⟩, ⟨"txn-results", false⟩] with
    | [failure, results] => return (← nullable? text? failure, ← required? (list? result?) results)
    | _ => none
  read? (tree : Tree) : Option (Nat × List (Option String × List EncodedConfirmation)) := do
    match ← tree.fields? [⟨"last-round", false⟩, ⟨"txn-groups", false⟩] with
    | [round, groups] =>
      return ((← required? uint64? round).toNat, ← required? (list? group?) groups)
    | _ => none

/-- How many levels of arrays and objects a source map may have. -/
def maxMapDepth : Nat := 126

def compiledProgram (body : String) : Except BadAnswer CompiledProgram := do
  let (hash, code, sourceMap) ← decodeBody read? body
  return { bytecode := ← decodeBase64 code, hash, sourceMap }
where
  read? (tree : Tree) : Option (String × String × Option Json.Value) := do
    match ← tree.fields? [⟨"hash", false⟩, ⟨"result", false⟩, ⟨"sourcemap", false⟩] with
    | [hash, code, sourceMap] =>
      return (← required? text? hash, ← required? text? code,
        ← nullable? (Json.Tree.value? maxMapDepth) sourceMap)
    | _ => none

end AppLedger.Http
