import AppLedger.Http.Node
import AppLedger.Proofs.Effect
import AppLedger.Proofs.Msgpack.Consecutive
import AppLedger.Proofs.Transaction.KeyOrder

/-! A group is sent as the encodings of its members, one after the other, and simulated as a list of
their maps in another order of the keys. Both stand for the same signed transactions. -/

namespace AppLedger

open Msgpack

namespace SignedTransaction

variable {signed : List SignedTransaction}

/-- The boxes of each member are listed. -/
def Listed (signed : List SignedTransaction) : Prop :=
  ∀ s ∈ signed, s.transaction.BoxesListed

theorem encode_of_listed {s : SignedTransaction} (h : s.transaction.BoxesListed) :
    s.encode = .ok s.declaredWire.sorted.encode :=
  map_eq_ok.mpr ⟨_, wire_of_listed h, rfl⟩

theorem mapM_encode_of_listed (h : Listed signed) :
    signed.mapM encode = .ok (signed.map fun s => s.declaredWire.sorted.encode) :=
  mapM_eq_ok_map fun s hs => encode_of_listed (h s hs)

theorem isValue_encoding {s : SignedTransaction} (hsized : s.Sized)
    (hlisted : s.transaction.BoxesListed) : IsValue s.declaredWire.sorted.encode :=
  isValue_of_readBy (readBy_of_legible (legible hsized hlisted (Nat.le_refl 4)))

end SignedTransaction

namespace Http

variable {σ : Type} {signed : List SignedTransaction}

open SignedTransaction

/-! ## Bodies -/

theorem submitBody_of_listed (h : Listed signed) :
    submitBody signed = .ok (signed.map fun s => s.declaredWire.sorted.encode).flatten :=
  bind_eq_ok.mpr ⟨_, mapM_encode_of_listed h, rfl⟩

theorem splitsInto_submitBody (hsized : ∀ s ∈ signed, s.Sized) (hlisted : Listed signed) :
    SplitsInto (signed.map fun s => s.declaredWire.sorted.encode).flatten
      (signed.map fun s => s.declaredWire.sorted.encode) := by
  refine ⟨rfl, fun part hpart => ?_⟩
  obtain ⟨s, hs, rfl⟩ := List.mem_map.mp hpart
  exact isValue_encoding (hsized s hs) (hlisted s hs)

/-- The request to simulate a group with the given maps. -/
def simulationOf (items : List Value) : Value :=
  .ofFields [("txn-groups", .array [.ofFields [("txns", .array items)]]),
    ("allow-empty-signatures", .bool true)]

theorem simulateValue_of_listed (h : Listed signed) :
    simulateValue signed = .ok (simulationOf (signed.map declaredWire)) := by
  have hgroup : signed.mapM (fun s => s.wire.map Value.ofFields) = .ok (signed.map declaredWire) :=
    mapM_eq_ok_map fun s hs => map_eq_ok.mpr ⟨_, wire_of_listed (h s hs), rfl⟩
  rw [simulateValue, hgroup]
  rfl

/-- The elements of the list `txns` in the first element of the list `txn-groups`. -/
def simulatedGroup? : Value → Option (List Value)
  | .map entries =>
    match entry? "txn-groups" entries with
    | some (.array (.map group :: _)) =>
      match entry? "txns" group with
      | some (.array items) => some items
      | _ => none
    | _ => none
  | _ => none

theorem simulatedGroup?_simulationOf (items : List Value) :
    simulatedGroup? (simulationOf items) = some items := rfl

theorem legible_simulationOf {items : List Value} {depth : Nat} (hsize : items.length < UInt32.size)
    (h : ∀ item ∈ items, item.Legible depth) : (simulationOf items).Legible (depth + 4) := by
  have hgroup : (Value.ofFields [("txns", .array items)]).Legible (depth + 2) := by
    refine .map (show 1 < UInt32.size by decide) ?_ ?_
    · intro e he
      obtain rfl := List.mem_singleton.mp he
      exact .text (by decide)
    · intro e he
      obtain rfl := List.mem_singleton.mp he
      exact .array hsize h
  refine .map (show 2 < UInt32.size by decide) ?_ ?_
  · simp only [List.map_cons, List.map_nil, List.forall_mem_cons]
    exact ⟨.text (by decide), .text (by decide), List.forall_mem_nil _⟩
  · simp only [List.map_cons, List.map_nil, List.forall_mem_cons]
    refine ⟨.array (show 1 < UInt32.size by decide) fun v hv => ?_, .bool true,
      List.forall_mem_nil _⟩
    obtain rfl := List.mem_singleton.mp hv
    exact hgroup

theorem decode?_simulationOf (hcount : signed.length < UInt32.size) (hsized : ∀ s ∈ signed, s.Sized)
    (hlisted : Listed signed) :
    decode? (simulationOf (signed.map declaredWire)).encode =
      some (simulationOf (signed.map declaredWire)) := by
  have hitems : ∀ item ∈ signed.map declaredWire, item.Legible (1018 + 1) := by
    intro item hitem
    obtain ⟨s, hs, rfl⟩ := List.mem_map.mp hitem
    exact legible_declaredWire (hsized s hs) (hlisted s hs) (by decide)
  exact decode?_encode (legible_simulationOf (by rwa [List.length_map]) hitems)

theorem decode?_encoding {s : SignedTransaction} (hsized : s.Sized)
    (hlisted : s.transaction.BoxesListed) :
    decode? s.declaredWire.sorted.encode = some s.declaredWire.sorted :=
  decode?_encode (legible hsized hlisted (by decide : 4 ≤ 1022))

/-! ## Requests -/

theorem submit_of_body {body : Bytes} (h : submitBody signed = .ok body) (client : HttpClient σ) :
    submit client signed =
      ask client (post "/v2/transactions" [] body "application/x-binary") sentId := by
  rw [submit, h]
  rfl

theorem simulate_of_body {body : Bytes} (h : simulateBody signed = .ok body)
    (client : HttpClient σ) :
    simulate client signed = ask client
      (post "/v2/transactions/simulate" [("format", "json")] body "application/msgpack")
        simulation := by
  rw [simulate, h]
  rfl

/-- What is sent of a group splits into MessagePack values in one way only, into the encodings of
its members. What is sent to simulate the group has a list of as many values, which are those
encodings once their keys are in order. Read one by one, both are the same signed transactions. -/
theorem submit_simulate_same_group (hcount : signed.length < UInt32.size)
    (hsized : ∀ s ∈ signed, s.Sized) (hencodes : ∀ s ∈ signed, ∃ b, s.encode = .ok b) :
    ∃ (encodings : List Bytes) (body simulated : Bytes) (v : Value) (items : List Value),
      (∀ (σ : Type) (client : HttpClient σ), submit client signed =
        ask client (post "/v2/transactions" [] body "application/x-binary") sentId) ∧
      (∀ (σ : Type) (client : HttpClient σ), simulate client signed = ask client
        (post "/v2/transactions/simulate" [("format", "json")] simulated "application/msgpack")
          simulation) ∧
      signed.mapM encode = .ok encodings ∧
      (∀ parts, SplitsInto body parts ↔ parts = encodings) ∧
      decode? simulated = some v ∧ v.encode = simulated ∧ simulatedGroup? v = some items ∧
      List.Forall₂ (fun item b => item.sorted.encode = b ∧ decode? b = some item.sorted)
        items encodings ∧
      encodings.mapM decode = .ok (signed.map norm) ∧
      (items.map Value.encode).mapM decode = .ok (signed.map norm) := by
  have hlisted : Listed signed := by
    intro s hs
    obtain ⟨b, hb⟩ := hencodes s hs
    exact listed_of_encode hb
  have hbody := submitBody_of_listed hlisted
  have hsimulated : simulateBody signed = .ok (simulationOf (signed.map declaredWire)).encode := by
    rw [simulateBody, simulateValue_of_listed hlisted]
    rfl
  have hsplits := splitsInto_submitBody hsized hlisted
  refine ⟨_, _, _, _, _, fun _ => submit_of_body hbody, fun _ => simulate_of_body hsimulated,
    mapM_encode_of_listed hlisted, fun parts => ⟨fun hparts => hparts.unique hsplits, ?_⟩,
    decode?_simulationOf hcount hsized hlisted, rfl, simulatedGroup?_simulationOf _, ?_, ?_, ?_⟩
  · rintro rfl
    exact hsplits
  · rw [List.forall₂_map_left_iff, List.forall₂_map_right_iff, List.forall₂_same]
    exact fun s hs => ⟨rfl, decode?_encoding (hsized s hs) (hlisted s hs)⟩
  · rw [List.mapM_map]
    exact mapM_eq_ok_map fun s hs =>
      decode_of_encode (hsized s hs) (encode_of_listed (hlisted s hs))
  · rw [List.map_map, List.mapM_map]
    exact mapM_eq_ok_map fun s hs => decode_declaredWire (hsized s hs) (hlisted s hs)

/-- A payment and a call with a box of a listed application, both signed. -/
theorem submit_simulate_same_group_pair :
    let account (n : UInt8) : Address := ⟨⟨List.replicate 32 n, List.length_replicate⟩⟩
    let header : Header := { sender := account 1, firstValid := 1, lastValid := 9 }
    let payment : SignedTransaction :=
      { signature := some .zero, transaction := .payment ⟨header, account 2, 5, none⟩ }
    let call : SignedTransaction :=
      { logicSig := some { logic := [8, 1] }
        transaction := .appCall
          { header, app := 7, localSchema := some { uints := 1, byteSlices := 2 },
            apps := some [9], boxes := some [⟨9, [1]⟩] } }
    ∃ (encodings : List Bytes) (body simulated : Bytes) (v : Value) (items : List Value),
      [payment, call].mapM SignedTransaction.encode = .ok encodings ∧
      submit PreparedServer.client [payment, call] = ask PreparedServer.client
        (post "/v2/transactions" [] body "application/x-binary") sentId ∧
      (∀ parts, SplitsInto body parts ↔ parts = encodings) ∧
      decode? simulated = some v ∧ simulatedGroup? v = some items ∧
      items.map (fun item => item.sorted.encode) = encodings ∧
      (items.map Value.encode).mapM SignedTransaction.decode = .ok [payment, call] := by
  intro account header payment call
  have hheader : header.Sized := by constructor <;> simp [header]
  have hsized : ∀ s ∈ [payment, call], s.Sized := by
    rintro s (_ | ⟨_, _ | ⟨_, ⟨⟩⟩⟩)
    · exact ⟨hheader, by simp, by simp⟩
    · refine ⟨?_, by simp, ?_⟩
      · refine ⟨hheader, ?_, ?_, ?_, ?_, ?_, ?_, ?_⟩ <;> simp [UInt32.size]
      · rintro _ ⟨⟩
        exact ⟨show 2 < UInt32.size by decide, by simp, by simp⟩
  have hencodes : ∀ s ∈ [payment, call], ∃ b, s.encode = .ok b := by
    rintro s (_ | ⟨_, _ | ⟨_, ⟨⟩⟩⟩)
    · exact SignedTransaction.exists_encode trivial
    · refine SignedTransaction.exists_encode ?_
      simp [call, Transaction.BoxesListed, AppCall.BoxesListed, BoxRef.Listed]
  have hcount : [payment, call].length < UInt32.size := show 2 < UInt32.size by decide
  obtain ⟨encodings, body, simulated, v, items, hsubmit, -, hencodings, hsplits, hdecode, -, hitems,
    hsame, -, hread⟩ := submit_simulate_same_group hcount hsized hencodes
  refine ⟨encodings, body, simulated, v, items, hencodings, hsubmit _ _, hsplits, hdecode, hitems,
    ?_, hread⟩
  have hequal := hsame.imp fun _ _ h => h.1
  rwa [← List.forall₂_map_left_iff, List.forall₂_eq_eq_eq] at hequal

end Http

end AppLedger
