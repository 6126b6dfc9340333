import Mathlib.Data.List.Perm.Subperm
import AppLedger.Ledger.Authorization
import AppLedger.Proofs.Outcome
import AppLedger.Proofs.Transaction.RoundTrip
import AppLedger.Signer

/-! What a signer returns is signed by the signer's own account, so the ledger takes it for the
senders whose transactions that account signs, and for no others. -/

namespace AppLedger

variable {message : Bytes}

-- No proof here looks into the curve, and unfolding it at unknown arguments does not end.
attribute [local irreducible] Ed25519.verify

-- An equation of the function, not of its values: these are compared by computing them.
theorem verifySignature_eq : verifySignature = fun account message signature =>
    match Ed25519.verify account.key message signature with
    | .ok () => .ok ()
    | .error .key => .error .badKey
    | .error .signature => .error .badSignature := by
  delta verifySignature
  rfl

theorem verifySignature_of_verify {account : Address} {signature : Signature}
    (h : Ed25519.verify account.key message signature = .ok ()) :
    verifySignature account message signature = .ok () := by
  simp only [verifySignature_eq, h]

namespace Multisig

theorem verifyEach_of_valid {subsignatures : List Subsignature}
    (h : ∀ s ∈ subsignatures, ∀ signature ∈ s.signature,
      verifySignature s.address message signature = .ok ()) :
    verifyEach message subsignatures = .ok (subsignatures.countP (·.signature.isSome)) := by
  induction subsignatures with
  | nil => rfl
  | cons s rest ih =>
    obtain ⟨hs, hrest⟩ := List.forall_mem_cons.mp h
    have hcount := ih hrest
    rw [verifyEach, List.countP_cons]
    cases hsignature : s.signature with
    | none => simpa using hcount
    | some signature =>
      have hvalid := hs signature hsignature
      simp only [hvalid, hcount, Option.isSome_some, if_true]
      rfl

/-- The participants whose keys are held. An account that takes part twice counts twice. -/
def heldCount (m : Multisig) (keys : List KeyPair) : Nat :=
  m.participants.countP fun a => keys.any (·.address = a)

def Unsigned (m : Multisig) : Prop :=
  ∀ s ∈ m.subsignatures, s.signature = none

theorem eq_of_create {version threshold : UInt8} {participants : List Address} {m : Multisig}
    (h : create version threshold participants = .ok m) :
    m = ⟨version, threshold, participants.map fun address => { address }⟩ := by
  unfold create at h
  split at h
  · simp at h
  split at h
  · simp at h
  split at h
  · simp at h
  · exact (Except.ok.inj h).symm

theorem participants_of_create {version threshold : UInt8} {participants : List Address}
    {m : Multisig} (h : create version threshold participants = .ok m) :
    m.participants = participants := by
  rw [eq_of_create h, Multisig.participants, List.map_map]
  exact List.map_id _

theorem unsigned_of_create {version threshold : UInt8} {participants : List Address} {m : Multisig}
    (h : create version threshold participants = .ok m) : m.Unsigned := by
  rw [eq_of_create h]
  intro s hs
  obtain ⟨address, -, rfl⟩ := List.mem_map.mp hs
  rfl

end Multisig

namespace SignedTransaction

theorem verifySignatures_of_encode {s : SignedTransaction}
    (hencode : s.transaction.encode = .ok message) (account : Address) :
    s.verifySignatures account =
      match s.signature, s.multisig, s.logicSig with
      | some signature, none, none => verifySignature account message signature
      | none, some multisig, none => multisig.verify account message
      | none, none, some logicSig => logicSig.verify account
      | none, none, none => throw .unsigned
      | _, _, _ => throw .manySignatures := by
  rw [verifySignatures, hencode]
  rfl

end SignedTransaction

namespace Signer

/-- How signers are made: from a key, from keys of participants of a shared account, or from a
program to which no other account lends its authority. -/
inductive Built : Signer → Prop
  | key (pair : KeyPair) : Built (.key pair)
  | multisig {version threshold : UInt8} {participants : List Address} {keys : List KeyPair}
      {signer : Signer} (h : ofKeys version threshold participants keys = .ok signer) :
      Built signer
  | logicSig (logic : Bytes) (args : Option (List Bytes)) : Built (.logicSig { logic, args })

def keys : Signer → List KeyPair
  | .key pair => [pair]
  | .multisig _ keys => keys
  | .logicSig _ => []

/-- Enough keys of a shared account are held. -/
def HoldsThreshold : Signer → Prop
  | .multisig account keys => account.threshold.toNat ≤ account.heldCount keys
  | _ => True

theorem ofKeys_cases {version threshold : UInt8} {participants : List Address}
    {keys : List KeyPair} {signer : Signer}
    (h : ofKeys version threshold participants keys = .ok signer) :
    ∃ account, Multisig.create version threshold participants = .ok account ∧
      (∀ pair ∈ keys, pair.address ∈ participants) ∧ signer = .multisig account keys := by
  obtain ⟨account, hcreate, h⟩ := bind_eq_ok.mp h
  split at h
  · exact absurd h throw_ne_ok
  · next hfind =>
    refine ⟨account, hcreate, fun pair hpair => ?_, (Except.ok.inj h).symm⟩
    have hknown := List.find?_eq_none.mp hfind pair hpair
    simpa using hknown

/-- Different keys are of different participants. -/
theorem holdsThreshold_of_nodup {version threshold : UInt8} {participants : List Address}
    {keys : List KeyPair} {signer : Signer}
    (h : ofKeys version threshold participants keys = .ok signer)
    (hnodup : (keys.map (·.address)).Nodup) (henough : threshold.toNat ≤ keys.length) :
    signer.HoldsThreshold := by
  obtain ⟨account, hcreate, hknown, rfl⟩ := ofKeys_cases h
  have hparticipants := Multisig.participants_of_create hcreate
  have hthreshold : account.threshold = threshold := by rw [Multisig.eq_of_create hcreate]
  have hsub : keys.map (·.address) ⊆
      account.participants.filter fun a => keys.any (·.address = a) := by
    intro a ha
    obtain ⟨pair, hpair, rfl⟩ := List.mem_map.mp ha
    rw [List.mem_filter, hparticipants]
    exact ⟨hknown pair hpair, List.any_eq_true.mpr ⟨pair, hpair, decide_eq_true rfl⟩⟩
  have hle := (List.subperm_of_subset hnodup hsub).length_le
  rw [List.length_map] at hle
  rw [HoldsThreshold, Multisig.heldCount, hthreshold, List.countP_eq_length_filter]
  exact Nat.le_trans henough hle

/-! ## Shared accounts -/

theorem address_signShared (account : Multisig) (keys : List KeyPair) :
    (signShared account keys message).address = account.address := by
  have hparticipants : (signShared account keys message).participants = account.participants := by
    simp only [Multisig.participants, signShared, List.map_map]
    refine List.map_congr_left fun s _ => ?_
    dsimp only [Function.comp]
    split <;> rfl
  rw [Multisig.address, Multisig.address, Multisig.preimage, Multisig.preimage, hparticipants]
  rfl

theorem valid_signShared {account : Multisig} (hunsigned : account.Unsigned) {keys : List KeyPair}
    (hkeys : ∀ pair ∈ keys, verifySignature pair.address message (pair.sign message) = .ok ()) :
    ∀ s ∈ (signShared account keys message).subsignatures, ∀ signature ∈ s.signature,
      verifySignature s.address message signature = .ok () := by
  intro s hs signature hsignature
  obtain ⟨slot, hslot, rfl⟩ := List.mem_map.mp hs
  have hnone := hunsigned slot hslot
  split at hsignature
  · next pair hfind =>
    have haddress : pair.address = slot.address := by simpa using List.find?_some hfind
    obtain rfl := Option.some.inj hsignature
    have hvalid := hkeys pair (List.mem_of_find?_eq_some hfind)
    rw [haddress] at hvalid
    simpa only [hfind] using hvalid
  · rw [hnone] at hsignature
    simp at hsignature

theorem signatureCount_signShared {account : Multisig} (hunsigned : account.Unsigned)
    (keys : List KeyPair) (message : Bytes) :
    (signShared account keys message).signatureCount = account.heldCount keys := by
  rw [Multisig.signatureCount, Multisig.heldCount, Multisig.participants, signShared,
    List.countP_map, List.countP_map]
  refine List.countP_congr fun s hs => ?_
  have hnone := hunsigned s hs
  dsimp only [Function.comp]
  cases hfind : keys.find? (·.address = s.address) with
  | none =>
    have hheld : keys.any (·.address = s.address) = false :=
      List.any_eq_false.mpr (List.find?_eq_none.mp hfind)
    rw [hheld, hnone]
    rfl
  | some pair =>
    have haddress : pair.address = s.address := by simpa using List.find?_some hfind
    have hheld : keys.any (·.address = s.address) = true :=
      List.any_eq_true.mpr ⟨pair, List.mem_of_find?_eq_some hfind, decide_eq_true haddress⟩
    rw [hheld]
    rfl

theorem verify_signShared {account : Multisig} (hunsigned : account.Unsigned)
    {keys : List KeyPair} (hheld : account.threshold.toNat ≤ account.heldCount keys)
    (hkeys : ∀ pair ∈ keys, verifySignature pair.address message (pair.sign message) = .ok ()) :
    (signShared account keys message).verify account.address message = .ok () := by
  have hcount := signatureCount_signShared hunsigned keys message
  have heach := Multisig.verifyEach_of_valid (valid_signShared hunsigned hkeys)
  have henough : ¬(signShared account keys message).signatureCount < account.threshold.toNat := by
    omega
  rw [Multisig.verify, address_signShared, heach, if_neg (not_not_intro rfl)]
  exact if_neg henough

/-! ## Signed transactions -/

variable {signer : Signer} {t : Transaction}

theorem authorizer_of_authFor {stxn : SignedTransaction} {account : Address}
    (hauth : stxn.authAddress = authFor account stxn.transaction) : stxn.authorizer = account := by
  rw [SignedTransaction.authorizer, hauth, authFor]
  by_cases hsender : stxn.transaction.sender = account
  · rw [if_pos hsender]
    exact hsender
  · rw [if_neg hsender]
    rfl

theorem exists_sign_key {pair : KeyPair} (hencode : t.encode = .ok message)
    (hvalid : verifySignature pair.address message (pair.sign message) = .ok ()) :
    ∃ stxn, (key pair).sign t = .ok stxn ∧ stxn.transaction = t ∧
      stxn.authorizer = pair.address ∧ stxn.verifySignatures pair.address = .ok () := by
  let stxn : SignedTransaction :=
    { transaction := t, signature := some (pair.sign message)
      authAddress := authFor pair.address t }
  refine ⟨stxn, ?_, rfl, authorizer_of_authFor rfl, ?_⟩
  · rw [sign, hencode]
    rfl
  · rw [SignedTransaction.verifySignatures_of_encode hencode]
    exact hvalid

theorem exists_sign_multisig {account : Multisig} (hunsigned : account.Unsigned)
    {keys : List KeyPair} (hheld : account.threshold.toNat ≤ account.heldCount keys)
    (hencode : t.encode = .ok message)
    (hkeys : ∀ pair ∈ keys, verifySignature pair.address message (pair.sign message) = .ok ()) :
    ∃ stxn, (multisig account keys).sign t = .ok stxn ∧ stxn.transaction = t ∧
      stxn.authorizer = account.address ∧ stxn.verifySignatures account.address = .ok () := by
  let signed := signShared account keys message
  let stxn : SignedTransaction :=
    { transaction := t, multisig := some signed, authAddress := authFor account.address t }
  have hcount : ¬signed.signatureCount < account.threshold.toNat := by
    rw [signatureCount_signShared hunsigned]
    exact Nat.not_lt.mpr hheld
  refine ⟨stxn, ?_, rfl, authorizer_of_authFor rfl, ?_⟩
  · rw [sign, hencode]
    exact if_neg hcount
  · rw [SignedTransaction.verifySignatures_of_encode hencode]
    exact verify_signShared hunsigned hheld hkeys

theorem exists_sign_logicSig {program : LogicSig} (hplain : program.isDelegated = false)
    (hencode : t.encode = .ok message) :
    ∃ stxn, (logicSig program).sign t = .ok stxn ∧ stxn.transaction = t ∧
      stxn.authorizer = program.address ∧ stxn.verifySignatures program.address = .ok () := by
  let stxn : SignedTransaction :=
    { transaction := t, logicSig := some program, authAddress := authFor program.address t }
  have hverify : program.verify program.address = .ok () := by
    rw [LogicSig.verify, hplain, if_neg Bool.false_ne_true, if_neg (not_not_intro rfl)]
  refine ⟨stxn, rfl, rfl, authorizer_of_authFor rfl, ?_⟩
  rw [SignedTransaction.verifySignatures_of_encode hencode]
  exact hverify

/-- The account that is noted is the signer, and its signatures are good. -/
theorem exists_sign (hbuilt : signer.Built) (hheld : signer.HoldsThreshold)
    (hencode : t.encode = .ok message)
    (hkeys : ∀ pair ∈ signer.keys,
      verifySignature pair.address message (pair.sign message) = .ok ()) :
    ∃ stxn, signer.sign t = .ok stxn ∧ stxn.transaction = t ∧ stxn.authorizer = signer.address ∧
      stxn.verifySignatures signer.address = .ok () := by
  cases hbuilt with
  | key pair => exact exists_sign_key hencode (hkeys pair List.mem_cons_self)
  | multisig h =>
    obtain ⟨account, hcreate, -, rfl⟩ := ofKeys_cases h
    exact exists_sign_multisig (Multisig.unsigned_of_create hcreate) hheld hencode hkeys
  | logicSig logic args => exact exists_sign_logicSig rfl hencode

/-- What a signer returns for a transaction is verified on a ledger if and only if the account that
signs for the sender there is the signer, provided that the signatures of its own keys are valid. -/
theorem verify_sign_iff (hbuilt : signer.Built) (hheld : signer.HoldsThreshold)
    (hencode : t.encode = .ok message)
    (hkeys : ∀ pair ∈ signer.keys,
      Ed25519.verify pair.address.key message (pair.sign message) = .ok ()) :
    ∃ stxn, signer.sign t = .ok stxn ∧ stxn.transaction = t ∧ ∀ s : LedgerState,
      stxn.verify (s.authorizer t.sender) = .ok () ↔ s.authorizer t.sender = signer.address := by
  have hvalid : ∀ pair ∈ signer.keys,
      verifySignature pair.address message (pair.sign message) = .ok () :=
    fun pair hpair => verifySignature_of_verify (hkeys pair hpair)
  obtain ⟨stxn, hsign, htransaction, hauthorizer, hsignatures⟩ :=
    exists_sign hbuilt hheld hencode hvalid
  refine ⟨stxn, hsign, htransaction, fun s => ?_⟩
  rw [SignedTransaction.verify, hauthorizer, hsignatures]
  by_cases hsame : signer.address = s.authorizer t.sender
  · rw [if_neg (not_not_intro hsame)]
    exact iff_of_true rfl hsame.symm
  · rw [if_pos hsame]
    exact iff_of_false nofun fun h => hsame h.symm

/-- Two of three signatures of a shared account are asked for, and one key, which is that of two
participants, is held. The sender is another account, which is rekeyed to the shared one or not. -/
theorem verify_sign_iff_shared :
    let pair := KeyPair.ofSecret ⟨List.replicate 32 1, List.length_replicate⟩
    let other : Address := ⟨⟨List.replicate 32 2, List.length_replicate⟩⟩
    let header : Header := { sender := other, firstValid := 1, lastValid := 9 }
    let t : Transaction := .payment ⟨header, .zero, 5, none⟩
    ∃ signer stxn, ofKeys 1 2 [pair.address, other, pair.address] [pair] = .ok signer ∧
      signer.sign t = .ok stxn ∧
      stxn.verify ((LedgerState.rekey {} other signer.address).authorizer other) = .ok () ∧
      stxn.verify (LedgerState.authorizer {} other) ≠ .ok () := by
  intro pair other header t
  let account : Multisig := ⟨1, 2, [⟨pair.address, none⟩, ⟨other, none⟩, ⟨pair.address, none⟩]⟩
  have hmade : ofKeys 1 2 [pair.address, other, pair.address] [pair] =
      .ok (.multisig account [pair]) := by
    simp [ofKeys, Multisig.create, account]
  have hheld : 2 ≤ account.heldCount [pair] := by
    simp [Multisig.heldCount, Multisig.participants, account]
  have hsigned : ∀ message ∈ t.encode.toOption,
      Ed25519.verify pair.address.key message (pair.sign message) = .ok () := by
    decide +kernel
  obtain ⟨message, hencode⟩ := Transaction.exists_encode (t := t) trivial
  have hvalid := hsigned message (by rw [hencode]; rfl)
  obtain ⟨stxn, hsign, -, hverify⟩ := verify_sign_iff (.multisig hmade) hheld hencode
    (List.forall_mem_singleton.mpr hvalid)
  have haddress : (multisig account [pair]).address ≠ other := by decide +kernel
  refine ⟨_, stxn, hmade, hsign, (hverify _).mpr ?_, fun h => ?_⟩
  · rw [LedgerState.rekey, if_neg haddress, LedgerState.authorizer, Table.get?_put]
    exact congrArg (Option.getD · t.sender) (if_pos rfl)
  · exact haddress ((hverify _).mp h).symm

end Signer

end AppLedger
