import AppLedger.LogicSig
import AppLedger.Proofs.Transaction.Group

/-! What is hashed starts with a tag that tells what it is. As far as no two of the hashed byte
strings have one hash, an address belongs to one application, one list of participants or one
program, and an identity to one transaction or one group. -/

namespace AppLedger

/-- No two of the byte strings have one hash. -/
def CollisionFree (strings : List Bytes) : Prop :=
  ∀ a ∈ strings, ∀ b ∈ strings, digest a = digest b → a = b

theorem CollisionFree.of_nodup {strings strings' : List Bytes} (h : (strings.map digest).Nodup)
    (hsub : ∀ b ∈ strings', b ∈ strings) : CollisionFree strings' :=
  fun _ ha _ hb heq => List.inj_on_of_nodup_map h (hsub _ ha) (hsub _ hb) heq

theorem CollisionFree.eq_of_map {strings as bs : List Bytes} (h : CollisionFree strings)
    (has : ∀ a ∈ as, a ∈ strings) (hbs : ∀ b ∈ bs, b ∈ strings)
    (heq : as.map digest = bs.map digest) : as = bs := by
  induction as generalizing bs with
  | nil => exact (List.map_eq_nil_iff.mp heq.symm).symm
  | cons a as ih =>
    cases bs with
    | nil => simp at heq
    | cons b bs =>
      rw [List.forall_mem_cons] at has hbs
      rw [List.map_cons, List.map_cons, List.cons.injEq] at heq
      rw [h a has.1 b hbs.1 heq.1, ih has.2 hbs.2 heq.2]

/-! ## Tags -/

/-- What is hashed into an address or an identity. -/
inductive Domain
  | app
  | multisig
  | program
  | transaction
  | group

namespace Domain

def tag : Domain → Bytes
  | app => Bytes.ofText "appID"
  | multisig => Bytes.ofText "MultisigAddr"
  | program => Bytes.ofText "Program"
  | transaction => Transaction.tag
  | group => Bytes.ofText "TG"

theorem eq_of_prefix_tag {d d' : Domain} (h : d.tag <+: d'.tag) : d = d' := by
  have hprefix := List.isPrefixOf_iff_prefix.mpr h
  cases d <;> cases d' <;> first | rfl | exact absurd hprefix (by decide +kernel)

/-- Strings of different domains differ, since no tag is the start of another. -/
theorem tag_append_inj {d d' : Domain} {s s' : Bytes} (h : d.tag ++ s = d'.tag ++ s') :
    d = d' ∧ s = s' := by
  have hleft : d.tag <+: d'.tag ++ s' := ⟨s, h⟩
  have hright : d'.tag <+: d'.tag ++ s' := List.prefix_append _ _
  have hdomain : d = d' := by
    rcases List.prefix_or_prefix_of_prefix hleft hright with hle | hge
    · exact eq_of_prefix_tag hle
    · exact (eq_of_prefix_tag hge).symm
  subst hdomain
  exact ⟨rfl, List.append_cancel_left h⟩

theorem tag_append_ne {d d' : Domain} (hne : d ≠ d') (s s' : Bytes) :
    d.tag ++ s ≠ d'.tag ++ s' :=
  fun h => hne (tag_append_inj h).1

end Domain

/-! ## What the hashed strings tell -/

namespace Address

/-- The bytes that the address of an application is the hash of. -/
def appPreimage (app : UInt64) : Bytes :=
  Bytes.ofText "appID" ++ Bytes.ofNat 8 app.toNat

theorem appPreimage_inj {app app' : UInt64} : appPreimage app = appPreimage app' ↔ app = app' := by
  constructor
  · intro h
    have hnumber := congrArg Bytes.toNat (List.append_cancel_left h)
    rw [Bytes.toNat_ofNat app.toNat_lt, Bytes.toNat_ofNat app'.toNat_lt] at hnumber
    exact UInt64.toNat_inj.mp hnumber
  · rintro rfl
    rfl

/-- Keys that are written one after the other are told apart, as all of them have one length. -/
theorem flatMap_key_injective :
    Function.Injective fun addresses : List Address => addresses.flatMap fun a => a.key.bytes := by
  intro as bs h
  simp only at h
  induction as generalizing bs with
  | nil =>
    cases bs with
    | nil => rfl
    | cons b bs =>
      have hlength := congrArg List.length h
      rw [List.flatMap_nil, List.flatMap_cons, List.length_append, b.key.length_bytes,
        List.length_nil] at hlength
      omega
  | cons a as ih =>
    cases bs with
    | nil =>
      have hlength := congrArg List.length h
      rw [List.flatMap_nil, List.flatMap_cons, List.length_append, a.key.length_bytes,
        List.length_nil] at hlength
      omega
    | cons b bs =>
      rw [List.flatMap_cons, List.flatMap_cons] at h
      obtain ⟨hkey, hrest⟩ :=
        List.append_inj h (a.key.length_bytes.trans b.key.length_bytes.symm)
      have hhead : a = b := congrArg Address.mk (FixedBytes.bytes_inj.mp hkey)
      rw [hhead, ih hrest]

end Address

theorem Multisig.preimage_inj {m m' : Multisig} : m.preimage = m'.preimage ↔
    m.version = m'.version ∧ m.threshold = m'.threshold ∧ m.participants = m'.participants := by
  constructor
  · intro h
    have hrest := List.append_cancel_left h
    rw [List.cons.injEq, List.cons.injEq] at hrest
    exact ⟨hrest.1, hrest.2.1, Address.flatMap_key_injective hrest.2.2⟩
  · rintro ⟨hversion, hthreshold, hparticipants⟩
    rw [preimage, preimage, hversion, hthreshold, hparticipants]

theorem LogicSig.preimage_inj {l l' : LogicSig} :
    l.preimage = l'.preimage ↔ l.logic = l'.logic := by
  rw [preimage, preimage, List.append_cancel_left_eq]

theorem Transaction.exists_tag_of_encode {t : Transaction} {b : Bytes} (h : t.encode = .ok b) :
    ∃ rest, b = Domain.transaction.tag ++ rest := by
  obtain ⟨raw, -, rfl⟩ := map_eq_ok.mp h
  exact ⟨raw, rfl⟩

/-! ## Separation -/

section Separation

variable {strings : List Bytes}

theorem CollisionFree.digest_inj (h : CollisionFree strings) {a b : Bytes} (ha : a ∈ strings)
    (hb : b ∈ strings) : digest a = digest b ↔ a = b :=
  ⟨h a ha b hb, congrArg digest⟩

theorem CollisionFree.address_inj (h : CollisionFree strings) {a b : Bytes} (ha : a ∈ strings)
    (hb : b ∈ strings) : (⟨digest a⟩ : Address) = ⟨digest b⟩ ↔ a = b := by
  rw [Address.mk.injEq, h.digest_inj ha hb]

theorem CollisionFree.digest_tag_ne (h : CollisionFree strings) (d d' : Domain) (hne : d ≠ d')
    {s s' : Bytes} (ha : d.tag ++ s ∈ strings) (hb : d'.tag ++ s' ∈ strings) :
    digest (d.tag ++ s) ≠ digest (d'.tag ++ s') :=
  fun heq => Domain.tag_append_ne hne s s' ((h.digest_inj ha hb).mp heq)

/-- Among hashed strings without a collision an address stands for one application, for one version,
threshold and list of participants, or for one program, whatever signatures and arguments come with
it. No address is of two kinds, and no identity is that of a transaction and of a group. -/
theorem addresses_and_ids_separated (hfree : CollisionFree strings) :
    (∀ app app' : UInt64, Address.appPreimage app ∈ strings → Address.appPreimage app' ∈ strings →
      (Address.ofApp app = Address.ofApp app' ↔ app = app')) ∧
    (∀ m m' : Multisig, m.preimage ∈ strings → m'.preimage ∈ strings →
      (m.address = m'.address ↔ m.version = m'.version ∧ m.threshold = m'.threshold ∧
        m.participants = m'.participants)) ∧
    (∀ l l' : LogicSig, l.preimage ∈ strings → l'.preimage ∈ strings →
      (l.address = l'.address ↔ l.logic = l'.logic)) ∧
    (∀ (app : UInt64) (m : Multisig) (l : LogicSig), Address.appPreimage app ∈ strings →
      m.preimage ∈ strings → l.preimage ∈ strings →
      Address.ofApp app ≠ m.address ∧ Address.ofApp app ≠ l.address ∧ m.address ≠ l.address) ∧
    ∀ (t : Transaction) (b : Bytes) (ts : List Transaction) (ids : List Digest) (id group : Digest),
      t.encode = .ok b → b ∈ strings → ts.mapM Transaction.ungroupedId = .ok ids →
      Transaction.groupPreimage ids ∈ strings → t.idRaw = .ok id →
      Transaction.groupId ts = .ok group → id ≠ group := by
  refine ⟨fun app app' ha hb => ?apps, fun m m' ha hb => ?multisigs, fun l l' ha hb => ?programs,
    fun app m l happ hm hl => ?kinds, fun t b ts ids id group hb hmem hids hgroup hid hgid => ?ids⟩
  case apps => exact (hfree.address_inj ha hb).trans Address.appPreimage_inj
  case multisigs => exact (hfree.address_inj ha hb).trans Multisig.preimage_inj
  case programs => exact (hfree.address_inj ha hb).trans LogicSig.preimage_inj
  case kinds =>
    have happMultisig := hfree.digest_tag_ne .app .multisig (by simp) happ hm
    have happProgram := hfree.digest_tag_ne .app .program (by simp) happ hl
    have hmultisigProgram := hfree.digest_tag_ne .multisig .program (by simp) hm hl
    exact ⟨fun heq => happMultisig (congrArg Address.key heq),
      fun heq => happProgram (congrArg Address.key heq),
      fun heq => hmultisigProgram (congrArg Address.key heq)⟩
  case ids =>
    obtain ⟨b', hb', rfl⟩ := map_eq_ok.mp hid
    obtain rfl := Except.ok.inj (hb'.symm.trans hb)
    obtain ⟨-, -, ids', hids', rfl⟩ := Transaction.groupId_eq_ok_iff.mp hgid
    obtain rfl := Except.ok.inj (hids'.symm.trans hids)
    obtain ⟨rest, rfl⟩ := Transaction.exists_tag_of_encode hb
    exact hfree.digest_tag_ne .transaction .group (by simp) hmem hgroup

/-- Two applications, an account of two keys with and without a signature and the one with its keys
the other way round, two programs, and a payment with the group of it. -/
theorem addresses_and_ids_separated_payment :
    let a : Address := ⟨⟨List.replicate 32 1, by decide⟩⟩
    let b : Address := ⟨⟨List.replicate 32 2, by decide⟩⟩
    let signed : Multisig := ⟨1, 2, [{ address := a, signature := some .zero }, { address := b }]⟩
    let unsigned : Multisig := ⟨1, 2, [{ address := a }, { address := b }]⟩
    let swapped : Multisig := ⟨1, 2, [{ address := b }, { address := a }]⟩
    let program : LogicSig := { logic := [8, 1] }
    let applied : LogicSig := { logic := [8, 1], args := some [[1]] }
    let other : LogicSig := { logic := [8] }
    let payment : Transaction :=
      .payment ⟨{ sender := a, firstValid := 1, lastValid := 9 }, a, 5, none⟩
    Address.ofApp 1 ≠ Address.ofApp 256 ∧
      signed.address = unsigned.address ∧ signed.address ≠ swapped.address ∧
      program.address = applied.address ∧ program.address ≠ other.address ∧
      Address.ofApp 1 ≠ signed.address ∧ Address.ofApp 1 ≠ program.address ∧
      signed.address ≠ program.address ∧
      ∃ id group, payment.idRaw = .ok id ∧ Transaction.groupId [payment] = .ok group ∧
        id ≠ group := by
  intro a b signed unsigned swapped program applied other payment
  have hnodup : (([Address.appPreimage 1, Address.appPreimage 256, signed.preimage,
      swapped.preimage, program.preimage, other.preimage] ++
        match payment.encode with
        | .ok encoding => [encoding, Transaction.groupPreimage [digest encoding]]
        | .error _ => []).map digest).Nodup := by
    decide +kernel
  obtain ⟨encoding, hencoding⟩ : ∃ encoding, payment.encode = .ok encoding :=
    Transaction.exists_encode trivial
  rw [hencoding] at hnodup
  obtain ⟨happs, hmultisigs, hprograms, hkinds, hids⟩ :=
    addresses_and_ids_separated (CollisionFree.of_nodup hnodup fun _ h => h)
  obtain ⟨happMultisig, happProgram, hmultisigProgram⟩ :=
    hkinds 1 signed program (by simp) (by simp) (by simp)
  have hmembers : [payment].mapM Transaction.ungroupedId = .ok [digest encoding] :=
    (Transaction.mapM_ungroupedId_eq_ok_iff (by simp [payment, Transaction.header])).mpr
      ⟨[encoding], mapM_eq_ok.mpr (.cons hencoding .nil), rfl⟩
  have hid : payment.idRaw = .ok (digest encoding) := map_eq_ok.mpr ⟨encoding, hencoding, rfl⟩
  have hgroup := Transaction.groupId_eq_ok_iff.mpr
    ⟨List.cons_ne_nil payment [], by decide, _, hmembers, rfl⟩
  refine ⟨?_, ?_, ?_, ?_, ?_, happMultisig, happProgram, hmultisigProgram, _, _, hid, hgroup, ?_⟩
  · rw [Ne, happs 1 256 (by simp) (by simp)]
    decide
  · have hsame : unsigned.preimage = signed.preimage := rfl
    exact (hmultisigs signed unsigned (by simp) (by simp [hsame])).mpr ⟨rfl, rfl, rfl⟩
  · rw [Ne, hmultisigs signed swapped (by simp) (by simp)]
    decide
  · have hsame : applied.preimage = program.preimage := rfl
    exact (hprograms program applied (by simp) (by simp [hsame])).mpr rfl
  · rw [Ne, hprograms program other (by simp) (by simp)]
    decide
  · exact hids payment encoding [payment] [digest encoding] _ _ hencoding (by simp) hmembers
      (by simp) hid hgroup

end Separation

end AppLedger
