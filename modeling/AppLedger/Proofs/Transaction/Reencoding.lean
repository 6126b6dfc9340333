import AppLedger.Proofs.Msgpack.Sizes
import AppLedger.Proofs.Transaction.SignedRoundTrip

/-! Whatever bytes a transaction is read from, it can be written: its sizes fit, and the application
of each box is the called one or among the references. -/

namespace AppLedger

open Msgpack

variable {slots : List (Option Value)} {v : Value}

theorem bounded_address : addressField.Bounded := fun _ _ _ _ => trivial

theorem bounded_number : FieldCodec.number.Bounded := fun _ _ _ _ => trivial

theorem Header.sized_of_ofWire? (hslots : ∀ slot ∈ slots, Value.SlotSized slot) {h : Header}
    (hread : ofWire? slots = some h) : h.Sized := by
  unfold ofWire? at hread
  split at hread
  · simp only [List.forall_mem_cons] at hslots
    obtain ⟨-, -, -, -, -, hgen, hnote, -⟩ := hslots
    obtain ⟨sender, -, hread⟩ := Option.bind_eq_some_iff.mp hread
    obtain ⟨fee, -, hread⟩ := Option.bind_eq_some_iff.mp hread
    obtain ⟨firstValid, -, hread⟩ := Option.bind_eq_some_iff.mp hread
    obtain ⟨lastValid, -, hread⟩ := Option.bind_eq_some_iff.mp hread
    obtain ⟨genesisHash, -, hread⟩ := Option.bind_eq_some_iff.mp hread
    obtain ⟨genesisId, hgenesisId, hread⟩ := Option.bind_eq_some_iff.mp hread
    obtain ⟨note, hnoteRead, hread⟩ := Option.bind_eq_some_iff.mp hread
    obtain ⟨rekeyTo, -, hread⟩ := Option.bind_eq_some_iff.mp hread
    obtain ⟨lease, -, hread⟩ := Option.bind_eq_some_iff.mp hread
    obtain ⟨group, -, hread⟩ := Option.bind_eq_some_iff.mp hread
    obtain rfl := Option.some.inj hread
    exact ⟨FieldCodec.bounded_text.optional hgen hgenesisId,
      FieldCodec.bounded_bytes.optional hnote hnoteRead⟩
  · simp at hread

theorem Payment.header_of_ofWire? {header : Header} {p : Payment}
    (hread : ofWire? header slots = some p) : p.header = header := by
  unfold ofWire? at hread
  split at hread
  · obtain ⟨receiver, -, hread⟩ := Option.bind_eq_some_iff.mp hread
    obtain ⟨amount, -, hread⟩ := Option.bind_eq_some_iff.mp hread
    obtain ⟨closeTo, -, hread⟩ := Option.bind_eq_some_iff.mp hread
    obtain rfl := Option.some.inj hread
    rfl
  · simp at hread

/-! ## Boxes -/

theorem natBelow?_lt {bound n : Nat} (h : v.natBelow? bound = some n) : n < bound := by
  unfold Value.natBelow? at h
  split at h
  · split at h
    · next hlt => exact Option.some.inj h ▸ hlt
    · simp at h
  · split at h
    · next hlt => exact Option.some.inj h ▸ hlt.2
    · simp at h
  · simp at h

theorem bounded_box : boxField.Bounded := by
  intro v box hv h
  obtain ⟨slots, hfields, h⟩ := Option.bind_eq_some_iff.mp h
  have hslots := Value.slotSized_of_fields? hv hfields
  split at h
  · next index name =>
    simp only [List.forall_mem_cons] at hslots
    obtain ⟨place, hplace, h⟩ := Option.bind_eq_some_iff.mp h
    obtain ⟨bytes, hbytes, h⟩ := Option.bind_eq_some_iff.mp h
    obtain rfl := Option.some.inj h
    refine ⟨?_, FieldCodec.bounded_bytes (hslots.2.1 name rfl) hbytes⟩
    cases index with
    | none =>
      obtain rfl := Option.some.inj hplace
      exact (by decide : 0 < UInt64.size)
    | some index => exact natBelow?_lt hplace
  · simp at h

namespace BoxRef

variable {references : List UInt64} {place : Nat} {name : Bytes} {box : BoxRef}

theorem name_of_ofIndex (h : ofIndex references place name = .ok box) : box.name = name := by
  cases place with
  | zero =>
    obtain rfl := Except.ok.inj h
    rfl
  | succ i =>
    rw [ofIndex] at h
    split at h
    · obtain rfl := Except.ok.inj h
      rfl
    · simp at h

/-- The application is found among the references again, or it is the called one. -/
theorem listed_of_ofIndex (app : UInt64) (h : ofIndex references place name = .ok box) :
    box.Listed app references := by
  cases place with
  | zero =>
    obtain rfl := Except.ok.inj h
    exact .inl rfl
  | succ i =>
    rw [ofIndex] at h
    split at h
    · next reference hget =>
      obtain rfl := Except.ok.inj h
      exact .inr (.inr (List.mem_of_getElem? hget))
    · simp at h

end BoxRef

/-! ## Application calls -/

namespace AppCall

theorem sized_of_ofWire? (hslots : ∀ slot ∈ slots, Value.SlotSized slot) {header : Header}
    (hheader : header.Sized) {c : AppCall} {boxes : Option (List (Nat × Bytes))}
    (hread : ofWire? header slots = some (c, boxes)) :
    c.Sized ∧ c.boxes = none ∧ ∀ places ∈ boxes, boxField.list.Fits places := by
  unfold ofWire? at hread
  split at hread
  · simp only [List.forall_mem_cons] at hslots
    obtain ⟨-, -, hapap, hapsu, -, -, -, hapaa, hapat, hapfa, hapas, hapbx, -⟩ := hslots
    obtain ⟨app, -, hread⟩ := Option.bind_eq_some_iff.mp hread
    obtain ⟨onComplete, -, hread⟩ := Option.bind_eq_some_iff.mp hread
    obtain ⟨approval, happroval, hread⟩ := Option.bind_eq_some_iff.mp hread
    obtain ⟨clear, hclear, hread⟩ := Option.bind_eq_some_iff.mp hread
    obtain ⟨globalSchema, -, hread⟩ := Option.bind_eq_some_iff.mp hread
    obtain ⟨localSchema, -, hread⟩ := Option.bind_eq_some_iff.mp hread
    obtain ⟨extraPages, -, hread⟩ := Option.bind_eq_some_iff.mp hread
    obtain ⟨args, hargs, hread⟩ := Option.bind_eq_some_iff.mp hread
    obtain ⟨accounts, haccounts, hread⟩ := Option.bind_eq_some_iff.mp hread
    obtain ⟨apps, happs, hread⟩ := Option.bind_eq_some_iff.mp hread
    obtain ⟨assets, hassets, hread⟩ := Option.bind_eq_some_iff.mp hread
    obtain ⟨places, hplaces, hread⟩ := Option.bind_eq_some_iff.mp hread
    obtain ⟨rfl, rfl⟩ := Prod.mk.inj (Option.some.inj hread)
    have hnumbers := bounded_number.list
    refine ⟨?_, rfl, bounded_box.list.optional hapbx hplaces⟩
    exact
      { header := hheader
        approval := FieldCodec.bounded_bytes.optional hapap happroval
        clear := FieldCodec.bounded_bytes.optional hapsu hclear
        args := FieldCodec.bounded_bytes.list.optional hapaa hargs
        accounts := fun as h => (bounded_address.list.optional hapat haccounts as h).1
        apps := fun as h => (hnumbers.optional hapfa happs as h).1
        assets := fun as h => (hnumbers.optional hapas hassets as h).1
        boxes := nofun }
  · simp at hread

theorem withBoxes_cases {c c' : AppCall} {places : Option (List (Nat × Bytes))}
    (h : c.withBoxes places = .ok c') :
    places = none ∧ c' = c ∨ ∃ ps boxes, places = some ps ∧ c' = { c with boxes := some boxes } ∧
      List.Forall₂ (fun placed box =>
        BoxRef.ofIndex (c.apps.getD []) placed.1 placed.2 = .ok box) ps boxes := by
  cases places with
  | none => exact .inl ⟨rfl, (Except.ok.inj h).symm⟩
  | some ps =>
    obtain ⟨boxes, hboxes, h⟩ := bind_eq_ok.mp h
    exact .inr ⟨ps, boxes, rfl, (Except.ok.inj h).symm, mapM_eq_ok.mp hboxes⟩

theorem listed_of_withBoxes {c c' : AppCall} (hnone : c.boxes = none)
    {places : Option (List (Nat × Bytes))} (h : c.withBoxes places = .ok c') :
    c'.BoxesListed := by
  rcases withBoxes_cases h with ⟨-, rfl⟩ | ⟨ps, boxes, -, rfl, hread⟩
  · simp [BoxesListed, hnone]
  · intro box hbox
    obtain ⟨placed, -, hplaced⟩ := exists_of_mem_right hread box hbox
    exact BoxRef.listed_of_ofIndex _ hplaced

theorem sized_of_withBoxes {c c' : AppCall} (hsized : c.Sized)
    {places : Option (List (Nat × Bytes))} (hplaces : ∀ ps ∈ places, boxField.list.Fits ps)
    (h : c.withBoxes places = .ok c') : c'.Sized := by
  rcases withBoxes_cases h with ⟨-, rfl⟩ | ⟨ps, boxes, rfl, rfl, hread⟩
  · exact hsized
  · obtain ⟨hcount, hnames⟩ := hplaces ps rfl
    refine { hsized with boxes := ?_ }
    rintro _ ⟨⟩
    refine ⟨hread.length_eq ▸ hcount, fun box hbox => ?_⟩
    obtain ⟨placed, hplaced, hindex⟩ := exists_of_mem_right hread box hbox
    rw [BoxRef.name_of_ofIndex hindex]
    exact (hnames placed hplaced).2

end AppCall

/-! ## Transactions -/

namespace Transaction

variable {t : Transaction} {b : Bytes}

theorem sized_of_splitFields? (hv : v.Sized) {own : List String} {header : Header}
    {rest : List (Option Value)} (h : splitFields? own v = some (header, rest)) :
    header.Sized ∧ ∀ slot ∈ rest, Value.SlotSized slot := by
  obtain ⟨fields, hfields, h⟩ := Option.bind_eq_some_iff.mp h
  obtain ⟨_, hheader, h⟩ := Option.bind_eq_some_iff.mp h
  obtain ⟨rfl, rfl⟩ := Prod.mk.inj (Option.some.inj h)
  have hslots := Value.slotSized_of_namedFields? hv hfields
  refine ⟨Header.sized_of_ofWire? (fun slot hslot => ?_) hheader, fun slot hslot => ?_⟩
  · exact hslots slot (List.mem_of_mem_drop (List.mem_of_mem_take hslot))
  · exact hslots slot (List.mem_of_mem_drop hslot)

theorem ofWire_cases (h : ofWire v = .ok t) :
    (∃ header rest p, splitFields? Payment.wireNames v = some (header, rest) ∧
      Payment.ofWire? header rest = some p ∧ t = .payment p) ∨
    ∃ header rest c places c', splitFields? AppCall.wireNames v = some (header, rest) ∧
      AppCall.ofWire? header rest = some (c, places) ∧ c.withBoxes places = .ok c' ∧
      t = .appCall c' := by
  unfold ofWire at h
  split at h
  · simp at h
  · split at h
    · next p hread =>
      obtain ⟨⟨header, rest⟩, hsplit, hread⟩ := Option.bind_eq_some_iff.mp hread
      exact .inl ⟨header, rest, p, hsplit, hread, (Except.ok.inj h).symm⟩
    · simp at h
  · split at h
    · next c places hread =>
      obtain ⟨⟨header, rest⟩, hsplit, hread⟩ := Option.bind_eq_some_iff.mp hread
      obtain ⟨c', hboxes, rfl⟩ := map_eq_ok.mp h
      exact .inr ⟨header, rest, c, places, c', hsplit, hread, hboxes, rfl⟩
    · simp at h

theorem sized_of_ofWire (hv : v.Sized) (h : ofWire v = .ok t) : t.Sized ∧ t.BoxesListed := by
  obtain ⟨header, rest, p, hsplit, hread, rfl⟩ |
    ⟨header, rest, c, places, c', hsplit, hread, hboxes, rfl⟩ := ofWire_cases h
  · obtain ⟨hheader, -⟩ := sized_of_splitFields? hv hsplit
    refine ⟨?_, trivial⟩
    rw [Sized, Payment.header_of_ofWire? hread]
    exact hheader
  · obtain ⟨hheader, hslots⟩ := sized_of_splitFields? hv hsplit
    obtain ⟨hsized, hnone, hplaces⟩ := AppCall.sized_of_ofWire? hslots hheader hread
    exact ⟨AppCall.sized_of_withBoxes hsized hplaces hboxes,
      AppCall.listed_of_withBoxes hnone hboxes⟩

theorem sized_of_decode (h : decode b = .ok t) : t.Sized ∧ t.BoxesListed := by
  rw [decode] at h
  split at h
  · simp at h
  · dsimp only at h
    split at h
    · next v hv => exact sized_of_ofWire (sized_of_decode? hv) h
    · simp at h

end Transaction

/-! ## Signatures -/

namespace Msgpack.FieldCodec

variable {α : Type} {f : FieldCodec α}

theorem Bounded.listOrBytes (hf : f.Bounded) : f.listOrBytes.Bounded := by
  intro v as hv h
  by_cases hbytes : ∃ b, v = .bytes b
  · obtain ⟨b, rfl⟩ := hbytes
    simp only [FieldCodec.listOrBytes, Value.listOrBytes?] at h
    split at h
    · obtain rfl := Option.some.inj h
      exact ⟨(by decide : 0 < UInt32.size), nofun⟩
    · simp at h
  · have hlist : f.listOrBytes.read? v = f.list.read? v := by
      cases v with
      | bytes b => exact absurd ⟨b, rfl⟩ hbytes
      | nil | bool | uint | sint | float | ext | text | array | map => rfl
    exact hf.list hv (hlist ▸ h)

end Msgpack.FieldCodec

theorem bounded_subsignature : subsignatureField.Bounded := fun _ _ _ _ => trivial

theorem bounded_multisig : multisigField.Bounded := by
  intro v m hv h
  obtain ⟨slots, hfields, h⟩ := Option.bind_eq_some_iff.mp h
  have hslots := Value.slotSized_of_fields? hv hfields
  split at h
  · simp only [List.forall_mem_cons] at hslots
    obtain ⟨-, -, hsubsig, -⟩ := hslots
    obtain ⟨version, -, h⟩ := Option.bind_eq_some_iff.mp h
    obtain ⟨threshold, -, h⟩ := Option.bind_eq_some_iff.mp h
    obtain ⟨subsignatures, hread, h⟩ := Option.bind_eq_some_iff.mp h
    obtain rfl := Option.some.inj h
    exact (bounded_subsignature.listOrBytes (hsubsig _ rfl) hread).1
  · simp at h

theorem LogicSig.sized_of_ofWire? (hv : v.Sized) {l : LogicSig} (h : ofWire? v = some l) :
    l.Sized := by
  obtain ⟨slots, hfields, h⟩ := Option.bind_eq_some_iff.mp h
  have hslots := Value.slotSized_of_fields? hv hfields
  split at h
  · simp only [List.forall_mem_cons] at hslots
    obtain ⟨hl, harg, -, hmsig, -⟩ := hslots
    obtain ⟨logic, hlogic, h⟩ := Option.bind_eq_some_iff.mp h
    obtain ⟨args, hargs, h⟩ := Option.bind_eq_some_iff.mp h
    obtain ⟨signature, -, h⟩ := Option.bind_eq_some_iff.mp h
    obtain ⟨multisig, hmultisig, h⟩ := Option.bind_eq_some_iff.mp h
    obtain rfl := Option.some.inj h
    exact
      { logic := FieldCodec.bounded_bytes (hl _ rfl) hlogic
        args := FieldCodec.bounded_bytes.listOrBytes.optional harg hargs
        multisig := bounded_multisig.optional hmsig hmultisig }
  · simp at h

theorem Authorization.sized_of_ofWire? (hv : v.Sized) {a : Authorization}
    (h : ofWire? v = some a) : (∀ m ∈ a.multisig, m.Sized) ∧ ∀ l ∈ a.logicSig, l.Sized := by
  obtain ⟨slots, hfields, h⟩ := Option.bind_eq_some_iff.mp h
  have hslots := Value.slotSized_of_fields? hv hfields
  split at h
  · simp only [List.forall_mem_cons] at hslots
    obtain ⟨-, hmsig, hlsig, -⟩ := hslots
    obtain ⟨signature, -, h⟩ := Option.bind_eq_some_iff.mp h
    obtain ⟨multisig, hmultisig, h⟩ := Option.bind_eq_some_iff.mp h
    obtain ⟨logicSig, hlogicSig, h⟩ := Option.bind_eq_some_iff.mp h
    obtain ⟨authAddress, -, h⟩ := Option.bind_eq_some_iff.mp h
    obtain rfl := Option.some.inj h
    refine ⟨bounded_multisig.optional hmsig hmultisig, ?_⟩
    rintro l rfl
    obtain ⟨w, rfl, hread⟩ := Value.exists_of_optional? hlogicSig
    exact LogicSig.sized_of_ofWire? (hlsig w rfl) hread
  · simp at h

/-! ## Signed transactions -/

namespace SignedTransaction

variable {s : SignedTransaction} {b : Bytes}

theorem decode_cases (h : decode b = .ok s) :
    ∃ entries inner authorization t, decode? b = some (.map entries) ∧
      entry? "txn" entries = some inner ∧
      Authorization.ofWire? (.map entries) = some authorization ∧
      Transaction.decode inner.encode = .ok t ∧ s = { authorization with transaction := t } := by
  rw [decode] at h
  split at h
  · exact absurd h throw_ne_ok
  · next entries hread =>
    split at h
    · exact absurd h throw_ne_ok
    · next inner hinner =>
      split at h
      · exact absurd h throw_ne_ok
      · next authorization hauthorization =>
        obtain ⟨t, ht, h⟩ := bind_eq_ok.mp h
        exact ⟨entries, inner, authorization, t, hread, hinner, hauthorization, ht,
          (Except.ok.inj h).symm⟩
  · exact absurd h throw_ne_ok

theorem sized_of_decode (h : decode b = .ok s) : s.Sized ∧ s.transaction.BoxesListed := by
  obtain ⟨entries, inner, authorization, t, hread, -, hauthorization, ht, rfl⟩ := decode_cases h
  obtain ⟨hsized, hlisted⟩ := Transaction.sized_of_decode ht
  obtain ⟨hmultisig, hlogicSig⟩ :=
    Authorization.sized_of_ofWire? (sized_of_decode? hread) hauthorization
  exact ⟨⟨hsized, hmultisig, hlogicSig⟩, hlisted⟩

end SignedTransaction

/-! ## Every sequence of bytes -/

/-- The place that a box is given is that of the same application, which may be an earlier one if
the application is listed twice. -/
theorem BoxRef.exists_appIndex (app : UInt64) {references : List UInt64} {place : Nat}
    {name : Bytes} {box : BoxRef} (h : ofIndex references place name = .ok box) :
    ∃ i, box.appIndex app references = .ok i ∧
      ofIndex references i box.name = .ok (box.norm app) := by
  have hlisted := listed_of_ofIndex app h
  exact ⟨_, appIndex_of_listed hlisted, ofIndex_place hlisted⟩

theorem Transaction.reencodes_of_decode {t : Transaction} {b : Bytes} (h : decode b = .ok t) :
    ∃ c, t.encode = .ok c ∧ decode c = .ok t.norm := by
  obtain ⟨hsized, hlisted⟩ := sized_of_decode h
  obtain ⟨c, hc⟩ := exists_encode hlisted
  exact ⟨c, hc, decode_of_encode hsized hc⟩

theorem SignedTransaction.reencodes_of_decode {s : SignedTransaction} {b : Bytes}
    (h : decode b = .ok s) : ∃ c, s.encode = .ok c ∧ decode c = .ok s.norm := by
  obtain ⟨hsized, hlisted⟩ := sized_of_decode h
  obtain ⟨c, hc⟩ := exists_encode hlisted
  exact ⟨c, hc, decode_of_encode hsized hc⟩

end AppLedger
