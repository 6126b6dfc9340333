import AppLedger.Proofs.Transaction.Size

/-! The fee that is assigned to a transaction. It pays for the bytes that the transaction had before,
which the fee is not among: what the fee adds to the size is paid for only if the minimum or the
extra fee leaves enough over. -/

namespace AppLedger.Transaction

open Msgpack Wire

variable {t u : Transaction} {params : FeeParams}

/-- The bytes of the field of a fee: its name and the number. Zero is left out. -/
def feeLength (fee : UInt64) : Nat :=
  if fee = 0 then 0 else 4 + (uintBytes fee.toNat).length

/-- The bytes of the map that depend on the fee: those of its field, and those of the number of
fields in front. -/
def feeRoom (t : Transaction) : Nat :=
  feeLength (t.header.fee.getD 0) + (mapHeader t.entries.length).length

theorem fieldsLength_fee (fee : Option UInt64) :
    fieldsLength (entry "fee" (fee.bind FieldCodec.number.slot)) = feeLength (fee.getD 0) := by
  have hname : (Value.text "fee").encode.length = 4 := by decide
  cases fee with
  | none => rfl
  | some fee =>
    rw [Option.bind_some, Option.getD_some, FieldCodec.slot, feeLength]
    by_cases hzero : fee = 0
    · subst hzero
      rfl
    · have hempty : FieldCodec.number.empty fee = false := beq_false_of_ne hzero
      have hvalue : (FieldCodec.number.value fee).sorted.encode = uintBytes fee.toNat := rfl
      rw [hempty, if_neg hzero]
      simp [entry, fieldsLength, entriesLength, hname, hvalue]

theorem feeLength_le (fee : UInt64) : feeLength fee ≤ 13 := by
  have hle := length_uintBytes_le fee.toNat
  rw [feeLength]
  split <;> omega

theorem exists_names (k : Kind) : ∃ names, k.names = "type" :: "snd" :: "fee" :: names := by
  cases k <;> exact ⟨_, rfl⟩

theorem slots_withFee (t : Transaction) (fee : Option UInt64) :
    (t.withHeader { t.header with fee }).slots =
      some t.kind.wire :: addressField.slot t.header.sender ::
        fee.bind FieldCodec.number.slot :: t.slots.drop 3 := by
  cases t <;> rfl

theorem kind_withHeader (t : Transaction) (h : Header) : (t.withHeader h).kind = t.kind := by
  cases t <;> rfl

/-- The fields before and after the fee are the same, whatever the fee is. -/
theorem exists_entries_withFee (t : Transaction) : ∃ before after, ∀ fee : Option UInt64,
    (t.withHeader { t.header with fee }).entries =
      before ++ (entry "fee" (fee.bind FieldCodec.number.slot) ++ after) := by
  obtain ⟨names, hnames⟩ := exists_names t.kind
  refine ⟨entry "type" (some t.kind.wire) ++ entry "snd" (addressField.slot t.header.sender),
    entriesOf names (t.slots.drop 3), fun fee => ?_⟩
  rw [entries, kind_withHeader, hnames, slots_withFee, entriesOf_cons, entriesOf_cons,
    entriesOf_cons, List.append_assoc]

theorem withHeader_header (t : Transaction) : t.withHeader t.header = t := by
  cases t <;> rfl

theorem fee_withFee (t : Transaction) (fee : UInt64) :
    (t.withFee fee).header.fee = some fee := by
  cases t <;> rfl

theorem listed_withFee (fee : UInt64) (h : t.BoxesListed) : (t.withFee fee).BoxesListed := by
  cases t with
  | payment p => trivial
  | appCall c => exact h

/-- Two sizes of a transaction differ by what its fees need. -/
theorem length_add_feeRoom (t : Transaction) (fee : UInt64) :
    (t.withFee fee).sortedWire.encode.length + t.feeRoom =
      t.sortedWire.encode.length + (t.withFee fee).feeRoom := by
  obtain ⟨before, after, hentries⟩ := t.exists_entries_withFee
  have hfields : ∀ fee, fieldsLength (t.withHeader { t.header with fee }).entries =
      fieldsLength before + (feeLength (fee.getD 0) + fieldsLength after) := by
    intro fee
    rw [hentries, fieldsLength_append, fieldsLength_append, fieldsLength_fee]
  have hbefore := hfields t.header.fee
  have hafter : fieldsLength (t.withFee fee).entries = _ := hfields (some fee)
  -- The transaction is one that was given a fee, namely its own.
  have hself : t.withHeader { t.header with fee := t.header.fee } = t := t.withHeader_header
  rw [hself] at hbefore
  rw [length_sortedWire, length_sortedWire, feeRoom, feeRoom, fee_withFee, hbefore, hafter]
  omega

theorem length_entries_lt (t : Transaction) : t.entries.length < UInt16.size := by
  have hle : (keys t.entries).length ≤ t.kind.names.length :=
    (keys_entriesOf_sublist _ _).length_le
  have hnames : t.kind.names.length < UInt16.size := by
    cases t.kind <;> decide
  have hkeys : (keys t.entries).length = t.entries.length := List.length_map _
  omega

theorem feeRoom_withFee_le (t : Transaction) (fee : UInt64) :
    (t.withFee fee).feeRoom ≤ t.feeRoom + 15 := by
  have hheader : ∀ t : Transaction,
      1 ≤ (mapHeader t.entries.length).length ∧ (mapHeader t.entries.length).length ≤ 3 := by
    intro t
    rw [length_mapHeader t.length_entries_lt]
    split <;> omega
  have hfee := feeLength_le ((t.withFee fee).header.fee.getD 0)
  have hbefore := hheader t
  have hafter := hheader (t.withFee fee)
  rw [feeRoom, feeRoom]
  omega

theorem fee_eq {size : Nat} (h : t.estimateSize = .ok size) :
    t.fee params = .ok (max (params.feePerByte.toNat * size) params.minFee.toNat +
      (params.extraFee.getD 0).toNat) := by
  rw [fee]
  by_cases hfree : params.feePerByte = 0
  · rw [if_pos hfree, hfree, UInt64.toNat_zero, Nat.zero_mul]
    rfl
  · rw [if_neg hfree, h]
    rfl

theorem assignFee_eq_ok : t.assignFee params = .ok u ↔ ∃ fee, t.fee params = .ok fee ∧
    (∀ most ∈ params.maxFee, fee ≤ most.toNat) ∧ u = t.withFee (UInt64.ofNat fee) := by
  rw [assignFee, bind_eq_ok]
  refine exists_congr fun fee => and_congr_right fun _ => ?_
  cases params.maxFee with
  | none => simp [pure, Except.pure, eq_comm]
  | some most =>
    simp only [Option.mem_some_iff, forall_eq']
    by_cases hhigh : most.toNat < fee
    · simp only [if_pos hhigh]
      exact iff_of_false throw_bind_ne_ok fun h => Nat.not_le.mpr hhigh h.1
    · simp only [if_neg hhigh]
      exact ⟨fun h => ⟨Nat.not_lt.mp hhigh, (Except.ok.inj h).symm⟩, fun h => h.2 ▸ rfl⟩

theorem price_le_iff {size size' room room' : Nat} (h : size' + room = size + room')
    (price least extra : Nat) :
    price * size' ≤ max (price * size) least + extra ↔
      price * (room' - room) ≤ (least - price * size) + extra := by
  obtain hle | hle := Nat.le_total room room'
  · have hsize : size' = size + (room' - room) := by omega
    rw [hsize, Nat.mul_add]
    omega
  · have hroom : room' - room = 0 := by omega
    have hprice : price * size' ≤ price * size := Nat.mul_le_mul_left _ (by omega)
    rw [hroom]
    omega

/-- The fee is the price of the size before, or the minimum, with the extra fee on top, and no more
than the highest fee. It pays for the size of the transaction that carries it exactly when what the
fee needs more than the fee before costs no more than what the minimum and the extra fee leave
over. -/
theorem assignFee_covers_iff {b : Bytes} (hb : t.encode = .ok b) (hu : t.assignFee params = .ok u)
    (hfit : ∀ fee, t.fee params = .ok fee → fee < UInt64.size) :
    ∃ (fee : UInt64) (size size' : Nat), u = t.withFee fee ∧
      t.estimateSize = .ok size ∧ u.estimateSize = .ok size' ∧
      size' + t.feeRoom = size + u.feeRoom ∧ u.feeRoom ≤ t.feeRoom + 15 ∧
      fee.toNat = max (params.feePerByte.toNat * size) params.minFee.toNat +
        (params.extraFee.getD 0).toNat ∧
      params.minFee.toNat + (params.extraFee.getD 0).toNat ≤ fee.toNat ∧
      (∀ most ∈ params.maxFee, fee ≤ most) ∧
      (params.feePerByte.toNat * size' ≤ fee.toNat ↔
        params.feePerByte.toNat * (u.feeRoom - t.feeRoom) ≤
          (params.minFee.toNat - params.feePerByte.toNat * size) +
            (params.extraFee.getD 0).toNat) := by
  have hlisted := listed_of_encode hb
  have hsize := estimateSize_of_listed hlisted
  obtain ⟨n, hn, hmost, rfl⟩ := assignFee_eq_ok.mp hu
  have hn' := Except.ok.inj (hn.symm.trans (fee_eq hsize))
  have htoNat : (UInt64.ofNat n).toNat = n := UInt64.toNat_ofNat_of_lt' (hfit n hn)
  have hroom : (t.withFee (.ofNat n)).sortedWire.encode.length + signatureSize + t.feeRoom =
      t.sortedWire.encode.length + signatureSize + (t.withFee (.ofNat n)).feeRoom := by
    have hlength := t.length_add_feeRoom (.ofNat n)
    omega
  have hcovers := price_le_iff hroom params.feePerByte.toNat params.minFee.toNat
    (params.extraFee.getD 0).toNat
  rw [← hn'] at hcovers
  refine ⟨_, _, _, rfl, hsize, estimateSize_of_listed (listed_withFee _ hlisted), hroom,
    t.feeRoom_withFee_le _, htoNat.trans hn', by omega, fun most hmem => ?_, ?_⟩
  · rw [UInt64.le_iff_toNat_le, htoNat]
    exact hmost most hmem
  · rw [htoNat]
    exact hcovers

/-- An extra fee that is what the bytes of the fee cost. -/
theorem assignFee_covers_iff_extraFee :
    let header : Header :=
      { sender := ⟨⟨.replicate 32 1, rfl⟩⟩, firstValid := 1, lastValid := 9 }
    let t : Transaction :=
      .payment { header, receiver := ⟨⟨.replicate 32 2, rfl⟩⟩, amount := 5 }
    let params : FeeParams := { feePerByte := 1, extraFee := some 6, maxFee := some 180 }
    let u := t.withFee 180
    (∃ b, t.encode = .ok b) ∧ t.assignFee params = .ok u ∧
      (∀ fee, t.fee params = .ok fee → fee < UInt64.size) ∧
      t.feeRoom = 1 ∧ u.feeRoom = 7 ∧
      ∃ fee size size' : Nat, t.estimateSize = .ok size ∧ u.estimateSize = .ok size' ∧
        u.header.fee.map UInt64.toNat = some fee ∧ size' = size + 6 ∧
        params.feePerByte.toNat * size' ≤ fee ∧ fee ≤ 180 := by
  intro header t params u
  have hb := encode_of_listed (t := t) trivial
  have hprice : t.estimateSize = .ok 174 := by decide
  have hfee : t.fee params = .ok 180 := by simp [fee_eq hprice, params]
  have hu : t.assignFee params = .ok u :=
    assignFee_eq_ok.mpr ⟨180, hfee, by simp [params], rfl⟩
  have hfit : ∀ fee, t.fee params = .ok fee → fee < UInt64.size := by
    intro fee h
    obtain rfl := Except.ok.inj (hfee.symm.trans h)
    decide
  have hbefore : t.feeRoom = 1 := rfl
  have hafter : u.feeRoom = 7 := rfl
  obtain ⟨fee, size, size', heq, hsize, hsize', hroom, -, -, -, hmost, hcovers⟩ :=
    assignFee_covers_iff hb hu hfit
  rw [hbefore, hafter] at hroom hcovers
  refine ⟨⟨_, hb⟩, hu, hfit, hbefore, hafter, fee.toNat, size, size', hsize, hsize', ?_, by omega,
    hcovers.mpr (by simp [params]), UInt64.le_iff_toNat_le.mp (hmost 180 rfl)⟩
  rw [heq, fee_withFee, Option.map_some]

/-- The bytes of the fee are not paid for: a payment of 180 bytes has a fee of 174. -/
theorem assignFee_short :
    let header : Header :=
      { sender := ⟨⟨.replicate 32 1, rfl⟩⟩, firstValid := 1, lastValid := 9 }
    let t : Transaction :=
      .payment { header, receiver := ⟨⟨.replicate 32 2, rfl⟩⟩, amount := 5 }
    let params : FeeParams := { feePerByte := 1, maxFee := some 174 }
    (∃ b, t.encode = .ok b) ∧ t.estimateSize = .ok 174 ∧
      t.assignFee params = .ok (t.withFee 174) ∧ (t.withFee 174).estimateSize = .ok 180 ∧
      ¬ params.feePerByte.toNat * 180 ≤ 174 := by
  intro header t params
  have hsize : t.estimateSize = .ok 174 := by decide
  have hfee : t.fee params = .ok 174 := by simp [fee_eq hsize, params]
  have hassigned : t.assignFee params = .ok (t.withFee 174) :=
    assignFee_eq_ok.mpr ⟨174, hfee, by simp [params], rfl⟩
  have hsize' : (t.withFee 174).estimateSize = .ok 180 := by decide
  exact ⟨⟨_, encode_of_listed trivial⟩, hsize, hassigned, hsize', by simp [params]⟩

end AppLedger.Transaction
