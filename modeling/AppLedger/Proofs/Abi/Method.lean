import AppLedger.Abi.Method
import AppLedger.Proofs.Abi.RoundTrip

/-! The values in the slots of a call, which are those that were packed into them. -/

namespace AppLedger.Abi.Method

/-- Takes the values out of the slots again. Those after the fourteenth share the last slot when
they are more than the slots. -/
def decodeArgs? (types : List Ty) (slots : List Bytes) : Option (List Value) :=
  if types.length ≤ maxSlots then
    if slots.length = types.length then (Ty.decodeItems types slots).toOption else none
  else
    let split := maxSlots - 1
    match slots.drop split with
    | [last] => do
      let values ← (Ty.decodeItems (types.take split) (slots.take split)).toOption
      let shared ← ((Ty.tuple (types.drop split)).decode last).toOption
      return values ++ (← shared.items?)
    | _ => none

theorem decodeItems_encodeEach {types : List Ty} {values : List Value} {slots : List Bytes}
    (hlen : types.length = values.length) (h : encodeEach types values = .ok slots) :
    slots.length = types.length ∧
      Ty.decodeItems types slots = .ok (values.map Value.canonical) := by
  induction types generalizing values slots with
  | nil =>
    obtain rfl := List.length_eq_zero_iff.mp hlen.symm
    obtain rfl := Except.ok.inj h
    exact ⟨rfl, rfl⟩
  | cons ty types ih =>
    cases values with
    | nil => simp at hlen
    | cons v values =>
      obtain ⟨b, hb, h⟩ := bind_eq_ok.mp h
      obtain ⟨rest, hrest, h⟩ := bind_eq_ok.mp h
      obtain rfl := Except.ok.inj h
      obtain ⟨hcount, hdecode⟩ := ih (by simpa using hlen) hrest
      refine ⟨by rw [List.length_cons, hcount, List.length_cons], ?_⟩
      rw [Ty.decodeItems, (Ty.restores_of_encode hb).1, hdecode]
      rfl

/-- The slots are filled one for each value, or the last of fifteen takes the values after the
fourteenth. -/
theorem encodeArgs_eq_ok {types : List Ty} {values : List Value} {slots : List Bytes}
    (h : encodeArgs types values = .ok slots) :
    types.length = values.length ∧
      (types.length ≤ 15 ∧ encodeEach types values = .ok slots ∨
        15 < types.length ∧ ∃ front last,
          encodeEach (types.take 14) (values.take 14) = .ok front ∧ front.length = 14 ∧
          (Ty.tuple (types.drop 14)).encode (.array (values.drop 14)) = .ok last ∧
          slots = front ++ [last]) := by
  unfold encodeArgs at h
  by_cases hlen : types.length = values.length
  · rw [if_neg (not_not.mpr hlen)] at h
    refine ⟨hlen, ?_⟩
    by_cases hfew : types.length ≤ maxSlots
    · simp only [hfew, if_true] at h
      exact .inl ⟨hfew, h⟩
    · simp only [hfew, if_false] at h
      have hmany : 15 < types.length := Nat.lt_of_not_le hfew
      obtain ⟨front, hfront, h⟩ := bind_eq_ok.mp h
      obtain ⟨last, hlast, h⟩ := bind_eq_ok.mp h
      have hsplit : (types.take 14).length = (values.take 14).length := by simp [hlen]
      have hcount : front.length = 14 := by
        rw [(decodeItems_encodeEach hsplit hfront).1, List.length_take]
        omega
      exact .inr ⟨hmany, front, last, hfront, hcount, hlast,
        (Except.ok.inj h).symm⟩
  · rw [if_pos hlen] at h
    exact absurd h throw_bind_ne_ok

theorem decodeArgs?_encodeArgs {types : List Ty} {values : List Value} {slots : List Bytes}
    (h : encodeArgs types values = .ok slots) :
    decodeArgs? types slots = some (values.map Value.canonical) := by
  obtain ⟨hlen, ⟨hfew, hslots⟩ | ⟨hmany, front, last, hfront, hcount, hlast, rfl⟩⟩ :=
    encodeArgs_eq_ok h
  · have hslotwise : types.length ≤ maxSlots := hfew
    obtain ⟨hcount, hdecode⟩ := decodeItems_encodeEach hlen hslots
    rw [decodeArgs?, if_pos hslotwise, if_pos hcount, hdecode]
    rfl
  · have hshared : ¬ types.length ≤ maxSlots := Nat.not_le_of_lt hmany
    have hsplit : (types.take 14).length = (values.take 14).length := by simp [hlen]
    have hdecode := (decodeItems_encodeEach hsplit hfront).2
    have htuple := (Ty.restores_of_encode hlast).1
    rw [decodeArgs?, if_neg hshared]
    have hfourteen : maxSlots - 1 = front.length := hcount.symm
    rw [← hcount] at hdecode htuple
    simp only [hfourteen, List.drop_left, List.take_left, hdecode, htuple, Except.toOption,
      Option.bind_eq_bind, Option.bind_some, Value.canonical, Value.items?, Option.pure_def,
      Value.canonicalItems_eq_map, ← List.map_append, List.take_append_drop]

/-! ## Slot by slot -/

/-- The slot at the place holds the value there, at the type there. -/
def HoldsAt (types : List Ty) (values : List Value) (slots : List Bytes) (i : Nat) : Prop :=
  ∃ ty v slot, types[i]? = some ty ∧ values[i]? = some v ∧ slots[i]? = some slot ∧
    ty.decode slot = .ok v.canonical

theorem holdsAt_of_encodeEach {types : List Ty} {values : List Value} {slots : List Bytes}
    (hlen : types.length = values.length) (h : encodeEach types values = .ok slots) :
    ∀ i < types.length, HoldsAt types values slots i := by
  induction types generalizing values slots with
  | nil => exact nofun
  | cons ty types ih =>
    cases values with
    | nil => simp at hlen
    | cons v values =>
      obtain ⟨slot, hslot, h⟩ := bind_eq_ok.mp h
      obtain ⟨rest, hrest, h⟩ := bind_eq_ok.mp h
      obtain rfl := Except.ok.inj h
      intro i hi
      cases i with
      | zero => exact ⟨ty, v, slot, rfl, rfl, rfl, (Ty.restores_of_encode hslot).1⟩
      | succ i => exact ih (Nat.succ.inj hlen) hrest i (Nat.lt_of_succ_lt_succ hi)

theorem HoldsAt.append {types : List Ty} {values : List Value} {front back : List Bytes} {i n : Nat}
    (h : HoldsAt (types.take n) (values.take n) front i) (hi : i < n) :
    HoldsAt types values (front ++ back) i := by
  obtain ⟨ty, v, slot, hty, hv, hslot, hdecode⟩ := h
  rw [List.getElem?_take_of_lt hi] at hty hv
  refine ⟨ty, v, slot, hty, hv, ?_, hdecode⟩
  rw [List.getElem?_append_left (List.getElem?_eq_some_iff.mp hslot).1, hslot]

/-- Up to fifteen values have a slot each. Of more than that the first fourteen have one each, and
the others are the items of a tuple in the last slot. -/
theorem holds_encodeArgs (types : List Ty) (values : List Value) :
    (types.length ≠ values.length → encodeArgs types values =
        .error (.unencodable (.methodArity types.length values.length))) ∧
      ∀ slots, encodeArgs types values = .ok slots →
        slots.length = min types.length 15 ∧
        (types.length ≤ 15 → ∀ i < types.length, HoldsAt types values slots i) ∧
        (15 < types.length → (∀ i < 14, HoldsAt types values slots i) ∧
          ∃ last, slots[14]? = some last ∧ (Ty.tuple (types.drop 14)).decode last =
            .ok (.array ((values.drop 14).map Value.canonical))) := by
  refine ⟨fun hlen => ?_, fun slots h => ?_⟩
  · rw [encodeArgs, if_pos hlen]
    rfl
  obtain ⟨hlen, ⟨hfew, hslots⟩ | ⟨hmany, front, last, hfront, hcount, hlast, rfl⟩⟩ :=
    encodeArgs_eq_ok h
  · have hcount := (decodeItems_encodeEach hlen hslots).1
    exact ⟨by omega, fun _ => holdsAt_of_encodeEach hlen hslots, fun hmany => by omega⟩
  · have hsplit : (types.take 14).length = (values.take 14).length := by
      rw [List.length_take, List.length_take, hlen]
    have hheld := holdsAt_of_encodeEach hsplit hfront
    have htuple := (Ty.restores_of_encode hlast).1
    rw [Value.canonical, Value.canonicalItems_eq_map] at htuple
    refine ⟨?_, fun hfew => by omega, fun _ => ⟨fun i hi => ?_, last, ?_, htuple⟩⟩
    · rw [List.length_append, hcount, List.length_singleton]
      omega
    · refine (hheld i ?_).append hi
      rw [List.length_take]
      omega
    · rw [List.getElem?_append_right (by omega), hcount]
      rfl

/-- Fifteen booleans have fifteen slots. With a boolean and a text more, the last two booleans are
bits of one byte of the last slot, and the text follows. -/
theorem holds_encodeArgs_shared :
    let types : List Ty := List.replicate 16 .bool ++ [.string]
    let values : List Value := List.replicate 16 (.bool true) ++ [.string "A"]
    let each : List Bytes := List.replicate 15 [0x80]
    let shared : Bytes := [0xC0, 0, 3, 0, 1, 0x41]
    let slots : List Bytes := List.replicate 14 [0x80] ++ [shared]
    encodeArgs (types.take 15) (values.take 15) = .ok each ∧
      HoldsAt (types.take 15) (values.take 15) each 14 ∧
      encodeArgs types values = .ok slots ∧ slots.length = 15 ∧ HoldsAt types values slots 13 ∧
      (Ty.tuple [.bool, .bool, .string]).decode shared =
        .ok (.array [.bool true, .bool true, .string "A"]) ∧
      encodeArgs types (values.take 15) = .error (.unencodable (.methodArity 17 15)) := by
  intro types values each shared slots
  have heach : encodeArgs (types.take 15) (values.take 15) = .ok each := rfl
  have hslots : encodeArgs types values = .ok slots := rfl
  obtain ⟨-, hfew, -⟩ := (holds_encodeArgs (types.take 15) (values.take 15)).2 each heach
  obtain ⟨hcount, -, hmany⟩ := (holds_encodeArgs types values).2 slots hslots
  obtain ⟨hown, last, hlast, hdecode⟩ := hmany (by decide)
  obtain rfl : shared = last := Option.some.inj hlast
  exact ⟨heach, hfew (by decide) 14 (by decide), hslots, hcount, hown 13 (by decide), hdecode,
    (holds_encodeArgs types (values.take 15)).1 (by decide)⟩

end AppLedger.Abi.Method
