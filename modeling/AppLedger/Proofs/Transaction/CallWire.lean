import AppLedger.Proofs.Transaction.Box

/-! The map of an application call as slots under the names of its fields, and how those are read.
It can be written where the applications of all boxes have a place. -/

namespace AppLedger

open Msgpack Wire

namespace StateSchema

def names : List String := ["nui", "nbs"]

def slots (schema : StateSchema) : List (Option Value) :=
  [FieldCodec.number.slot schema.uints, FieldCodec.number.slot schema.byteSlices]

theorem wireFields_eq (schema : StateSchema) :
    schema.wireFields = entriesOf names schema.slots := by
  simp only [names, slots, entriesOf_cons, entriesOf_nil, ← field_eq, wireFields, List.append_nil]
  rfl

theorem ofWire?_sorted (schema : StateSchema) :
    ofWire? (Value.ofFields schema.wireFields).sorted = some schema := by
  have hfields : (Value.ofFields schema.wireFields).sorted.fields? .outer ["nui", "nbs"] =
      some (schema.slots.map (Option.map Value.sorted)) := by
    rw [wireFields_eq]
    exact Value.fields?_sorted .outer (by decide) rfl
  rw [ofWire?, hfields]
  simp only [slots, List.map_cons, List.map_nil, Option.bind_eq_bind, Option.bind_some,
    FieldCodec.uint64?_eq]
  rw [FieldCodec.number.withDefault?_slot eq_zero_of_number trivial,
    FieldCodec.number.withDefault?_slot eq_zero_of_number trivial]
  rfl

theorem legible (schema : StateSchema) (depth : Nat) :
    (Value.ofFields schema.wireFields).sorted.Legible (depth + 1) := by
  rw [wireFields_eq]
  refine Value.legible_sorted (by decide) rfl (by decide) (by decide) ?_
  simp only [slots, List.forall_mem_cons, List.not_mem_nil]
  exact ⟨FieldCodec.number.slotLegible_slot trivial (Nat.zero_le _),
    FieldCodec.number.slotLegible_slot trivial (Nat.zero_le _), nofun⟩

end StateSchema

def schemaField : FieldCodec StateSchema where
  empty schema := schema.isEmpty
  value schema := .ofFields schema.wireFields
  read? := StateSchema.ofWire?
  Fits _ := True
  height := 1
  read?_value schema _ := schema.ofWire?_sorted
  value_ne_nil _ := nofun
  legible schema depth _ hdepth := by
    obtain ⟨depth, rfl⟩ : ∃ d, depth = d + 1 := ⟨depth - 1, by omega⟩
    exact schema.legible depth

def onCompleteField : FieldCodec OnComplete where
  empty oc := oc == .noOp
  value oc := .ofNat oc.code
  read? v := (v.natBelow? 256).bind OnComplete.ofCode?
  Fits _ := True
  height := 0
  read?_value oc _ := by cases oc <;> rfl
  value_ne_nil _ := nofun
  legible oc _ _ _ := .number (by cases oc <;> decide)

theorem onComplete?_eq : (fun v : Value => (v.natBelow? 256).bind OnComplete.ofCode?) =
    onCompleteField.read? := rfl

theorem schema?_eq : StateSchema.ofWire? = schemaField.read? := rfl

theorem box?_eq : BoxRef.ofWire? = boxField.read? := rfl

theorem eq_noOp_of_empty {oc : OnComplete} (h : onCompleteField.empty oc = true) : oc = .noOp :=
  beq_iff_eq.mp h

namespace AppCall

/-- The boxes with the places of their applications. -/
def boxPlaces (c : AppCall) : List (Nat × Bytes) :=
  (c.boxes.getD []).map fun box => (box.place c.app (c.apps.getD []), box.name)

def slots (c : AppCall) : List (Option Value) :=
  [FieldCodec.number.slot c.app, onCompleteField.slot c.onComplete,
    c.approval.bind FieldCodec.bytes.slot, c.clear.bind FieldCodec.bytes.slot,
    c.globalSchema.bind schemaField.slot, c.localSchema.bind schemaField.slot,
    c.extraPages.bind FieldCodec.number.slot, c.args.bind FieldCodec.bytes.list.slot,
    c.accounts.bind addressField.list.slot, c.apps.bind FieldCodec.number.list.slot,
    c.assets.bind FieldCodec.number.list.slot, boxField.list.slot c.boxPlaces]

theorem wireBoxes_of_listed {c : AppCall} (h : c.BoxesListed) :
    c.wireBoxes = .ok (entry "apbx" (boxField.list.slot c.boxPlaces)) := by
  have hboxes : ((c.boxes.getD []).mapM fun box => do
      return BoxRef.wire (← box.appIndex c.app (c.apps.getD [])) box.name) =
        .ok ((c.boxes.getD []).map fun box =>
          BoxRef.wire (box.place c.app (c.apps.getD [])) box.name) := by
    refine mapM_eq_ok_map fun box hbox => ?_
    rw [BoxRef.appIndex_of_listed (h box hbox)]
    rfl
  rw [wireBoxes, hboxes, ← field_eq]
  refine congrArg Except.ok ?_
  simp only [Wire.list, FieldCodec.list, boxPlaces, List.isEmpty_map, List.map_map]
  rfl

theorem listed_of_wireBoxes {c : AppCall} {fields : WireFields} (h : c.wireBoxes = .ok fields) :
    c.BoxesListed := by
  obtain ⟨boxes, hboxes, -⟩ := bind_eq_ok.mp h
  intro box hbox
  obtain ⟨v, hv⟩ := exists_of_mapM hboxes box hbox
  obtain ⟨i, hi, -⟩ := bind_eq_ok.mp hv
  exact BoxRef.listed_of_appIndex hi

theorem wire_of_listed {c : AppCall} (h : c.BoxesListed) :
    c.wire = .ok (entriesOf (Header.wireNames ++ wireNames) (c.header.slots ++ c.slots)) := by
  rw [wire, wireBoxes_of_listed h, entriesOf_append rfl, ← Header.wire_eq]
  refine congrArg Except.ok ?_
  simp only [wireNames, slots, entriesOf_cons, entriesOf_nil, ← field_eq, ← optional_eq,
    List.append_assoc, List.append_nil]
  rfl

theorem listed_of_wire {c : AppCall} {fields : WireFields} (h : c.wire = .ok fields) :
    c.BoxesListed := by
  obtain ⟨boxes, hboxes, -⟩ := bind_eq_ok.mp h
  exact listed_of_wireBoxes hboxes

theorem boxPlaces_fit {c : AppCall} (hsized : c.Sized) (hlisted : c.BoxesListed) :
    boxField.list.Fits c.boxPlaces := by
  have happs : (c.apps.getD []).length < UInt32.size := by
    cases happs : c.apps with
    | none => decide
    | some apps => exact hsized.apps apps happs
  have hboxes : (c.boxes.getD []).length < UInt32.size ∧
      ∀ box ∈ c.boxes.getD [], box.name.length < UInt32.size := by
    cases hboxes : c.boxes with
    | none => exact ⟨by decide, nofun⟩
    | some boxes => exact hsized.boxes boxes hboxes
  refine ⟨by rw [boxPlaces, List.length_map]; exact hboxes.1, fun placed hplaced => ?_⟩
  obtain ⟨box, hbox, rfl⟩ := List.mem_map.mp hplaced
  exact ⟨BoxRef.place_lt (hlisted box hbox) happs, hboxes.2 box hbox⟩

theorem slotLegible {c : AppCall} (hsized : c.Sized) (hlisted : c.BoxesListed) {depth : Nat}
    (hdepth : 2 ≤ depth) : ∀ slot ∈ c.slots, Value.SlotLegible depth slot := by
  have hone : 1 ≤ depth := by omega
  simp only [slots, List.forall_mem_cons, List.not_mem_nil]
  exact ⟨FieldCodec.number.slotLegible_slot trivial (Nat.zero_le _),
    onCompleteField.slotLegible_slot trivial (Nat.zero_le _),
    FieldCodec.bytes.slotLegible_bind hsized.approval (Nat.zero_le _),
    FieldCodec.bytes.slotLegible_bind hsized.clear (Nat.zero_le _),
    schemaField.slotLegible_bind (fun _ _ => trivial) hone,
    schemaField.slotLegible_bind (fun _ _ => trivial) hone,
    FieldCodec.number.slotLegible_bind (fun _ _ => trivial) (Nat.zero_le _),
    FieldCodec.bytes.list.slotLegible_bind hsized.args hone,
    addressField.list.slotLegible_bind
      (fun accounts h => ⟨hsized.accounts accounts h, fun _ _ => trivial⟩) hone,
    FieldCodec.number.list.slotLegible_bind
      (fun apps h => ⟨hsized.apps apps h, fun _ _ => trivial⟩) hone,
    FieldCodec.number.list.slotLegible_bind
      (fun assets h => ⟨hsized.assets assets h, fun _ _ => trivial⟩) hone,
    boxField.list.slotLegible_slot (boxPlaces_fit hsized hlisted) hdepth, nofun⟩

theorem ofWire?_slots {c : AppCall} (hsized : c.Sized) (hlisted : c.BoxesListed) :
    ofWire? c.header.norm (c.slots.map (Option.map Value.sorted)) =
      some ({ c.norm with boxes := none }, boxField.list.keep (some c.boxPlaces)) := by
  have hboxes : Value.optional? boxField.list.read?
      ((boxField.list.slot c.boxPlaces).map Value.sorted) =
        some (boxField.list.keep (some c.boxPlaces)) := by
    refine boxField.list.optional?_slot (a := some c.boxPlaces) fun places h => ?_
    obtain rfl := Option.some.inj h
    exact boxPlaces_fit hsized hlisted
  simp only [slots, List.map_cons, List.map_nil, ofWire?, onComplete?_eq, schema?_eq, box?_eq,
    addressOfWire?_eq, FieldCodec.uint64?_eq, FieldCodec.bytes?_eq, FieldCodec.list?_eq]
  rw [FieldCodec.number.withDefault?_slot eq_zero_of_number trivial,
    onCompleteField.withDefault?_slot eq_noOp_of_empty trivial,
    FieldCodec.bytes.optional?_slot hsized.approval, FieldCodec.bytes.optional?_slot hsized.clear,
    schemaField.optional?_slot fun _ _ => trivial, schemaField.optional?_slot fun _ _ => trivial,
    FieldCodec.number.optional?_slot fun _ _ => trivial,
    FieldCodec.bytes.list.optional?_slot hsized.args,
    addressField.list.optional?_slot
      fun accounts h => ⟨hsized.accounts accounts h, fun _ _ => trivial⟩,
    FieldCodec.number.list.optional?_slot
      fun apps h => ⟨hsized.apps apps h, fun _ _ => trivial⟩,
    FieldCodec.number.list.optional?_slot
      fun assets h => ⟨hsized.assets assets h, fun _ _ => trivial⟩,
    hboxes]
  rfl

theorem withBoxes_some {c : AppCall} {places : List (Nat × Bytes)} {boxes : List BoxRef}
    (h : List.Forall₂ (fun placed box =>
      BoxRef.ofIndex (c.apps.getD []) placed.1 placed.2 = .ok box) places boxes) :
    c.withBoxes (some places) = .ok { c with boxes := some boxes } :=
  bind_eq_ok.mpr ⟨boxes, mapM_eq_ok.mpr h, rfl⟩

theorem keep_boxPlaces (c : AppCall) :
    boxField.list.keep (some c.boxPlaces) = (c.boxes.filter (!·.isEmpty)).map
      (List.map fun box => (box.place c.app (c.apps.getD []), box.name)) := by
  cases hboxes : c.boxes with
  | none => simp [FieldCodec.keep, FieldCodec.list, boxPlaces, hboxes, Option.filter]
  | some boxes =>
    cases boxes <;> simp [FieldCodec.keep, FieldCodec.list, boxPlaces, hboxes, Option.filter]

theorem withBoxes_places {c : AppCall} (hlisted : c.BoxesListed) :
    ({ c.norm with boxes := none } : AppCall).withBoxes (boxField.list.keep (some c.boxPlaces)) =
      .ok c.norm := by
  rw [keep_boxPlaces]
  cases hkept : c.boxes.filter (!·.isEmpty) with
  | none =>
    simp only [withBoxes, norm, hkept, Option.map_none]
    rfl
  | some boxes =>
    have hboxes : c.boxes = some boxes := (Option.filter_eq_some_iff.mp hkept).1
    have happs : c.norm.apps.getD [] = c.apps.getD [] := by
      cases happs : c.apps with
      | none => simp only [norm, happs, Option.filter_none]
      | some apps => cases apps <;> simp [norm, happs, Option.filter]
    have hread : List.Forall₂
        (fun placed box => BoxRef.ofIndex (c.norm.apps.getD []) placed.1 placed.2 = .ok box)
        (boxes.map fun box => (box.place c.app (c.apps.getD []), box.name))
        (boxes.map (BoxRef.norm c.app)) := by
      rw [List.forall₂_map_left_iff, List.forall₂_map_right_iff, List.forall₂_same, happs]
      intro box hbox
      refine BoxRef.ofIndex_place (hlisted box ?_)
      rwa [hboxes]
    rw [Option.map_some]
    refine (withBoxes_some hread).trans (congrArg Except.ok ?_)
    simp only [norm, hkept, Option.map_some]

end AppCall

end AppLedger
