import AppLedger.Proofs.Transaction.NormalWire
import AppLedger.Proofs.Transaction.RoundTrip
import AppLedger.Transaction.Group

/-! The identity of a group and what it is made of: the identities of the members, which can be
read back from the bytes that are hashed. -/

namespace AppLedger.Transaction

open Msgpack

/-! ## Identities of members -/

theorem ungroupedId_norm {t : Transaction} (h : t.header.group = none) :
    t.norm.ungroupedId = t.ungroupedId := by
  have hnorm : t.norm.header.group = none := by
    rw [header_norm, Header.norm, h]
    rfl
  rw [ungroupedId, ungroupedId, h, hnorm, idRaw, idRaw, encode_norm]

theorem ungroupedId_eq_ok_iff {t : Transaction} {id : Digest} :
    t.ungroupedId = .ok id ↔ t.header.group = none ∧ ∃ b, t.encode = .ok b ∧ digest b = id := by
  rw [ungroupedId]
  cases hgroup : t.header.group with
  | some group => simp
  | none => simp [idRaw, map_eq_ok]

theorem mapM_ungroupedId_eq_ok_iff {ts : List Transaction} {ids : List Digest}
    (hgroup : ∀ t ∈ ts, t.header.group = none) :
    ts.mapM ungroupedId = .ok ids ↔ ∃ bs, ts.mapM encode = .ok bs ∧ bs.map digest = ids := by
  simp only [mapM_eq_ok]
  constructor
  · intro h
    induction h with
    | nil => exact ⟨[], .nil, rfl⟩
    | cons hid _ ih =>
      rw [List.forall_mem_cons] at hgroup
      obtain ⟨-, b, hb, rfl⟩ := ungroupedId_eq_ok_iff.mp hid
      obtain ⟨bs, hbs, rfl⟩ := ih hgroup.2
      exact ⟨b :: bs, .cons hb hbs, rfl⟩
  · rintro ⟨bs, h, rfl⟩
    induction h with
    | nil => exact .nil
    | cons hb _ ih =>
      rw [List.forall_mem_cons] at hgroup
      exact .cons (ungroupedId_eq_ok_iff.mpr ⟨hgroup.1, _, hb, rfl⟩) (ih hgroup.2)

/-! ## The identity of the whole -/

def idList (ids : List Digest) : Value :=
  .ofFields [("txlist", .array (ids.map fun id => .bytes id.bytes))]

theorem sorted_idList (ids : List Digest) : (idList ids).sorted = idList ids := by
  have hitems : (Value.array (ids.map fun id => .bytes id.bytes)).sorted =
      .array (ids.map fun id => .bytes id.bytes) := by
    rw [Value.sorted, Value.sortedItems_eq_map, List.map_map]
    rfl
  rw [idList, Value.ofFields, List.map_cons, List.map_nil, Value.sorted, Value.sortedEntries,
    Value.sortedEntries, Value.insertEntry, hitems]
  rfl

theorem legible_idList {ids : List Digest} (h : ids.length < UInt32.size) :
    (idList ids).Legible maxDepth := by
  refine .map (show 1 < UInt32.size by decide) ?_ ?_
  · intro e he
    obtain rfl := List.mem_singleton.mp he
    exact .text (by decide)
  · intro e he
    obtain rfl := List.mem_singleton.mp he
    refine .array (by rwa [List.length_map]) fun v hv => ?_
    obtain ⟨id, -, rfl⟩ := List.mem_map.mp hv
    exact .bytes (by rw [id.length_bytes]; decide)

theorem groupPreimage_eq (ids : List Digest) :
    groupPreimage ids = Bytes.ofText "TG" ++ (idList ids).encode := by
  rw [groupPreimage, canonicalBytes, ← sorted_idList]
  rfl

theorem idList_injective {ids ids' : List Digest} (h : idList ids = idList ids') : ids = ids' := by
  simp only [idList, Value.ofFields, List.map_cons, List.map_nil, Value.map.injEq, List.cons.injEq,
    Prod.mk.injEq, Value.array.injEq, true_and, and_true] at h
  refine (List.map_injective_iff.mpr fun id id' hid => ?_) h
  exact FixedBytes.bytes_inj.mp (Value.bytes.inj hid)

theorem groupPreimage_injective {ids ids' : List Digest} (hids : ids.length < UInt32.size)
    (hids' : ids'.length < UInt32.size) (h : groupPreimage ids = groupPreimage ids') :
    ids = ids' := by
  rw [groupPreimage_eq, groupPreimage_eq] at h
  have hbytes : (idList ids).encode = (idList ids').encode := List.append_cancel_left h
  have hread := decode?_encode (legible_idList hids)
  rw [hbytes, decode?_encode (legible_idList hids')] at hread
  exact idList_injective (Option.some.inj hread).symm

theorem groupId_eq_ok_iff {ts : List Transaction} {id : Digest} :
    groupId ts = .ok id ↔ ts ≠ [] ∧ ts.length ≤ maxGroupSize ∧
      ∃ ids, ts.mapM ungroupedId = .ok ids ∧ digest (groupPreimage ids) = id := by
  rw [groupId]
  by_cases hempty : ts = []
  · subst hempty
    exact ⟨fun h => absurd h throw_bind_ne_ok, fun h => absurd rfl h.1⟩
  · simp only [List.isEmpty_iff, hempty, if_false]
    by_cases hsize : maxGroupSize < ts.length
    · simp only [hsize, if_true]
      exact ⟨fun h => absurd h throw_bind_ne_ok, fun h => absurd hsize (Nat.not_lt.mpr h.2.1)⟩
    · simp only [hsize, if_false]
      constructor
      · intro h
        obtain ⟨ids, hids, h⟩ := bind_eq_ok.mp h
        exact ⟨hempty, Nat.not_lt.mp hsize, ids, hids, Except.ok.inj h⟩
      · rintro ⟨-, -, ids, hids, rfl⟩
        exact bind_eq_ok.mpr ⟨ids, hids, rfl⟩

theorem groupId_norm {ts : List Transaction} (h : ∀ t ∈ ts, t.header.group = none) :
    groupId (ts.map norm) = groupId ts := by
  have hids : (ts.map norm).mapM ungroupedId = ts.mapM ungroupedId :=
    mapM_map_congr fun t ht => ungroupedId_norm (h t ht)
  rw [groupId, groupId, hids, List.isEmpty_map, List.length_map]

theorem exists_groupId {ts : List Transaction} (hne : ts ≠ []) (hsize : ts.length ≤ maxGroupSize)
    (hgroup : ∀ t ∈ ts, t.header.group = none) (hencodes : ∀ t ∈ ts, ∃ b, t.encode = .ok b) :
    ∃ id, groupId ts = .ok id := by
  obtain ⟨bs, hbs⟩ := exists_mapM hencodes
  have hids := (mapM_ungroupedId_eq_ok_iff hgroup).mpr ⟨bs, hbs, rfl⟩
  exact ⟨_, groupId_eq_ok_iff.mpr ⟨hne, hsize, _, hids, rfl⟩⟩

theorem assignGroup_of_groupId {ts : List Transaction} {id : Digest} (h : groupId ts = .ok id) :
    assignGroup ts = .ok (ts.map (·.withGroup (some id))) :=
  bind_eq_ok.mpr ⟨id, h, rfl⟩

end AppLedger.Transaction
