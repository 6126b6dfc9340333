import AppLedger.Proofs.Transaction.Normal
import AppLedger.Transaction.Codec

/-! A transaction and its normal form have the same map, and so the same bytes and identity. -/

namespace AppLedger

namespace Wire

theorem field_of_empty {name : String} {empty : Bool} {value : Msgpack.Value}
    (h : empty = true) : field name empty value = [] :=
  if_pos h

theorem address_of_isZero {name : String} (a : Address) (h : a.isZero = true) :
    address name a = [] :=
  if_pos h

theorem optional_filter {α : Type} {empty : α → Bool} (write : α → WireFields)
    (h : ∀ a, empty a = true → write a = []) (a : Option α) :
    optional write (a.filter (!empty ·)) = optional write a := by
  cases a with
  | none => rfl
  | some a =>
    rw [Option.filter_some]
    cases hempty : empty a with
    | false => rfl
    | true => exact (h a hempty).symm

end Wire

theorem filter_of_plain {α : Type} {empty : α → Bool} {a : Option α}
    (h : ∀ b ∈ a, empty b = false) : a.filter (!empty ·) = a := by
  cases a with
  | none => rfl
  | some a => rw [Option.filter_some, h a rfl, Bool.not_false, if_pos rfl]

open Wire

namespace Header

theorem wire_norm (h : Header) : h.norm.wire = h.wire := by
  have hfee := optional_filter (number "fee") (fun _ => field_of_empty) h.fee
  have hgenesisHash :=
    optional_filter (fixed "gh") (fun _ => field_of_empty) h.genesisHash
  have hgenesisId := optional_filter (text "gen") (fun _ => field_of_empty) h.genesisId
  have hnote := optional_filter (bytes "note") (fun _ => field_of_empty) h.note
  have hrekey := optional_filter (address "rekey") address_of_isZero h.rekeyTo
  have hlease := optional_filter (fixed "lx") (fun _ => field_of_empty) h.lease
  have hgroup := optional_filter (fixed "grp") (fun _ => field_of_empty) h.group
  simp only [wire, norm]
  rw [hfee, hgenesisHash, hgenesisId, hnote, hrekey, hlease, hgroup]

end Header

theorem Payment.wire_norm (p : Payment) : p.norm.wire = p.wire := by
  have hclose := optional_filter (address "close") address_of_isZero p.closeTo
  simp only [wire, norm]
  rw [p.header.wire_norm, hclose]

theorem BoxRef.appIndex_norm (app : UInt64) (references : List UInt64) (box : BoxRef) :
    (box.norm app).appIndex app references = box.appIndex app references := by
  obtain ⟨id, name⟩ := box
  by_cases hid : id = app
  · simp [norm, appIndex, hid]
  · simp [norm, hid]

theorem BoxRef.name_norm (app : UInt64) (box : BoxRef) : (box.norm app).name = box.name := by
  rw [norm]
  split <;> rfl

/-- Where an empty list stands for an absent one, the filter leaves the list as it was. -/
theorem getD_filter_isEmpty {α : Type} (items : Option (List α)) :
    (items.filter (!·.isEmpty)).getD [] = items.getD [] := by
  cases items with
  | none => rfl
  | some items => cases items <;> rfl

namespace AppCall

theorem boxList_norm (c : AppCall) :
    c.norm.boxes.getD [] = (c.boxes.getD []).map (BoxRef.norm c.app) := by
  rw [← getD_filter_isEmpty c.boxes, norm]
  cases c.boxes.filter (!·.isEmpty) <;> rfl

theorem wireBoxes_norm (c : AppCall) : c.norm.wireBoxes = c.wireBoxes := by
  have happs : c.norm.apps.getD [] = c.apps.getD [] := getD_filter_isEmpty c.apps
  have happ : c.norm.app = c.app := rfl
  rw [wireBoxes, wireBoxes, boxList_norm, List.mapM_map, happs, happ]
  simp only [Function.comp_def, BoxRef.appIndex_norm, BoxRef.name_norm]

theorem wire_norm (c : AppCall) : c.norm.wire = c.wire := by
  have happroval := optional_filter (bytes "apap") (fun _ => field_of_empty) c.approval
  have hclear := optional_filter (bytes "apsu") (fun _ => field_of_empty) c.clear
  have hglobal :=
    optional_filter (StateSchema.wire "apgs") (fun _ => field_of_empty) c.globalSchema
  have hlocal :=
    optional_filter (StateSchema.wire "apls") (fun _ => field_of_empty) c.localSchema
  have hpages := optional_filter (number "apep") (fun _ => field_of_empty) c.extraPages
  have hargs := optional_filter (list "apaa" .bytes) (fun _ => field_of_empty) c.args
  have haccounts := optional_filter
    (list "apat" fun a : Address => .bytes a.key.bytes) (fun _ => field_of_empty) c.accounts
  have happs := optional_filter
    (list "apfa" fun n : UInt64 => .ofNat n.toNat) (fun _ => field_of_empty) c.apps
  have hassets := optional_filter
    (list "apas" fun n : UInt64 => .ofNat n.toNat) (fun _ => field_of_empty) c.assets
  rw [wire, wire, wireBoxes_norm]
  simp only [norm, c.header.wire_norm]
  rw [happroval, hclear, hglobal, hlocal, hpages, hargs, haccounts, happs, hassets]

end AppCall

namespace Transaction

theorem wire_norm (t : Transaction) : t.norm.wire = t.wire := by
  cases t with
  | payment p => rw [norm, wire, wire, p.wire_norm]
  | appCall c => rw [norm, wire, wire, c.wire_norm]

theorem encode_norm (t : Transaction) : t.norm.encode = t.encode := by
  rw [encode, encode, encodeRaw, encodeRaw, wire_norm]

theorem id_norm (t : Transaction) : t.norm.id = t.id := by
  rw [id, id, idRaw, idRaw, encode_norm]

theorem sender_norm (t : Transaction) : t.norm.sender = t.sender := by
  cases t <;> rfl

theorem header_norm (t : Transaction) : t.norm.header = t.header.norm := by
  cases t <;> rfl

theorem norm_withGroup (group : Option Digest) (t : Transaction) :
    (t.withGroup group).norm = t.norm.withGroup (group.filter (!·.isZero)) := by
  cases t <;> rfl

end Transaction

end AppLedger
