import AppLedger.Proofs.Abi.Layout

/-! What bytes hold that can be split into the items of a tuple: a head, item by item, and the bytes
behind it. -/

namespace AppLedger.Abi

theorem takeBytes_eq_ok {count position total : Nat} {b bytes rest : Bytes}
    (h : takeBytes count position total b = .ok (bytes, rest)) :
    b = bytes ++ rest ∧ bytes.length = count := by
  unfold takeBytes at h
  split at h
  · next hc =>
    obtain ⟨rfl, rfl⟩ := Prod.mk.inj (Except.ok.inj h)
    exact ⟨(List.take_append_drop count b).symm, List.length_take_of_le hc⟩
  · simp at h

/-- The bytes are a head for items of the shapes, and say the parts. The first of the items that are
bits take up the bits that are `left` of a byte before. -/
inductive IsHead : (left : List Bool) → List Shape → Bytes → List Part → Prop
  | nil (left : List Bool) : IsHead left [] [] []
  | held {bit : Bool} {left : List Bool} {shapes : List Shape} {head : Bytes} {parts : List Part}
      (h : IsHead left shapes head parts) :
      IsHead (bit :: left) (.bit :: shapes) head (.here (boolBytes bit) :: parts)
  | packed {byte : UInt8} {shapes : List Shape} {head : Bytes} {parts : List Part}
      (h : IsHead (unpackBits byte).tail shapes head parts) :
      IsHead [] (.bit :: shapes) (byte :: head)
        (.here (boolBytes ((unpackBits byte).headD false)) :: parts)
  | fixed {left : List Bool} {shapes : List Shape} {head : Bytes} {parts : List Part}
      (bytes : Bytes) (h : IsHead [] shapes head parts) :
      IsHead left (.fixed bytes.length :: shapes) (bytes ++ head) (.here bytes :: parts)
  | dynamic {left : List Bool} {shapes : List Shape} {head : Bytes} {parts : List Part}
      (hi lo : UInt8) (h : IsHead [] shapes head parts) :
      IsHead left (.dynamic :: shapes) (hi :: lo :: head) (.at (Bytes.toNat [hi, lo]) :: parts)

theorem isHead_of_readHead {total position : Nat} {left : List Bool} {shapes : List Shape}
    {b rest : Bytes} {parts : List Part}
    (h : readHead total left position shapes b = .ok (parts, rest)) :
    ∃ head, b = head ++ rest ∧ IsHead left shapes head parts := by
  induction shapes generalizing left position b parts with
  | nil =>
    rw [readHead] at h
    obtain ⟨rfl, rfl⟩ := Prod.mk.inj (Except.ok.inj h)
    exact ⟨[], rfl, .nil left⟩
  | cons shape shapes ih =>
    cases shape with
    | bit =>
      cases left with
      | cons bit left =>
        obtain ⟨⟨parts, rest⟩, hr, h⟩ := bind_eq_ok.mp h
        obtain ⟨rfl, rfl⟩ := Prod.mk.inj (Except.ok.inj h)
        obtain ⟨head, rfl, hhead⟩ := ih hr
        exact ⟨head, rfl, .held hhead⟩
      | nil =>
        obtain ⟨⟨packed, b⟩, ht, h⟩ := bind_eq_ok.mp h
        obtain ⟨⟨parts, rest⟩, hr, h⟩ := bind_eq_ok.mp h
        obtain ⟨rfl, rfl⟩ := Prod.mk.inj (Except.ok.inj h)
        obtain ⟨rfl, hlen⟩ := takeBytes_eq_ok ht
        obtain ⟨byte, rfl⟩ := List.length_eq_one_iff.mp hlen
        obtain ⟨head, rfl, hhead⟩ := ih hr
        exact ⟨byte :: head, rfl, .packed hhead⟩
    | fixed size =>
      rw [readHead] at h
      obtain ⟨⟨bytes, b⟩, ht, h⟩ := bind_eq_ok.mp h
      obtain ⟨⟨parts, rest⟩, hr, h⟩ := bind_eq_ok.mp h
      obtain ⟨rfl, rfl⟩ := Prod.mk.inj (Except.ok.inj h)
      obtain ⟨rfl, rfl⟩ := takeBytes_eq_ok ht
      obtain ⟨head, rfl, hhead⟩ := ih hr
      exact ⟨bytes ++ head, (List.append_assoc ..).symm, .fixed bytes hhead⟩
    | dynamic =>
      rw [readHead] at h
      obtain ⟨⟨offset, b⟩, ht, h⟩ := bind_eq_ok.mp h
      obtain ⟨⟨parts, rest⟩, hr, h⟩ := bind_eq_ok.mp h
      obtain ⟨rfl, rfl⟩ := Prod.mk.inj (Except.ok.inj h)
      obtain ⟨rfl, hlen⟩ := takeBytes_eq_ok ht
      obtain ⟨hi, lo, rfl⟩ := List.length_eq_two.mp hlen
      obtain ⟨head, rfl, hhead⟩ := ih hr
      exact ⟨hi :: lo :: head, rfl, .dynamic hi lo hhead⟩

namespace IsHead

theorem length_eq {left : List Bool} {shapes : List Shape} {head : Bytes} {parts : List Part}
    (h : IsHead left shapes head parts) : parts.length = shapes.length := by
  induction h with
  | nil => rfl
  | held _ ih | packed _ ih | fixed _ _ ih | dynamic _ _ _ ih =>
    rw [List.length_cons, List.length_cons, ih]

/-- What stands in the head itself is read from bytes of it, or from a bit. -/
theorem infix_of_mem {left : List Bool} {shapes : List Shape} {head : Bytes} {parts : List Part}
    (h : IsHead left shapes head parts) {bytes : Bytes} (hmem : .here bytes ∈ parts) :
    bytes <:+: head ∨ ∃ bit, bytes = boolBytes bit := by
  induction h with
  | nil => simp at hmem
  | held _ ih =>
    rcases List.mem_cons.mp hmem with heq | hmem
    · exact .inr ⟨_, Part.here.inj heq⟩
    · exact ih hmem
  | packed _ ih =>
    rcases List.mem_cons.mp hmem with heq | hmem
    · exact .inr ⟨_, Part.here.inj heq⟩
    · exact (ih hmem).imp_left fun h => h.trans (List.suffix_cons ..).isInfix
  | fixed item _ ih =>
    rcases List.mem_cons.mp hmem with heq | hmem
    · obtain rfl := Part.here.inj heq
      exact .inl (List.prefix_append ..).isInfix
    · exact (ih hmem).imp_left fun h => h.trans (List.suffix_append ..).isInfix
  | dynamic hi lo _ ih =>
    rcases List.mem_cons.mp hmem with heq | hmem
    · simp at heq
    · exact (ih hmem).imp_left fun h => h.trans (List.suffix_append [hi, lo] _).isInfix

end IsHead

namespace Part

theorem encodings_here_eq_ok {all bytes : Bytes} {parts : List Part} {encs : List Bytes}
    (h : encodings all (.here bytes :: parts) = .ok encs) :
    ∃ rest, encodings all parts = .ok rest ∧ encs = bytes :: rest := by
  obtain ⟨rest, hrest, h⟩ := bind_eq_ok.mp h
  exact ⟨rest, hrest, (Except.ok.inj h).symm⟩

/-- An item outside the head takes the bytes from its start to that of the next one. -/
theorem encodings_at_eq_ok {all : Bytes} {start : Nat} {parts : List Part} {encs : List Bytes}
    (h : encodings all (.at start :: parts) = .ok encs) :
    ∃ bytes rest, encodings all parts = .ok rest ∧ encs = bytes :: rest ∧
      start + bytes.length = (firstStart? parts).getD all.length ∧
      all.drop start = bytes ++ all.drop ((firstStart? parts).getD all.length) := by
  simp only [encodings] at h
  generalize (firstStart? parts).getD all.length = stop at *
  split at h
  · simp [throw, throwThe, MonadExceptOf.throw] at h
  · next hstart =>
    split at h
    · simp [throw, throwThe, MonadExceptOf.throw] at h
    · next hstop =>
      obtain ⟨rest, hrest, h⟩ := bind_eq_ok.mp h
      refine ⟨_, rest, hrest, (Except.ok.inj h).symm, ?_, ?_⟩
      · rw [List.length_take, List.length_drop]
        omega
      · have hdrop : all.drop stop = (all.drop start).drop (stop - start) := by
          rw [List.drop_drop, Nat.add_sub_cancel' (by omega)]
        rw [hdrop, List.take_append_drop]

theorem length_encodings {all : Bytes} {parts : List Part} {encs : List Bytes}
    (h : encodings all parts = .ok encs) : encs.length = parts.length := by
  induction parts generalizing encs with
  | nil =>
    obtain rfl := Except.ok.inj h
    rfl
  | cons part parts ih =>
    cases part with
    | here bytes =>
      obtain ⟨rest, hrest, rfl⟩ := encodings_here_eq_ok h
      rw [List.length_cons, List.length_cons, ih hrest]
    | «at» start =>
      obtain ⟨bytes, rest, hrest, rfl, -⟩ := encodings_at_eq_ok h
      rw [List.length_cons, List.length_cons, ih hrest]

theorem infix_of_mem_encodings {all : Bytes} {parts : List Part} {encs : List Bytes}
    (h : encodings all parts = .ok encs) {enc : Bytes} (hmem : enc ∈ encs) :
    .here enc ∈ parts ∨ enc <:+: all := by
  induction parts generalizing encs with
  | nil =>
    obtain rfl := Except.ok.inj h
    simp at hmem
  | cons part parts ih =>
    cases part with
    | here bytes =>
      obtain ⟨rest, hrest, rfl⟩ := encodings_here_eq_ok h
      rcases List.mem_cons.mp hmem with rfl | hmem
      · exact .inl List.mem_cons_self
      · exact (ih hrest hmem).imp_left (List.mem_cons_of_mem _)
    | «at» start =>
      obtain ⟨bytes, rest, hrest, rfl, -, hdrop⟩ := encodings_at_eq_ok h
      rcases List.mem_cons.mp hmem with rfl | hmem
      · have hstarts : enc <+: all.drop start := hdrop ▸ List.prefix_append ..
        exact .inr (hstarts.isInfix.trans (List.drop_suffix ..).isInfix)
      · exact (ih hrest hmem).imp_left (List.mem_cons_of_mem _)

theorem firstStart?_here (encs : List Bytes) : firstStart? (encs.map .here) = none := by
  induction encs with
  | nil => rfl
  | cons enc encs ih => exact ih

end Part

/-- A head without offsets says each item itself. -/
theorem parts_of_encodings {left : List Bool} {shapes : List Shape} {head all : Bytes}
    {parts : List Part} {encs : List Bytes} (h : IsHead left shapes head parts)
    (hstatic : .dynamic ∉ shapes) (hencs : Part.encodings all parts = .ok encs) :
    parts = encs.map .here := by
  induction h generalizing encs with
  | nil =>
    obtain rfl := Except.ok.inj hencs
    rfl
  | held _ ih | packed _ ih | fixed _ _ ih =>
    obtain ⟨rest, hrest, rfl⟩ := Part.encodings_here_eq_ok hencs
    rw [List.map_cons, ← ih (fun hmem => hstatic (List.mem_cons_of_mem _ hmem)) hrest]
  | dynamic => exact absurd List.mem_cons_self hstatic

/-- Without an item outside the head the head is all there is. -/
theorem splitItems_eq_ok {shapes : List Shape} {b : Bytes} {encs : List Bytes}
    (h : splitItems shapes b = .ok encs) :
    ∃ parts head rest, b = head ++ rest ∧ readHead b.length [] 0 shapes b = .ok (parts, rest) ∧
      IsHead [] shapes head parts ∧ (Part.firstStart? parts = none → rest = []) ∧
      Part.encodings b parts = .ok encs := by
  obtain ⟨⟨parts, rest⟩, hread, h⟩ := bind_eq_ok.mp h
  obtain ⟨head, hb, hhead⟩ := isHead_of_readHead hread
  dsimp only at h
  split at h
  · exact absurd h throw_bind_ne_ok
  · next hrest =>
    refine ⟨parts, head, rest, hb, hread, hhead, fun hnone => ?_, h⟩
    simpa [hnone] using hrest

theorem length_splitItems {shapes : List Shape} {b : Bytes} {encs : List Bytes}
    (h : splitItems shapes b = .ok encs) : encs.length = shapes.length := by
  obtain ⟨parts, head, rest, -, -, hhead, -, hencs⟩ := splitItems_eq_ok h
  rw [Part.length_encodings hencs, hhead.length_eq]

/-- An item is read from bytes among those that are split, or from a bit of them. -/
theorem infix_of_mem_splitItems {shapes : List Shape} {b : Bytes} {encs : List Bytes}
    (h : splitItems shapes b = .ok encs) {enc : Bytes} (hmem : enc ∈ encs) :
    enc <:+: b ∨ ∃ bit, enc = boolBytes bit := by
  obtain ⟨parts, head, rest, rfl, -, hhead, -, hencs⟩ := splitItems_eq_ok h
  rcases Part.infix_of_mem_encodings hencs hmem with hhere | hinfix
  · exact (hhead.infix_of_mem hhere).imp_left fun h => h.trans (List.prefix_append ..).isInfix
  · exact .inl hinfix

end AppLedger.Abi
