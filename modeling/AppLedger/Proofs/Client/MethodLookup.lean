import AppLedger.Proofs.Abi.Signature
import AppLedger.Proofs.Client.Building

/-! Looking up the methods that a description was built from. The look-up goes by signatures,
which need not be the texts that the methods were given by. -/

namespace AppLedger

open Abi (Method)

/-! ## Methods that were read -/

namespace Abi.Method

variable {text shown : String} {m : Method}

theorem paren_mem_of_ofText (h : ofText text = .ok m) : text.toList.contains '(' = true :=
  List.contains_iff_mem.mpr (read_cases h).1

theorem exists_signature_of_ofText (h : ofText text = .ok m) : ∃ shown, m.signature = .ok shown :=
  ⟨_, signature_eq (read_cases h).2.1⟩

theorem ofText_signature_of_ofText (h : ofText text = .ok m) (hshown : m.signature = .ok shown) :
    ofText shown = .ok m := by
  obtain ⟨-, hplain, hcanonical⟩ := read_cases h
  rw [ofText_of_signature hplain hshown, ← hcanonical]

end Abi.Method

theorem Description.hasSignature_iff {text : String} {m : Method} :
    hasSignature text m = true ↔ m.signature = .ok text := by
  rw [hasSignature]
  cases m.signature <;> simp

namespace DescriptionDraft

variable {draft : DescriptionDraft} {d : Description} {text shown : String} {hints : MethodHints}
  {spec : MethodSpec} {m : Method}

theorem ofText_of_buildMethod (h : buildMethod text hints = .ok spec) :
    Method.ofText text = .ok spec.method :=
  (builtMethod_of_buildMethod h).read

theorem build_cases (h : draft.build = .ok d) :
    d.name = draft.name ∧
      draft.methods.mapM (fun declared => buildMethod declared.1 declared.2) = .ok d.methods := by
  have hbuilt := built_of_build h
  exact ⟨congrArg Description.name hbuilt.parts, hbuilt.methods⟩

theorem ofText_of_mem_methods (h : draft.build = .ok d) (hmem : spec ∈ d.methods) :
    ∃ text, Method.ofText text = .ok spec.method := by
  obtain ⟨declared, -, hspec⟩ := exists_of_mem_mapM (build_cases h).2 spec hmem
  exact ⟨_, ofText_of_buildMethod hspec⟩

theorem exists_mem_methods (h : draft.build = .ok d) (hmem : (text, hints) ∈ draft.methods) :
    ∃ spec ∈ d.methods, Method.ofText text = .ok spec.method := by
  obtain ⟨spec, hspec, hbuilt⟩ := exists_mem_of_mapM (build_cases h).2 _ hmem
  exact ⟨spec, hspec, ofText_of_buildMethod hbuilt⟩

/-- A declared method is found by its signature. The text that it was given by finds nothing
unless it is that signature, even though it stands for the same method. -/
theorem method_of_build (h : draft.build = .ok d) (hdeclared : (text, hints) ∈ draft.methods) :
    ∃ m shown, Method.ofText text = .ok m ∧ m.signature = .ok shown ∧
      (∃ spec, d.method shown = .ok spec ∧ spec.method = m) ∧
      (text ≠ shown → d.method text = .error (.noMethod text d.name)) := by
  obtain ⟨spec, hspec, hread⟩ := exists_mem_methods h hdeclared
  obtain ⟨shown, hshown⟩ := Method.exists_signature_of_ofText hread
  have hagain := Method.ofText_signature_of_ofText hread hshown
  refine ⟨spec.method, shown, hread, hshown, ?_, fun hother => ?_⟩
  · have hfound : (d.methods.find? (Description.hasSignature shown ·.method)).isSome = true :=
      List.find?_isSome.mpr ⟨spec, hspec, Description.hasSignature_iff.mpr hshown⟩
    obtain ⟨found, hfound⟩ := Option.isSome_iff_exists.mp hfound
    obtain ⟨text', hread'⟩ := ofText_of_mem_methods h (List.mem_of_find?_eq_some hfound)
    have htext := List.find?_some hfound
    have hsame := Method.ofText_signature_of_ofText hread' (Description.hasSignature_iff.mp htext)
    refine ⟨found, ?_, Except.ok.inj (hsame.symm.trans hagain)⟩
    rw [Description.method, if_pos (Method.paren_mem_of_ofText hagain), hfound]
    rfl
  · have hnone : d.methods.find? (Description.hasSignature text ·.method) = none := by
      refine List.find?_eq_none.mpr fun found hfound htext => ?_
      obtain ⟨text', hread'⟩ := ofText_of_mem_methods h hfound
      have htext := Description.hasSignature_iff.mp htext
      have hsame := Method.ofText_signature_of_ofText hread' htext
      rw [Except.ok.inj (hsame.symm.trans hread), hshown] at htext
      exact hother (Except.ok.inj htext).symm
    rw [Description.method, if_pos (Method.paren_mem_of_ofText hread), hnone]
    rfl

/-- The second method is given without what it returns, and with a type in another spelling. -/
def counter : DescriptionDraft where
  name := "counter"
  approval := "int 1"
  clear := "int 1"
  methods := [("add(uint64)uint64", { readOnly := true }), ("reset(uint064)", {}),
    ("add(byte)void", {})]

theorem method_of_build_counter :
    ∃ d, counter.build = .ok d ∧
      (∃ spec, d.method "reset(uint64)void" = .ok spec ∧
        Method.ofText "reset(uint064)" = .ok spec.method) ∧
      d.method "reset(uint064)" = .error (.noMethod "reset(uint064)" "counter") := by
  have hbuilt : counter.build.toOption.isSome = true := rfl
  have hsignature : (Method.ofText "reset(uint064)" >>= Method.signature) =
      .ok "reset(uint64)void" := rfl
  cases h : counter.build with
  | error why =>
    rw [h] at hbuilt
    exact absurd hbuilt nofun
  | ok d =>
    obtain ⟨m, shown, hm, hshown, ⟨spec, hspec, rfl⟩, hother⟩ :=
      method_of_build h (List.mem_cons_of_mem _ List.mem_cons_self)
    rw [hm] at hsignature
    obtain rfl := Except.ok.inj (hshown.symm.trans hsignature)
    rw [(build_cases h).1] at hother
    exact ⟨d, rfl, ⟨spec, hspec, hm⟩, hother (by decide)⟩

theorem declared_not_found :
    ∃ d, counter.build = .ok d ∧ ("reset(uint064)", {}) ∈ counter.methods ∧
      ¬ ∃ spec, d.method "reset(uint064)" = .ok spec := by
  have hmissed : (counter.build.toOption.map fun d =>
      (d.method "reset(uint064)").toOption.isSome) = some false := rfl
  cases h : counter.build with
  | error why =>
    rw [h] at hmissed
    exact absurd hmissed nofun
  | ok d =>
    refine ⟨d, rfl, List.mem_cons_of_mem _ List.mem_cons_self, ?_⟩
    rintro ⟨spec, hspec⟩
    rw [h, Except.toOption, Option.map_some, hspec] at hmissed
    exact absurd hmissed nofun

end DescriptionDraft

end AppLedger
