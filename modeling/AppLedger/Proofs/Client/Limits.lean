import AppLedger.Proofs.Abi.Method
import AppLedger.Proofs.Client.Call
import AppLedger.Proofs.Client.References
import AppLedger.Proofs.Transaction.Limits

/-! Calls of methods against the limits of the network. The references of a resolved call and the
number of its arguments are within them, so that what a transaction made of it can exceed is a limit
on bytes or on pages. -/

namespace AppLedger

open Client (callFields)

theorem Abi.Method.length_le_of_encodeArgs {types : List Ty} {values : List Value}
    {slots : List Bytes} (h : encodeArgs types values = .ok slots) : slots.length ≤ maxSlots := by
  obtain ⟨hlen, ⟨hfew, hslots⟩ | ⟨-, front, last, -, hcount, -, rfl⟩⟩ := encodeArgs_eq_ok h
  · rw [(decodeItems_encodeEach hlen hslots).1]
    exact hfew
  · rw [List.length_append, hcount]
    exact Nat.le_refl _

namespace Client

theorem getD_nonEmpty {α : Type} (items : List α) : (nonEmpty items).getD [] = items := by
  cases items <;> rfl

/-- The transaction of a call has as many arguments and references as the call. -/
theorem countsFit_callFields {x : Context} {body : CallBody} {args : List Bytes}
    {refs : References} {o : CallOptions} (hargs : args.length ≤ 16)
    (hrefs : refs.excess? = none) : (callFields x body args refs o).CountsFit := by
  obtain ⟨haccounts, happs, hassets, hcount⟩ := References.excess?_eq_none_iff.mp hrefs
  -- the references have no limit for the boxes, but all of them together have the same one
  have hboxes : refs.boxes.length ≤ 8 := Nat.le_trans (Nat.le_add_left _ _) hcount
  constructor
  all_goals
    simpa only [callFields, AppCall.argList, AppCall.accountList, AppCall.appList,
      AppCall.assetList, AppCall.boxList, AppCall.referenceCount, getD_nonEmpty]

end Client

namespace MethodArg

variable {m : Abi.Method} {args : List MethodArg} {sender : Address} {app : UInt64}
  {references : References} {call : ResolvedCall}

theorem withinCounts_of_resolve (h : resolve m args sender app references = .ok call) :
    call.args.length ≤ 16 ∧ call.references.excess? = none := by
  obtain ⟨-, _, p, selector, encoded, -, hexcess, -, hencoded, rfl⟩ := resolve_cases h
  exact ⟨Nat.succ_le_succ (Abi.Method.length_le_of_encodeArgs hencoded), hexcess⟩

/-- However a call of a method has been resolved and whatever else it does, its transaction is
within the limits on the numbers of arguments and references. If it is refused, either its arguments
have more than 2048 bytes, or it asks for too many pages or its programs do not fit into them. -/
theorem validate_of_resolve (h : resolve m args sender app references = .ok call)
    (x : Client.Context) (body : Client.CallBody) (o : CallOptions) :
    let c := callFields x body call.args call.references o
    call.args.length ≤ 16 ∧ c.CountsFit ∧
      (∀ why, c.validate = .error why → ∃ limit, why = .limit limit ∧ c.ExceedsSize limit) ∧
      (c.validate = .ok () ↔ call.args.flatten.length ≤ 2048 ∧ c.pages ≤ maxExtraPages ∧
        c.programSize ≤ pageSize * (1 + c.pages)) := by
  intro c
  obtain ⟨hargs, hrefs⟩ := withinCounts_of_resolve h
  have hcounts : c.CountsFit := Client.countsFit_callFields hargs hrefs
  refine ⟨hargs, hcounts, fun why hwhy => ?_, ?_⟩
  · obtain ⟨limit, hlimit, rfl⟩ := AppCall.exceeded?_of_validate hwhy
    exact ⟨limit, rfl, hcounts.exceedsSize hlimit⟩
  · have hsize : c.argsSize = call.args.flatten.length := by
      rw [AppCall.argsSize, AppCall.argList]
      exact congrArg (List.length ∘ List.flatten) (Client.getD_nonEmpty call.args)
    rw [AppCall.validate_eq_ok_iff, hcounts.argumentsFit_iff, hsize]

/-- As many references as a call can have, half of them boxes, and two values more than slots: the
transaction is valid, and it is refused where it asks for a page more than there can be. -/
theorem validate_of_resolve_crowded :
    let sender : Address := ⟨⟨List.replicate 32 1, by decide⟩⟩
    let other : Address := ⟨⟨List.replicate 32 2, by decide⟩⟩
    let x : Client.Context :=
      { sender, signer := ⟨0, .logicSig ⟨[1], none, none, none⟩⟩
        params := ⟨0, 1000, 7, "net", ⟨List.replicate 32 2, by decide⟩, "v1"⟩ }
    let m : Abi.Method :=
      { name := "f"
        args := [⟨.reference .account, none, none⟩, ⟨.reference .application, none, none⟩,
          ⟨.reference .asset, none, none⟩, ⟨.reference .asset, none, none⟩] ++
          List.replicate 13 ⟨.value .bool, none, none⟩ }
    let args : List MethodArg :=
      [.account other, .application 9, .asset 40, .asset 30] ++
        List.replicate 13 (.value (.bool true))
    let references : References := { assets := [30], boxes := List.replicate 4 ⟨0, [1]⟩ }
    let body : Client.CallBody := { app := 7, onComplete := .noOp }
    ∃ call, resolve m args sender 7 references = .ok call ∧ call.references.count = 8 ∧
      call.args.length = 16 ∧ (callFields x body call.args call.references {}).validate = .ok () ∧
      ∃ limit, (callFields x { body with extraPages := some 4 } call.args call.references
        {}).validate = .error (.limit limit) ∧
        (callFields x { body with extraPages := some 4 } call.args call.references
          {}).ExceedsSize limit := by
  intro sender other x m args references body
  have hcall : (resolve m args sender 7 references).toOption.map
      (fun call => (call.references.count, call.args.length, call.args.flatten.length)) =
      some (8, 16, 19) := by decide
  cases hresolve : resolve m args sender 7 references with
  | error why => simp [hresolve, Except.toOption] at hcall
  | ok call =>
    rw [hresolve] at hcall
    obtain ⟨hcount, hslots, hsize⟩ := by
      simpa only [Except.toOption, Option.map_some, Option.some.injEq, Prod.mk.injEq] using hcall
    obtain ⟨-, -, -, hvalid⟩ := validate_of_resolve hresolve x body {}
    obtain ⟨-, -, hwhy, hinvalid⟩ :=
      validate_of_resolve hresolve x { body with extraPages := some 4 } {}
    refine ⟨call, rfl, hcount, hslots, ?_, ?_⟩
    · exact hvalid.mpr ⟨by omega, Nat.zero_le _, Nat.zero_le _⟩
    · cases hrefused : (callFields x { body with extraPages := some 4 } call.args call.references
          {}).validate with
      | ok =>
        have hpages : (4 : Nat) ≤ maxExtraPages := (hinvalid.mp hrefused).2.1
        exact absurd hpages (by decide)
      | error why =>
        obtain ⟨limit, rfl, hlimit⟩ := hwhy why hrefused
        exact ⟨limit, rfl, hlimit⟩

end MethodArg

end AppLedger
