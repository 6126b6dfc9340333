import AppLedger.Proofs.Client.ProgramPages
import AppLedger.Proofs.Client.Sending
import AppLedger.Proofs.Client.StructFields

/-! Refusals for the size of programs. Of all that is done before a group is handed over, only the
pages that are asked for and the limits of a call are refused so. -/

namespace AppLedger

open Effect

/-- The pages or the bytes of the programs are refused. -/
def BadArgument.IsSize : BadArgument → Prop
  | .pages _ | .programSize _ => True
  | .limit (.limit (.extraPages _)) | .limit (.limit (.programSize _ _ _)) => True
  | _ => False

def ClientError.IsSizeRefusal : ClientError → Prop
  | .argument why => why.IsSize
  | _ => False

open BadArgument (IsSize)
open ClientError (IsArgument IsSizeRefusal)

theorem ClientError.isArgument_of_isSizeRefusal (why : ClientError) (h : why.IsSizeRefusal) :
    why.IsArgument := by
  cases why with
  | argument => trivial
  | _ => exact h.elim

open ClientError (isArgument_of_isSizeRefusal)

/-! ## Arguments -/

namespace MethodArg

variable {m : Abi.Method} {hints : MethodHints} {caller : Caller} {position : Nat}
  {kind : Abi.ReferenceKind} {arg : MethodArg} {p : Packing}

theorem spares_orderFields (name : String) : Spares IsSize (orderFields m hints name arg) := by
  rw [orderFields.eq_def]
  split
  · split
    · exact spares_error id
    · refine Spares.bind (fun why h => ?_) fun taken => ?_
      · obtain ⟨field, -, rfl⟩ := exists_of_takeFields_error h
        exact id
      · dsimp only
        split
        · exact spares_ok
        · exact spares_error id
  · exact spares_ok

theorem spares_orderAllFields (args : List MethodArg) :
    Spares IsSize (orderAllFields m hints m.args args) := by
  rw [orderAllFields_eq_mapM]
  exact .mapM (fun _ => spares_orderFields _) _

theorem spares_packValue (ty : Abi.Ty) : Spares IsSize (packValue caller position ty arg p) := by
  unfold packValue
  split <;> first | exact spares_ok | exact spares_error id

theorem spares_packReference : Spares IsSize (packReference caller position kind arg p) := by
  unfold packReference
  dsimp only
  split
  · exact spares_ok
  · exact (spares_mapError fun _ => id).bind fun _ => spares_ok
  · exact spares_ok
  · exact spares_ok
  · split <;> first | exact spares_ok | exact spares_error id
  · split <;> first | exact spares_ok | exact spares_error id
  · exact spares_error id

theorem spares_packTransaction (kind : Abi.TransactionKind) :
    Spares IsSize (packTransaction caller position kind arg p) := by
  unfold packTransaction
  split
  · dsimp only
    split <;> first | exact spares_ok | exact spares_error id
  · exact spares_error id

theorem spares_packFrom (declared : List Abi.Arg) (args : List MethodArg) :
    Spares IsSize (packFrom caller position declared args p) := by
  induction declared generalizing position args p with
  | nil => exact spares_ok
  | cons first declared ih =>
    cases args with
    | nil => exact spares_ok
    | cons arg args =>
      refine Spares.bind ?_ fun _ => ih _
      rw [pack.eq_def]
      cases first.type with
      | value ty => exact spares_packValue ty
      | reference kind => exact spares_packReference
      | transaction kind => exact spares_packTransaction kind

theorem not_isSize_of_excess? {refs : References} {why : BadArgument}
    (h : refs.excess? = some why) : ¬ why.IsSize := by
  unfold References.excess? at h
  split_ifs at h <;> exact Option.some.inj h ▸ id

theorem spares_resolve (args : List MethodArg) (sender : Address) (app : UInt64)
    (references : References) : Spares IsSizeRefusal (resolve m args sender app references) := by
  rw [resolve]
  refine (spares_mapError fun _ => id).bind fun signature => ?_
  split
  · exact spares_throw_bind id
  · refine Spares.bind ?_ fun p => ?_
    · exact (spares_packFrom _ _).mapError fun _ => id
    split
    · next excess hexcess => exact spares_error (not_isSize_of_excess? hexcess)
    · refine (spares_mapError fun _ => id).bind fun selector => ?_
      exact (spares_mapError fun _ => id).bind fun encoded => spares_ok

end MethodArg

/-! ## Groups -/

namespace AtomicGroup

variable {σ : Type} {net : Network σ} {g g' : AtomicGroup} {why : BadArgument}

theorem spares_checkRoom (more : Nat) : Spares IsSizeRefusal (g.checkRoom more) := by
  unfold checkRoom
  split_ifs <;> first | exact spares_ok | exact spares_error id

theorem spares_pushAll (members : List Member) : Spares IsSizeRefusal (g.pushAll members).1 := by
  induction members generalizing g with
  | nil => exact spares_ok
  | cons m rest ih =>
    unfold pushAll
    split_ifs
    · exact spares_error id
    · exact ih

theorem spares_addTransaction (m : Member) : Spares IsSizeRefusal (g.addTransaction m).1 := by
  unfold addTransaction
  split
  · next why hroom => exact spares_error (spares_checkRoom 1 why hroom)
  · exact spares_pushAll _

theorem spares_addMethodCall (call : MethodCall) :
    Spares IsSizeRefusal (g.addMethodCall call).1 := by
  unfold addMethodCall
  split
  · next why hroom => exact spares_error (spares_checkRoom _ why hroom)
  · split
    · next why g' hpush => exact spares_error (spares_pushAll _ why (congrArg Prod.fst hpush))
    · exact spares_ok

theorem spares_boundMembers : Spares IsSizeRefusal g.boundMembers := by
  unfold boundMembers
  split_ifs
  · exact spares_error id
  · exact spares_ok
  · exact (spares_mapError fun _ => id).bind fun _ => spares_ok

theorem spares_signBatches (ts : List Transaction) (order : List Batch) :
    Spares IsSizeRefusal (signBatches ts order) := by
  refine (spares_mapError fun _ => id).bind fun signed => ?_
  dsimp only
  split
  · exact spares_ok
  · exact spares_error id

theorem spares_gatherSignatures : Spares IsSizeRefusal g.gatherSignatures.1 := by
  have hbuild : Spares IsSizeRefusal g.build.1 := by
    unfold build
    split
    · exact spares_ok
    · split
      · next why hbound => exact spares_error (spares_boundMembers why hbound)
      · exact spares_ok
  unfold gatherSignatures
  split
  · exact spares_ok
  · split
    · next why g' hbuilt => exact spares_error (hbuild why (congrArg Prod.fst hbuilt))
    · split
      · next why hsigned => exact spares_error (spares_signBatches _ _ why hsigned)
      · exact spares_ok

theorem avoids_submit (net : Network σ) : Avoids IsSizeRefusal (submit net) := by
  rw [submit]
  refine avoids_get.bind fun w => ?_
  split
  · exact avoids_throw_bind id
  · refine (avoids_onGroup fun _ => spares_gatherSignatures).bind fun signed => ?_
    refine (avoids_ofExcept (spares_mapError fun _ => id)).bind fun ids => ?_
    refine (avoids_onSession (avoids_ask.mono isArgument_of_isSizeRefusal)).bind fun _ => ?_
    exact (avoids_setStatus _).bind fun _ => avoids_pure

theorem avoids_execute (net : Network σ) (maxRounds : Option Nat) :
    Avoids IsSizeRefusal (execute net maxRounds) := by
  rw [execute_eq]
  refine (avoids_submit net).bind fun ids => ?_
  exact (avoids_concludeExecution net maxRounds ids).mono isArgument_of_isSizeRefusal

end AtomicGroup

namespace Client

variable {σ : Type} {net : Network σ} {c : Client} {x : Context} {o : CallOptions}
  {body : CallBody}

/-! ## Calls -/

theorem spares_method (d : Description) (name : String) : Spares IsSize (d.method name) := by
  unfold Description.method
  split_ifs
  · cases d.methods.find? (Description.hasSignature name ·.method) with
    | some spec => exact spares_ok
    | none => exact spares_error id
  · split <;> first | exact spares_ok | exact spares_error id

/-- The limits are the only size that a call is refused for. -/
theorem callTransaction_size {args : List Bytes} {refs : References} {why : ClientError}
    (hsize : why.IsSizeRefusal) :
    callTransaction x body args refs o = .error why ↔
      ∃ e, (callFields x body args refs o).validate = .error e ∧ why = .argument (.limit e) := by
  rw [callTransaction]
  cases hvalid : (callFields x body args refs o).validate with
  | error e =>
    simp [Except.mapError, bind, Except.bind, eq_comm]
  | ok =>
    simp only [reduceCtorEq, false_and, exists_false, iff_false]
    intro h
    rcases bind_eq_error.mp h with h | ⟨_, -, h⟩
    · cases h
    · have hspared : Spares IsSizeRefusal
          ((Transaction.appCall (callFields x body args refs o)).assignFee x.params.feeParams
            |>.mapError ClientError.transaction) := spares_mapError fun _ => id
      exact hspared.bind (fun _ => spares_ok) why h hsize

theorem methodCall_size {spec : MethodSpec} {args : List MethodArg} {why : ClientError}
    (hsize : why.IsSizeRefusal) :
    methodCall x body spec args o = .error why ↔ ∃ ordered resolved e,
      MethodArg.orderAllFields spec.method spec.hints spec.method.args args = .ok ordered ∧
      MethodArg.resolve spec.method ordered x.sender body.app o.references = .ok resolved ∧
      (callFields x body resolved.args resolved.references o).validate = .error e ∧
      why = .argument (.limit e) := by
  constructor
  · intro h
    rcases bind_eq_error.mp h with h | ⟨ordered, hordered, h⟩
    · have hspared : Spares IsSizeRefusal ((MethodArg.orderAllFields spec.method spec.hints
          spec.method.args args).mapError ClientError.argument) :=
        (MethodArg.spares_orderAllFields args).mapError fun _ => id
      exact absurd hsize (hspared why h)
    rcases bind_eq_error.mp h with h | ⟨resolved, hresolved, h⟩
    · exact absurd hsize (MethodArg.spares_resolve _ _ _ _ why h)
    rcases bind_eq_error.mp h with h | ⟨_, -, h⟩
    · obtain ⟨e, hvalid, hwhy⟩ := (callTransaction_size hsize).mp h
      exact ⟨ordered, resolved, e, mapError_eq_ok.mp hordered, hresolved, hvalid, hwhy⟩
    · cases h
  · rintro ⟨ordered, resolved, e, hordered, hresolved, hrefused⟩
    refine bind_eq_error.mpr (.inr ⟨ordered, mapError_eq_ok.mpr hordered, ?_⟩)
    refine bind_eq_error.mpr (.inr ⟨resolved, hresolved, ?_⟩)
    exact bind_eq_error.mpr (.inl ((callTransaction_size hsize).mpr ⟨e, hrefused⟩))

theorem spares_groupOf (call : MethodCall) : Spares IsSizeRefusal (groupOf call) := by
  unfold groupOf
  split
  · exact spares_ok
  · next why g hadd =>
    exact spares_error (AtomicGroup.spares_addMethodCall call why (congrArg Prod.fst hadd))

/-- The programs are the last that is looked at. -/
theorem limit_isSize_iff {call : AppCall} (hpages : call.pages ≤ maxExtraPages) :
    (∃ e, call.validate = .error e ∧ IsSize (.limit e)) ↔
      call.ArgumentsFit ∧ pageSize * (1 + call.pages) < call.programSize := by
  constructor
  · rintro ⟨e, hvalid, hsize⟩
    obtain ⟨limit, hlimit, rfl⟩ := AppCall.exceeded?_of_validate hvalid
    unfold AppCall.exceeded? at hlimit
    split_ifs at hlimit with hargs hargsSize haccounts happs hassets hboxes hreferences hmax hbudget
    iterate 7
      obtain rfl := Option.some.inj hlimit
      exact hsize.elim
    · exact absurd hpages (Nat.not_le.mpr hmax)
    · exact ⟨⟨Nat.not_lt.mp hargs, Nat.not_lt.mp hargsSize, Nat.not_lt.mp haccounts,
        Nat.not_lt.mp happs, Nat.not_lt.mp hassets, Nat.not_lt.mp hboxes,
        Nat.not_lt.mp hreferences⟩, hbudget⟩
  · rintro ⟨hfit, hbudget⟩
    exact ⟨_, AppCall.validate_eq_programSize hfit hpages hbudget, trivial⟩

/-! ## Around the call -/

theorem avoids_context : Avoids IsArgument (c.context net o) := by
  have hsigner : Spares IsArgument (c.signerFor o.signer) := by
    unfold signerFor
    split <;> first | exact spares_ok | exact spares_error id
  have hsender : Spares IsArgument (c.senderFor o.sender o.signer) := by
    unfold senderFor
    split <;> first | exact spares_ok | exact spares_error id
  refine (avoids_ofExcept hsigner).bind fun _ => (avoids_ofExcept hsender).bind fun _ => ?_
  refine Avoids.bind ?_ fun _ => avoids_pure
  rw [paramsFor]
  split
  · exact avoids_pure
  · exact avoids_ask

theorem avoids_send (g : AtomicGroup) (maxRounds : Option Nat) :
    Avoids IsSizeRefusal (c.send net g false maxRounds) := by
  intro s why t h hsize
  cases why with
  | argument why =>
    obtain ⟨g', hrun⟩ := run_fails_of_send h
    exact AtomicGroup.avoids_execute net maxRounds _ _ _ hrun hsize
  | _ => exact hsize

end Client

end AppLedger
