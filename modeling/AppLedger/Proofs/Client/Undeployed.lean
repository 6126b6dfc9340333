import AppLedger.Proofs.Client.Argument
import AppLedger.Proofs.Client.SizeRefusal

/-! A client whose application does not exist yet. It has no state to take defaults from and no
method to call for them, so that the world has no part in the arguments of a call. -/

namespace AppLedger.Client

open Effect
open BadArgument (IsSize)
open ClientError (IsSizeRefusal)

variable {σ τ : Type} {net : Network σ} {c : Client} {x : Context} {body : CallBody}
  {o : CallOptions}

/-- Whatever takes the number of the application ends there. -/
theorem detached_deployedId_bind {α : Type} {P : α → Prop} {f : UInt64 → ClientEffect σ α}
    (happ : c.appId = 0) : Detached IsSizeRefusal P (Effect.ofExcept c.deployedId >>= f) := by
  have hnone : c.deployedId = .error (.configuration (.notDeployed c.app.name)) := if_pos happ
  rw [hnone]
  exact detached_throw_bind id

/-- Only constants can stand in for arguments. -/
theorem detached_defaultValue (happ : c.appId = 0) (type : Abi.ArgType) (source : DefaultArgument) :
    Detached IsSizeRefusal (fun arg => arg.member? = none) (c.defaultValue net x type source) := by
  cases source with
  | constant v => exact detached_pure rfl
  | globalState key =>
    have hstate : Detached IsSizeRefusal (fun _ => False) (c.applicationState net) :=
      detached_deployedId_bind happ
    exact hstate.bind fun _ hnever => hnever.elim
  | localState key =>
    have hstate : Detached IsSizeRefusal (fun _ => False) (c.accountState net (some x.sender)) :=
      detached_deployedId_bind happ
    exact hstate.bind fun _ hnever => hnever.elim
  | method name =>
    have hspec : Spares IsSizeRefusal ((c.app.method name).mapError ClientError.argument) :=
      (spares_method c.app name).mapError fun _ => id
    refine (detached_ofExcept hspec fun _ _ => trivial).bind fun spec _ => ?_
    split
    · exact detached_deployedId_bind happ
    · exact detached_throw_bind id

theorem detached_fillDefault (happ : c.appId = 0) (spec : MethodSpec) (declared : Abi.Arg) :
    Detached IsSizeRefusal (fun arg => arg.member? = none)
      (c.fillDefault net x spec declared .byDefault) := by
  rw [fillDefault]
  split
  · exact detached_defaultValue happ declared.type _
  · exact detached_throw id

theorem detached_fillDefaults (happ : c.appId = 0) {spec : MethodSpec} :
    Detached IsSizeRefusal (fun args => args.filterMap MethodArg.member? = [])
      (c.fillDefaults net x spec (spec.method.args.map fun _ => .byDefault)) := by
  have hlength : ¬ (spec.method.args.map fun _ => MethodArg.byDefault).length ≠
      spec.method.args.length := not_not.mpr (List.length_map _)
  have hfill : ∀ a ∈ spec.method.args.zip (spec.method.args.map fun _ => MethodArg.byDefault),
      Detached IsSizeRefusal (fun arg => arg.member? = none)
        (c.fillDefault net x spec a.1 a.2) := by
    rintro ⟨declared, arg⟩ hmem
    obtain ⟨_, -, rfl⟩ := List.mem_map.mp (List.of_mem_zip hmem).2
    exact detached_fillDefault happ spec declared
  rw [fillDefaults, if_neg hlength]
  exact (Detached.mapM hfill).mono fun args => List.filterMap_eq_nil_iff.mpr

end AppLedger.Client
