import AppLedger.Proofs.Client.Operation
import AppLedger.Proofs.AtomicGroup.Recorded

/-! Calls of methods that clear the state of their sender. Stages of an application and plain calls
never make one, but a creation does whose method is declared to be called so. -/

namespace AppLedger.Client

open Effect

variable {σ : Type}

theorem stage?_eq_clearState {d : Description} {op : Operation} (h : op.stage? d = some .clearState) :
    ∃ pages o, op = .create pages o ∧ d.createHandler.map Prod.snd = some .clearState := by
  cases op with
  | create pages o => exact ⟨pages, o, rfl, h⟩
  | clearState o => exact absurd h nofun
  | call method args onComplete o | addMethodCall g method args onComplete o =>
    by_cases hclear : onComplete = .clearState
    · simp [Operation.stage?, hclear] at h
    · simp [Operation.stage?, hclear] at h
  | update o | delete o | optIn o | closeOut o =>
    obtain ⟨spec, -, hstage⟩ := Option.map_eq_some_iff.mp h
    exact absurd hstage nofun

/-- Whatever the client is asked to do, it sends and yields only groups in which the call of a method
does not clear the state, unless it creates the application and the description declares just that
for the method that creates it; such a creation does make a call that clears the state. -/
theorem calls_clearState_iff (net : Network σ) (c : Client) :
    (∀ op : Operation, SendsOnly net c
      (Assembled fun call => onComplete? call = some .clearState →
        ∃ pages o, op = .create pages o ∧ c.app.createHandler.map Prod.snd = some .clearState)
      (op.perform net c)) ∧
    (∀ g method args onComplete o s g' t,
      Yields (c.addMethodCall net g method args onComplete o) s g' t →
        ∃ call, g.addMethodCall call = (.ok (), g') ∧ onComplete? call ≠ some .clearState) ∧
    ∀ handler approval clear pages body x o s g t, c.app.createHandler = some handler →
      c.creation approval clear pages = .ok body →
      Yields (c.lifecycleGroup net x body (some handler.1) o) s g t →
        ∃ call, ({} : AtomicGroup).addMethodCall call = (.ok (), g) ∧
          (onComplete? call = some .clearState ↔ handler.2 = .clearState) := by
  refine ⟨fun op => ?_, fun g method args onComplete o s g' t h => ?_, ?_⟩
  · refine (alongside_perform op).mono fun g hg => hg.mono fun call hcall hclear => ?_
    obtain ⟨stage, hstage, hown⟩ := hcall
    obtain rfl := Option.some.inj (hclear.symm.trans hstage)
    exact stage?_eq_clearState (hown.resolve_left nofun)
  · obtain ⟨hstage, call, hcall, hadd⟩ := added_of_addMethodCall h
    refine ⟨call, hadd, ?_⟩
    rw [hcall]
    exact fun hclear => hstage (Option.some.inj hclear)
  · intro handler approval clear pages body x o s g t hhandler hbody h
    have hdeclared := onComplete_of_creation hbody
    rw [hhandler] at hdeclared
    obtain ⟨call, hstage, hadd⟩ := added_of_lifecycleGroup h
    refine ⟨call, hadd, ?_⟩
    rw [hstage, hdeclared]
    constructor
    · exact fun hclear => Option.some.inj hclear
    · exact fun hclear => congrArg some hclear

/-! ## A creation that clears the state -/

/-- The method that creates the application is declared to clear the state. -/
def clearingDraft : DescriptionDraft where
  name := "clearing"
  approval := "int 1"
  clear := "int 1"
  methods := [("create()void", {})]
  createHandler := some ("create()void", .clearState)

def clearingClient (d : Description) : Client where
  app := d
  family := 0
  signer := some ⟨0, .logicSig { logic := [8, 1] }⟩
  params := some
    { fee := 0, minFee := 1000, lastRound := 1, genesisId := "dockernet-v1"
      genesisHash := FixedBytes.zero, consensusVersion := "future" }

/-- A network that compiles every source to one program and takes every group. -/
def takingNetwork : Network Unit where
  node :=
    { params := throw (.request "none")
      submit := fun _ => pure "taken"
      pending := fun id => throw (.notFound (.transaction id))
      lastRound := pure 1
      waitForBlock := fun round => pure round
      application := fun app => throw (.notFound (.application app))
      account := fun _ => throw (.request "none")
      accountState := fun account app => throw (.notFound (.optIn account app))
      simulate := fun _ => throw (.request "none") }
  compiler := { compile := fun _ _ => pure { bytecode := [8], hash := "", sourceMap := none } }

/-- What the calls do on completion that a creation hands over, where they have arguments. -/
def stagesHandedOver (d : Description) : List (List (Option OnComplete)) :=
  let ending := ((clearingClient d).create takingNetwork.recorded none {}).outcome
    { world := ((), []), caches := [{}] }
  ending.2.record.map (·.signed.map fun t =>
    (t.transaction.appCall?.filter (·.args.isSome)).map (·.onComplete))

/-- The description is accepted, and its creation hands over a call of a method that clears the
state. -/
theorem create_calls_clearState :
    ∃ d, clearingDraft.build = .ok d ∧ stagesHandedOver d = [[some .clearState]] := by
  have hcheck : clearingDraft.build.toOption.map stagesHandedOver = some [[some .clearState]] := by
    decide +kernel
  obtain ⟨d, hd, hstages⟩ := Option.map_eq_some_iff.mp hcheck
  refine ⟨d, ?_, hstages⟩
  cases hbuild : clearingDraft.build with
  | error why =>
    rw [hbuild] at hd
    exact absurd hd nofun
  | ok d' =>
    rw [hbuild] at hd
    exact congrArg _ (Option.some.inj hd)

end AppLedger.Client
