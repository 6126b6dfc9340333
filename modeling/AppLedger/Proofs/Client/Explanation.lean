import AppLedger.Proofs.Client.Attempts
import AppLedger.Proofs.Ledger.ProgramRefusal
import AppLedger.Proofs.Ledger.Sources
import AppLedger.Proofs.LogicError.Report

/-! What a client reports where the program of its application refuses a call: the failure of the
program, at a line of its source, unless the words of the program name another application. -/

namespace AppLedger

open Effect Program
open LogicError.Report (IsId firstNamed isId_idText ofText?_refusal refusal)

variable {id message : String} {app : UInt64} {pc : Nat} {a : Attempt}

theorem isId_of_id {stxn : SignedTransaction} (h : stxn.id = .ok id) : IsId id.toList := by
  obtain ⟨d, -, rfl⟩ := map_eq_ok.mp h
  exact isId_idText d

/-- The program of the application has refused the call that is the transaction of the group. -/
def Attempt.Refused (a : Attempt) (id message : String) (app : UInt64) (pc : Nat) : Prop :=
  ∃ stxn ∈ a.signed, stxn.id = .ok id ∧ ∃ index call code, stxn.transaction = .appCall call ∧
    Refuses a.ledger.programs (a.signed.map (·.transaction)) index call app message pc code

theorem refused_of_refusal (h : a.refusal? = some (refusal id message app pc)) :
    a.Refused id message app pc :=
  Evaluation.refuses_of_ofGroup (Attempt.ofGroup_of_refusal? h)

theorem refusal_bounds (hprograms : a.ledger.programs.Remembers)
    (h : a.Refused id message app pc) : IsId id.toList ∧ pc < UInt64.size := by
  obtain ⟨stxn, -, hid, index, call, code, -, s, record, program, -, -, -, -, rfl⟩ := h
  refine ⟨isId_of_id hid, Nat.lt_trans (hprograms.failingPc_lt code) ?_⟩
  decide

/-- However a group was refused, its refusal is read back from the text. -/
theorem ofText?_reason (hprograms : a.ledger.programs.Remembers)
    (h : a.refusal? = some (refusal id message app pc)) (hmessage : '\n' ∉ message.toList) :
    LogicError.Report.ofText? (a.reason (refusal id message app pc)) =
      some { transaction := id, message, pc, app := firstNamed message app } := by
  obtain ⟨hid, hpc⟩ := refusal_bounds hprograms (refused_of_refusal h)
  rw [Attempt.reason]
  split
  case isTrue => exact (ofText?_refusal hid hmessage hpc).1
  case isFalse => exact (ofText?_refusal hid hmessage hpc).2

namespace Client

variable {c : Client} {op : Operation} {s : Session Ledger} {full : String}

theorem remembers_of_attempt (hprograms : s.world.programs.Remembers) (ha : a ∈ op.attempts c s) :
    a.ledger.programs.Remembers := by
  obtain ⟨u, honward, hsame, -⟩ := settled_of_attempt ha
  obtain ⟨ops, -, hrun⟩ := honward.reaches
  rw [← hsame, hrun]
  exact Ledger.remembers_run hprograms ops

/-! ## Explanations -/

/-- What a report is explained as. -/
theorem explain_of_report {net : Network Ledger} {reason : String} {report : LogicError.Report}
    {e : ClientError} {u t : Session Ledger}
    (hreport : LogicError.Report.ofText? reason = some report)
    (h : Yields (c.explain net (.submission reason)) u e t) :
    if c.isForeign report then e = .submission reason
    else ∃ place, Yields (c.approvalLine net report.pc) u place t ∧
      e = .logic { reason, transaction := some report.transaction, pc := some report.pc,
                   line := place.map Prod.fst, listing := place.elim [] Prod.snd } := by
  rw [explain, hreport] at h
  by_cases hforeign : c.isForeign report = true
  · simp only [if_pos hforeign] at h
    rw [if_pos hforeign]
    exact (yields_pure.mp h).1.symm
  · simp only [if_neg hforeign] at h
    obtain ⟨place, t', hplace, h⟩ := yields_bind.mp h
    obtain ⟨rfl, rfl⟩ := yields_pure.mp h
    rw [if_neg hforeign]
    exact ⟨place, hplace, rfl⟩

/-- The failing line is found, unless the code ends before it. -/
theorem locate_failingPc (hfull : withPragma c.app.approval c.app.version = .ok full) :
    (c.locate? (Stub.compile full c.app.version) (Stub.failingPc full 33)).map Prod.fst =
      some (min (Stub.failingLine full) 33) := by
  obtain ⟨map, hlines, hline⟩ := Stub.line?_failingPc hfull
  rw [locate?, hlines, hfull]
  simp only [Option.map_map]
  exact hline

theorem line_of_approvalLine {u t : Session Ledger} {place : Option (Nat × List String)}
    (hfull : withPragma c.app.approval c.app.version = .ok full) (hready : Ready c full u)
    (h : Yields (c.approvalLine (Ledger.network Ledger.compiler) (Stub.failingPc full 33)) u
      place t) :
    place.map Prod.fst = some (min (Stub.failingLine full) 33) := by
  obtain ⟨fresh, t', hprogram, -⟩ := yields_approvalProgram hfull hready
  obtain ⟨r, t'', hobserved, h⟩ := yields_bind.mp h
  have hsame := (yields_observe.mp hobserved).symm.trans hprogram
  obtain ⟨rfl, -⟩ := Prod.mk.inj hsame
  obtain ⟨rfl, -⟩ := yields_pure.mp h
  exact locate_failingPc hfull

/-! ## Refused operations -/

/-- Where a program refuses a call of an operation, the operation ends with the failure of the
program, unless the report seems to be about another application than that of the client. -/
theorem outcome_of_refusal (hprograms : a.ledger.programs.Remembers) (ha : a ∈ op.attempts c s)
    (hrefused : a.refusal? = some (refusal id message app pc)) (hmessage : '\n' ∉ message.toList) :
    ∃ u e, Onward c s u ∧
      ((op.perform (Ledger.network Ledger.compiler) c).outcome s).1 = .error e ∧
      if c.isForeign { transaction := id, message, pc, app := firstNamed message app } then
        e = .submission (a.reason (refusal id message app pc))
      else ∃ place t, Yields (c.approvalLine (Ledger.network Ledger.compiler) pc) u place t ∧
        e = .logic { reason := a.reason (refusal id message app pc), transaction := some id,
                     pc := some pc, line := place.map Prod.fst,
                     listing := place.elim [] Prod.snd } := by
  obtain ⟨u, honward, -, hended⟩ := settled_of_attempt ha
  obtain ⟨e, t, hexplained, hfails⟩ := hended _ hrefused
  have hreport := ofText?_reason hprograms hrefused hmessage
  have hcase := explain_of_report hreport hexplained
  refine ⟨u, e, honward, congrArg Prod.fst hfails, ?_⟩
  split at hcase
  · next hforeign => rwa [if_pos hforeign]
  · next hforeign =>
    obtain ⟨place, hplace, he⟩ := hcase
    rw [if_neg hforeign]
    exact ⟨place, t, hplace, he⟩

end Client

/-- The text in which a ledger refuses a group in the words of a program gives the transaction, the
words and the program counter as they were, and the application unless the words name another one
first. In that case alone an operation of a client of the application ends with an error of
submission, and else with the failure of the program. -/
theorem explained_of_refusal (hprograms : a.ledger.programs.Remembers)
    (hrefused : a.refusal? = some (refusal id message app pc)) (hmessage : '\n' ∉ message.toList) :
    let reason := a.reason (refusal id message app pc)
    a.Refused id message app pc ∧ id.length = 52 ∧
      LogicError.Report.ofText? reason =
        some { transaction := id, message, pc, app := firstNamed message app } ∧
      ∀ (c : Client) (op : Client.Operation) (s : Session Ledger),
        c.appId = app → app ≠ 0 → a ∈ op.attempts c s →
        let ending := ((op.perform (Ledger.network Ledger.compiler) c).outcome s).1
        if (firstNamed message app).any (· ≠ app.toNat) then ending = .error (.submission reason)
        else ∃ line listing,
          ending = .error (.logic
            { reason, transaction := some id, pc := some pc, line, listing }) := by
  have hrun := refused_of_refusal hrefused
  refine ⟨hrun, (refusal_bounds hprograms hrun).1.1, ofText?_reason hprograms hrefused hmessage, ?_⟩
  intro c op s happ hdeployed ha
  obtain ⟨u, e, -, hending, hcase⟩ := Client.outcome_of_refusal hprograms ha hrefused hmessage
  have hforeign : c.isForeign { transaction := id, message, pc, app := firstNamed message app } =
      (firstNamed message app).any (· ≠ app.toNat) := by
    rw [Client.isForeign, happ]
    simp [hdeployed]
  rw [hforeign] at hcase
  dsimp only
  rw [hending]
  split at hcase
  · next hother =>
    rw [if_pos hother]
    exact congrArg Except.error hcase
  · next hother =>
    obtain ⟨place, t, -, rfl⟩ := hcase
    rw [if_neg hother]
    exact ⟨_, _, rfl⟩

/-! ## An application that refuses every call -/

/-- A client of an application with the source as its approval program. -/
def strictClient (source : String) : Client where
  app :=
    { name := "strict", approval := source, clear := "int 1", version := 8
      declarations := [], handlers := [], createMethod := none, methods := [] }
  family := 0
  appId := 1001
  signer := some ⟨0, .logicSig { logic := [8, 1] }⟩

/-- A ledger on which the program of the application refuses every call in the given words. -/
def strictLedger (source words : String) : Ledger :=
  let record : AppRecord := ⟨.zero, Stub.bytecode source 8, [8], {}, {}, 0, .empty⟩
  { ({} : Ledger).register source 8 (fun _ => .error words) with
    state := { apps := Table.empty.put 1001 record } }

/-- The failing line is the last of 40. -/
def farSource : String :=
  String.ofList (List.replicate 39 '\n' ++ ['e', 'r', 'r'])

/-- What becomes of an account that opts in: what is refused, the codes and the sources that the
ledger knew then, and the text of the refusal or the line of the failure that is reported. -/
def strictRun (source words : String) :
    List (Option GroupRejection × List Bytes × List String) × Option (String ⊕ Nat) :=
  let ending := Client.Operation.watch (.optIn {}) (strictClient source)
    { world := strictLedger source words }
  (ending.2.world.2.map fun a => (a.refusal?, a.ledger.programs.approvals.entries.map Prod.fst,
      a.ledger.programs.sources.entries.map Prod.snd),
    match ending.1 with
    | .error (.logic e) => e.line.map .inr
    | .error (.submission reason) => some (.inl reason)
    | _ => none)

section StrictRun

variable {source words reason : String} {line : Nat} {result : Option (String ⊕ Nat)}
  {known : Option GroupRejection × List Bytes × List String}
  {attempts : List (Option GroupRejection × List Bytes × List String)}

theorem attempt_of_strictRun (h : strictRun source words = ([known], result)) :
    ∃ a ∈ Client.Operation.attempts (.optIn {}) (strictClient source)
        { world := strictLedger source words },
      a.refusal? = known.1 ∧ a.ledger.programs.approvals.entries.map Prod.fst = known.2.1 ∧
        a.ledger.programs.sources.entries.map Prod.snd = known.2.2 := by
  obtain ⟨hseen, -⟩ := Prod.mk.inj h
  obtain ⟨a, hattempts, rfl⟩ := List.map_eq_singleton_iff.mp hseen
  have hmem : a ∈ [a] := List.mem_singleton.mpr rfl
  rw [← hattempts] at hmem
  exact ⟨a, hmem, rfl, rfl, rfl⟩

theorem line_of_strictRun (h : strictRun source words = (attempts, some (.inr line))) :
    ∃ e, (((strictClient source).optIn (Ledger.network Ledger.compiler) {}).outcome
      { world := strictLedger source words }).1 = .error (.logic e) ∧ e.line = some line := by
  have hresult := Client.result_of_watch (.optIn {}) (strictClient source)
    { world := strictLedger source words }
  obtain ⟨-, hend⟩ := Prod.mk.inj h
  split at hend
  · next e he =>
    obtain ⟨line', hline, heq⟩ := Option.map_eq_some_iff.mp hend
    exact ⟨e, hresult.trans he, hline.trans (congrArg some (Sum.inr.inj heq))⟩
  · exact absurd (Option.some.inj hend) nofun
  · exact absurd hend nofun

theorem text_of_strictRun (h : strictRun source words = (attempts, some (.inl reason))) :
    (((strictClient source).optIn (Ledger.network Ledger.compiler) {}).outcome
      { world := strictLedger source words }).1 = .error (.submission reason) := by
  have hresult := Client.result_of_watch (.optIn {}) (strictClient source)
    { world := strictLedger source words }
  obtain ⟨-, hend⟩ := Prod.mk.inj h
  split at hend
  · obtain ⟨line', -, heq⟩ := Option.map_eq_some_iff.mp hend
    exact absurd heq nofun
  · next reason' he =>
    obtain rfl := Sum.inl.inj (Option.some.inj hend)
    exact hresult.trans he
  · exact absurd hend nofun

theorem remembers_strictLedger : (strictLedger source words).programs.Remembers := by
  let op := LedgerOp.register source 8 fun _ => .error words
  have hregistered : ((({} : Ledger).perform op).programs).Remembers :=
    Ledger.remembers_perform ProgramTable.remembers_empty op
  exact hregistered

end StrictRun

def optInId : String := "DTUBXEGR5SURORTFQMH24JG5LF2HENT5NDYHS34CTKJU3GGP4YEQ"

theorem strictRun_far : strictRun farSource "no" =
    ([(some (refusal optInId "no" 1001 32), [Stub.bytecode farSource 8],
      [pragma 8 ++ farSource])], some (.inr 33)) := by
  decide +kernel

theorem explained_of_refusal_far : ∃ a ∈ Client.Operation.attempts (.optIn {})
      (strictClient farSource) { world := strictLedger farSource "no" },
    a.ledger.programs.Remembers ∧ a.refusal? = some (refusal optInId "no" 1001 32) ∧
      '\n' ∉ "no".toList ∧
      LogicError.Report.ofText? (a.reason (refusal optInId "no" 1001 32)) =
        some { transaction := optInId, message := "no", pc := 32, app := some 1001 } ∧
      ∃ e, (((strictClient farSource).optIn (Ledger.network Ledger.compiler) {}).outcome
        { world := strictLedger farSource "no" }).1 = .error (.logic e) := by
  obtain ⟨a, ha, hrefused, -⟩ := attempt_of_strictRun strictRun_far
  have hprograms := Client.remembers_of_attempt remembers_strictLedger ha
  have hplain : '\n' ∉ "no".toList := by decide
  obtain ⟨-, -, hreport, hending⟩ := explained_of_refusal hprograms hrefused hplain
  have hown : firstNamed "no" 1001 = some 1001 := by decide
  have hsame : ¬ (some 1001 : Option Nat).any (· ≠ (1001 : UInt64).toNat) = true := by decide
  have hlogic := hending (strictClient farSource) (.optIn {}) _ rfl (by decide) ha
  rw [hown] at hreport hlogic
  rw [if_neg hsame] at hlogic
  obtain ⟨line, listing, hlogic⟩ := hlogic
  exact ⟨a, ha, hprograms, hrefused, hplain, hreport, _, hlogic⟩

/-- The words of the program name another application, and its failure is not recognised. -/
theorem refusal_not_recognised : ∃ a ∈ Client.Operation.attempts (.optIn {})
      (strictClient "err") { world := strictLedger "err" "not for app=1" },
    let why := refusal optInId "not for app=1" 1001 1
    a.refusal? = some why ∧
      (((strictClient "err").optIn (Ledger.network Ledger.compiler) {}).outcome
        { world := strictLedger "err" "not for app=1" }).1 =
          .error (.submission ("TransactionPool.Remember: " ++ why.message)) := by
  have hrun : strictRun "err" "not for app=1" =
      ([(some (refusal optInId "not for app=1" 1001 1), [Stub.bytecode "err" 8],
        [pragma 8 ++ "err"])],
      some (.inl ("TransactionPool.Remember: " ++
        (refusal optInId "not for app=1" 1001 1).message))) := by
    decide +kernel
  obtain ⟨a, ha, hrefused, -⟩ := attempt_of_strictRun hrun
  exact ⟨a, ha, hrefused, text_of_strictRun hrun⟩

namespace Client

variable {c : Client} {op : Operation} {s : Session Ledger} {full : String}

/-- A failure of the client's own program is located at the line of the source that is `err`, or at
its last line, as long as that is not beyond the length of the code. -/
theorem located_of_refusal {index : Nat} {call : AppCall} {e : LogicError}
    (hprograms : s.world.programs.Remembers) (hready : Ready c full s)
    (hfull : withPragma c.app.approval c.app.version = .ok full) (ha : a ∈ op.attempts c s)
    (hdistinct : a.ledger.programs.Distinguishes full)
    (hrefused : a.refusal? = some (refusal id message app pc)) (hmessage : '\n' ∉ message.toList)
    (hprogram : Refuses a.ledger.programs (a.signed.map (·.transaction)) index call app message pc
      (Stub.bytecode c.app.approval c.app.version))
    (hlogic : ((op.perform (Ledger.network Ledger.compiler) c).outcome s).1 = .error (.logic e)) :
    e.line = some (min (Stub.failingLine full) 33) := by
  have hknown := remembers_of_attempt hprograms ha
  obtain ⟨u, e', honward, hending, hcase⟩ :=
    outcome_of_refusal hknown ha hrefused hmessage
  obtain rfl := Except.error.inj (hending.symm.trans hlogic)
  split at hcase
  · exact absurd hcase nofun
  · obtain ⟨place, t, hplace, he⟩ := hcase
    obtain rfl := ClientError.logic.inj he
    obtain ⟨s', record, program, -, -, happroval, -, hpc⟩ := hprogram
    have hcontains : a.ledger.programs.approvals.contains
        (Stub.bytecode c.app.approval c.app.version) = true :=
      Option.isSome_iff_exists.mpr ⟨program, happroval⟩
    rw [hpc, hknown.failingPc_eq hdistinct hfull hcontains] at hplace
    exact line_of_approvalLine hfull (honward.ready full hfull hready) hplace

theorem withPragma_far : withPragma farSource 8 = .ok (pragma 8 ++ farSource) := by
  have hnone : declaredVersion farSource = none := by decide +kernel
  rw [withPragma, hnone]

theorem located_of_refusal_far : ∃ a ∈ Operation.attempts (.optIn {}) (strictClient farSource)
      { world := strictLedger farSource "no" }, ∃ index call e,
    (strictLedger farSource "no").programs.Remembers ∧
      Ready (strictClient farSource) (pragma 8 ++ farSource)
        { world := strictLedger farSource "no" } ∧
      a.ledger.programs.Distinguishes (pragma 8 ++ farSource) ∧
      a.refusal? = some (refusal optInId "no" 1001 32) ∧ '\n' ∉ "no".toList ∧
      Refuses a.ledger.programs (a.signed.map (·.transaction)) index call 1001 "no" 32
        (Stub.bytecode farSource 8) ∧
      (((strictClient farSource).optIn (Ledger.network Ledger.compiler) {}).outcome
        { world := strictLedger farSource "no" }).1 = .error (.logic e) ∧
      e.line = some (min (Stub.failingLine (pragma 8 ++ farSource)) 33) := by
  obtain ⟨a, ha, hrefused, hcodes, hsources⟩ := attempt_of_strictRun strictRun_far
  obtain ⟨e, hlogic, -⟩ := line_of_strictRun strictRun_far
  have hplain : '\n' ∉ "no".toList := by decide
  have hready : Ready (strictClient farSource) (pragma 8 ++ farSource)
      { world := strictLedger farSource "no" } := .inr rfl
  have hdistinct : a.ledger.programs.Distinguishes (pragma 8 ++ farSource) := by
    intro code source hget _
    have hmem := List.mem_map_of_mem (Table.mem_entries_of_get? hget) (f := Prod.snd)
    rw [hsources] at hmem
    exact List.mem_singleton.mp hmem
  obtain ⟨stxn, -, -, index, call, code, -, hrefuses⟩ := refused_of_refusal hrefused
  have hcode : code = Stub.bytecode farSource 8 := by
    obtain ⟨s, record, program, -, -, hprogram, -⟩ := hrefuses
    have hmem := List.mem_map_of_mem (Table.mem_entries_of_get? hprogram) (f := Prod.fst)
    rw [hcodes] at hmem
    exact List.mem_singleton.mp hmem
  rw [hcode] at hrefuses
  exact ⟨a, ha, index, call, e, remembers_strictLedger, hready, hdistinct, hrefused, hplain,
    hrefuses, hlogic, located_of_refusal remembers_strictLedger hready withPragma_far ha hdistinct
      hrefused hplain hrefuses hlogic⟩

/-- The last line of the source is reported as the last line that the code has room for. -/
theorem far_line_not_reported : Stub.failingLine (pragma 8 ++ farSource) = 41 ∧
    ∃ e, (((strictClient farSource).optIn (Ledger.network Ledger.compiler) {}).outcome
      { world := strictLedger farSource "no" }).1 = .error (.logic e) ∧ e.line = some 33 := by
  refine ⟨?_, line_of_strictRun strictRun_far⟩
  decide +kernel

end Client

end AppLedger
