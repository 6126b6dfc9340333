import AppLedger.Client.Call
import AppLedger.Proofs.Transaction.Fee

/-! The calls that a client builds before it sends anything: what is known of their arguments and
their transactions, and of the groups that hold nothing else. -/

namespace AppLedger

theorem MethodArg.resolve_cases {m : Abi.Method} {args : List MethodArg} {sender : Address}
    {app : UInt64} {references : References} {call : ResolvedCall}
    (h : resolve m args sender app references = .ok call) :
    args.length = m.args.length ∧ ∃ signature p selector encoded,
      packFrom ⟨signature, sender, app⟩ 0 m.args args { references } = .ok p ∧
      p.references.excess? = none ∧ m.selector = .ok selector ∧
      Abi.Method.encodeArgs p.types p.values = .ok encoded ∧
      call = { args := selector :: encoded, references := p.references,
               transactions := p.transactions } := by
  obtain ⟨signature, -, h⟩ := bind_eq_ok.mp h
  by_cases hlength : args.length ≠ m.args.length
  · simp only [if_pos hlength] at h
    exact absurd h throw_bind_ne_ok
  · simp only [if_neg hlength] at h
    obtain ⟨p, hp, h⟩ := bind_eq_ok.mp h
    cases hexcess : p.references.excess? with
    | some excess =>
      simp only [hexcess] at h
      exact absurd h throw_ne_ok
    | none =>
      simp only [hexcess] at h
      obtain ⟨selector, hselector, h⟩ := bind_eq_ok.mp h
      obtain ⟨encoded, hencoded, h⟩ := bind_eq_ok.mp h
      exact ⟨not_not.mp hlength, signature, p, selector, encoded, mapError_eq_ok.mp hp, hexcess,
        mapError_eq_ok.mp hselector, mapError_eq_ok.mp hencoded, (Except.ok.inj h).symm⟩

namespace Client

variable {c : Client} {x : Context} {body : CallBody} {o : CallOptions}

theorem deployedId_eq_ok {app : UInt64} : c.deployedId = .ok app ↔ c.appId ≠ 0 ∧ c.appId = app := by
  rw [deployedId]
  by_cases happ : c.appId = 0
  · rw [if_pos happ]
    simp [happ]
  · rw [if_neg happ, Except.ok.injEq, and_iff_right happ]

theorem callTransaction_cases {args : List Bytes} {refs : References} {member : Member}
    (h : callTransaction x body args refs o = .ok member) :
    (callFields x body args refs o).validate = .ok () ∧
      ∃ fee, member.transaction =
        (Transaction.appCall (callFields x body args refs o)).withFee fee := by
  obtain ⟨_, hvalid, h⟩ := bind_eq_ok.mp h
  obtain ⟨t, hfee, h⟩ := bind_eq_ok.mp h
  obtain rfl := Except.ok.inj h
  obtain ⟨_, -, -, hassigned⟩ := Transaction.assignFee_eq_ok.mp (mapError_eq_ok.mp hfee)
  exact ⟨mapError_eq_ok.mp hvalid, _, hassigned⟩

theorem methodCall_cases {spec : MethodSpec} {args : List MethodArg} {call : MethodCall}
    (h : methodCall x body spec args o = .ok call) :
    ∃ ordered resolved,
      MethodArg.orderAllFields spec.method spec.hints spec.method.args args = .ok ordered ∧
      MethodArg.resolve spec.method ordered x.sender body.app o.references = .ok resolved ∧
      callTransaction x body resolved.args resolved.references o = .ok call.call ∧
      call.before = resolved.transactions := by
  obtain ⟨ordered, hordered, h⟩ := bind_eq_ok.mp h
  obtain ⟨resolved, hresolved, h⟩ := bind_eq_ok.mp h
  obtain ⟨member, hmember, h⟩ := bind_eq_ok.mp h
  obtain rfl := Except.ok.inj h
  exact ⟨ordered, resolved, mapError_eq_ok.mp hordered, hresolved, hmember, rfl⟩

theorem groupOf_single {call : MethodCall} {g : AtomicGroup} (hbefore : call.before = [])
    (h : groupOf call = .ok g) :
    g = { members := [call.call], methods := [(0, call.method)] } := by
  have hroom : ({} : AtomicGroup).checkRoom (call.before.length + 1) = .ok () := by
    rw [hbefore]
    rfl
  rw [groupOf, AtomicGroup.addMethodCall, hroom, hbefore] at h
  by_cases hgrouped : call.call.transaction.header.group.isSome = true
  · simp [AtomicGroup.pushAll, hgrouped] at h
  · simp only [AtomicGroup.pushAll, List.nil_append, if_neg hgrouped] at h
    exact (Except.ok.inj h).symm

end Client

end AppLedger
