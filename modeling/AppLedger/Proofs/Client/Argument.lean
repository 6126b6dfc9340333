import AppLedger.Proofs.Abi.Method
import AppLedger.Proofs.Client.References

/-! A call carries the arguments that its caller gave: the called program finds them again in the
slots, the references and the transactions before the call. -/

namespace AppLedger

/-- An argument as the called program finds it. -/
inductive Received
  | value (v : Abi.Value)
  | account (address : Address)
  | application (id : UInt64)
  | asset (id : UInt64)
  | transaction (member : Member)

/-- The type of the value in the slots that stands for an argument. Transactions have none. -/
def Abi.ArgType.slotType? : Abi.ArgType → Option Abi.Ty
  | .value ty => some ty
  | .reference _ => some .uint8
  | .transaction _ => none

def References.resource? (refs : References) (sender : Address) (app : UInt64) :
    Abi.ReferenceKind → Nat → Option Received
  | .account, i => (refs.accountAt? sender i).map .account
  | .application, i => (refs.appAt? app i).map .application
  | .asset, i => refs.assets[i]?.map .asset

namespace References

variable {sender : Address} {app : UInt64} {refs refs' : References} {kind : Abi.ReferenceKind}
  {i : Nat} {resource : Received}

theorem Grows.resource? (h : refs.Grows sender app refs')
    (hi : refs.resource? sender app kind i = some resource) :
    refs'.resource? sender app kind i = some resource := by
  cases kind with
  | account =>
    obtain ⟨account, haccount, rfl⟩ := Option.map_eq_some_iff.mp hi
    exact Option.map_eq_some_iff.mpr ⟨account, h.accountAt? haccount, rfl⟩
  | application =>
    obtain ⟨id, hid, rfl⟩ := Option.map_eq_some_iff.mp hi
    exact Option.map_eq_some_iff.mpr ⟨id, h.appAt? hid, rfl⟩
  | asset =>
    obtain ⟨id, hid, rfl⟩ := Option.map_eq_some_iff.mp hi
    exact Option.map_eq_some_iff.mpr ⟨id, h.assets.getElem?_eq_some hid, rfl⟩

/-- An index fits into one byte once the references are within the limits of a call. -/
theorem index_lt_of_resource? (h : refs.excess? = none)
    (hi : refs.resource? sender app kind i = some resource) : i < 256 := by
  obtain ⟨haccounts, happs, hassets⟩ := length_le_of_excess? h
  cases kind with
  | account =>
    obtain ⟨account, haccount, -⟩ := Option.map_eq_some_iff.mp hi
    cases i with
    | zero => omega
    | succ i =>
      have hlt := (List.getElem?_eq_some_iff.mp haccount).1
      omega
  | application =>
    obtain ⟨id, hid, -⟩ := Option.map_eq_some_iff.mp hi
    cases i with
    | zero => omega
    | succ i =>
      have hlt := (List.getElem?_eq_some_iff.mp hid).1
      omega
  | asset =>
    obtain ⟨id, hid, -⟩ := Option.map_eq_some_iff.mp hi
    have hlt := (List.getElem?_eq_some_iff.mp hid).1
    omega

end References

namespace ResolvedCall

/-- The arguments behind the values of the slots and the transactions before the call, all of
which are used. -/
def readArgs? (refs : References) (sender : Address) (app : UInt64) :
    List Abi.ArgType → List Abi.Value → List Member → Option (List Received)
  | [], [], [] => some []
  | .value _ :: types, v :: values, members => do
    let rest ← readArgs? refs sender app types values members
    return .value v :: rest
  | .reference kind :: types, .uint i :: values, members => do
    let resource ← refs.resource? sender app kind i
    let rest ← readArgs? refs sender app types values members
    return resource :: rest
  | .transaction _ :: types, values, member :: members => do
    let rest ← readArgs? refs sender app types values members
    return .transaction member :: rest
  | _, _, _ => none

/-- The arguments of the declared types, as the called program finds them after the selector. -/
def read? (call : ResolvedCall) (types : List Abi.ArgType) (sender : Address) (app : UInt64) :
    Option (List Received) := do
  let values ← Abi.Method.decodeArgs? (types.filterMap (·.slotType?)) call.args.tail
  readArgs? call.references sender app types values call.transactions

end ResolvedCall

namespace MethodArg

/-- What the caller gives with an argument of a declared type. Texts of addresses count as the
accounts that they name, and inside values as the texts that are written for those. -/
def given? : Abi.ArgType → MethodArg → Option Received
  | .value _, .value v | .value _, .returned ⟨_, _, some v⟩ => some (.value v.canonical)
  | .reference .account, .account address => some (.account address)
  | .reference .account, .value (.address text) =>
    (Address.ofText text).toOption.map .account
  | .reference .application, .application id => some (.application id)
  | .reference .application, .value v => v.uint64?.map fun n => .application (UInt64.ofNat n)
  | .reference .asset, .asset id => some (.asset id)
  | .reference .asset, .value v => v.uint64?.map fun n => .asset (UInt64.ofNat n)
  | .transaction _, .transaction member => some (.transaction member)
  | _, _ => none

def member? : MethodArg → Option Member
  | .transaction member => some member
  | _ => none

/-- What packing an argument of a declared type does. -/
inductive Packs (caller : Caller) (arg : MethodArg) (p : Packing) : Abi.ArgType → Packing → Prop
  | value (ty : Abi.Ty) (v : Abi.Value) (hmember : arg.member? = none)
      (hgiven : given? (.value ty) arg = some (.value v.canonical)) :
      Packs caller arg p (.value ty) (p.addValue ty v)
  | reference (kind : Abi.ReferenceKind) (placed : References × Nat) (resource : Received)
      (hmember : arg.member? = none) (hgiven : given? (.reference kind) arg = some resource)
      (hgrows : p.references.Grows caller.sender caller.app placed.1)
      (hplaced : placed.1.resource? caller.sender caller.app kind placed.2 = some resource) :
      Packs caller arg p (.reference kind) (p.addIndex placed)
  | transaction (kind : Abi.TransactionKind) (member : Member)
      (hmember : arg.member? = some member)
      (hgiven : given? (.transaction kind) arg = some (.transaction member)) :
      Packs caller arg p (.transaction kind) { p with transactions := p.transactions ++ [member] }

section Packs

variable {caller : Caller} {position : Nat} {arg : MethodArg} {p p' : Packing}

theorem packs_of_packValue {ty : Abi.Ty} (h : packValue caller position ty arg p = .ok p') :
    Packs caller arg p (.value ty) p' := by
  unfold packValue at h
  split at h
  · obtain rfl := Except.ok.inj h
    exact .value ty _ rfl rfl
  · obtain rfl := Except.ok.inj h
    exact .value ty _ rfl rfl
  · simp at h
  · simp at h

theorem packs_account {address : Address} (hmember : arg.member? = none)
    (hgiven : given? (.reference .account) arg = some (.account address)) :
    Packs caller arg p (.reference .account)
      (p.addIndex (p.references.placeAccount caller.sender address)) := by
  refine .reference .account _ _ hmember hgiven (References.grows_placeAccount ..) ?_
  rw [References.resource?, References.accountAt?_placeAccount, Option.map_some]

theorem packs_application {id : UInt64} (hmember : arg.member? = none)
    (hgiven : given? (.reference .application) arg = some (.application id)) :
    Packs caller arg p (.reference .application)
      (p.addIndex (p.references.placeApp caller.app id)) := by
  refine .reference .application _ _ hmember hgiven (References.grows_placeApp ..) ?_
  rw [References.resource?, References.appAt?_placeApp, Option.map_some]

theorem packs_asset {id : UInt64} (hmember : arg.member? = none)
    (hgiven : given? (.reference .asset) arg = some (.asset id)) :
    Packs caller arg p (.reference .asset) (p.addIndex (p.references.placeAsset id)) := by
  refine .reference .asset _ _ hmember hgiven (References.grows_placeAsset ..) ?_
  rw [References.resource?, References.getElem?_placeAsset, Option.map_some]

theorem packs_of_packReference {kind : Abi.ReferenceKind}
    (h : packReference caller position kind arg p = .ok p') :
    Packs caller arg p (.reference kind) p' := by
  unfold packReference at h
  split at h
  · obtain rfl := Except.ok.inj h
    exact packs_account rfl rfl
  · next text =>
    obtain ⟨address, haddress, h⟩ := bind_eq_ok.mp h
    obtain rfl := Except.ok.inj h
    rw [mapError_eq_ok] at haddress
    refine packs_account rfl ?_
    rw [given?, haddress]
    rfl
  · obtain rfl := Except.ok.inj h
    exact packs_application rfl rfl
  · obtain rfl := Except.ok.inj h
    exact packs_asset rfl rfl
  · split at h
    · next id hid =>
      obtain rfl := Except.ok.inj h
      refine packs_application rfl ?_
      rw [given?, hid, Option.map_some]
    · simp at h
  · split at h
    · next id hid =>
      obtain rfl := Except.ok.inj h
      refine packs_asset rfl ?_
      rw [given?, hid, Option.map_some]
    · simp at h
  · simp at h

theorem packs_of_packTransaction {kind : Abi.TransactionKind}
    (h : packTransaction caller position kind arg p = .ok p') :
    Packs caller arg p (.transaction kind) p' := by
  unfold packTransaction at h
  split at h
  · next member =>
    dsimp only at h
    split at h
    · obtain rfl := Except.ok.inj h
      exact .transaction kind member rfl rfl
    · simp at h
  · simp at h

theorem packs_of_pack {type : Abi.ArgType} (h : pack caller position type arg p = .ok p') :
    Packs caller arg p type p' := by
  cases type with
  | value ty => exact packs_of_packValue h
  | reference kind => exact packs_of_packReference h
  | transaction kind => exact packs_of_packTransaction h

end Packs

/-- What packing arguments of the declared types adds, and what is read from it later on. -/
structure PacksAll (caller : Caller) (types : List Abi.ArgType) (args : List MethodArg)
    (p p' : Packing) (values : List Abi.Value) (given : List Received) : Prop where
  slotTypes : p'.types = p.types ++ types.filterMap (·.slotType?)
  slotValues : p'.values = p.values ++ values
  members : p'.transactions = p.transactions ++ args.filterMap member?
  gives : List.zipWith given? types args = given.map some
  grows : p.references.Grows caller.sender caller.app p'.references
  reads : ∀ refs, p'.references.Grows caller.sender caller.app refs → refs.excess? = none →
    ResolvedCall.readArgs? refs caller.sender caller.app types (values.map Abi.Value.canonical)
      (args.filterMap member?) = some given

section PacksAll

variable {caller : Caller} {type : Abi.ArgType} {types : List Abi.ArgType} {arg : MethodArg}
  {args : List MethodArg} {p q p' : Packing} {values : List Abi.Value} {given : List Received}

theorem PacksAll.nil (caller : Caller) (p : Packing) : PacksAll caller [] [] p p [] [] :=
  ⟨by simp, by simp, by simp, rfl, .refl _, fun _ _ _ => rfl⟩

theorem PacksAll.cons (h : Packs caller arg p type q)
    (hrest : PacksAll caller types args q p' values given) :
    ∃ values given, PacksAll caller (type :: types) (arg :: args) p p' values given := by
  cases h with
  | value ty v hmember hgiven =>
    refine ⟨v :: values, .value v.canonical :: given, ?_, ?_, ?_, ?_, hrest.grows, ?_⟩
    · rw [hrest.slotTypes, Packing.addValue, List.append_assoc]
      rfl
    · rw [hrest.slotValues, Packing.addValue, List.append_assoc]
      rfl
    · rw [hrest.members, List.filterMap_cons_none hmember]
      rfl
    · rw [List.zipWith_cons_cons, hgiven, hrest.gives, List.map_cons]
    · intro refs hgrows hfits
      rw [List.filterMap_cons_none hmember, List.map_cons, ResolvedCall.readArgs?,
        hrest.reads refs hgrows hfits]
      rfl
  | reference kind placed resource hmember hgiven hplaces hplaced =>
    refine ⟨.uint (placed.2 % 256) :: values, resource :: given, ?_, ?_, ?_, ?_,
      hplaces.trans hrest.grows, ?_⟩
    · rw [hrest.slotTypes, Packing.addIndex, Packing.addValue, List.append_assoc]
      rfl
    · rw [hrest.slotValues, Packing.addIndex, Packing.addValue, List.append_assoc]
      rfl
    · rw [hrest.members, List.filterMap_cons_none hmember]
      rfl
    · rw [List.zipWith_cons_cons, hgiven, hrest.gives, List.map_cons]
    · intro refs hgrows hfits
      have hfinal : refs.resource? caller.sender caller.app kind placed.2 = some resource :=
        (hrest.grows.trans hgrows).resource? hplaced
      have hbyte := References.index_lt_of_resource? hfits hfinal
      have hindex : (Abi.Value.uint (placed.2 % 256)).canonical = .uint placed.2 := by
        rw [Nat.mod_eq_of_lt hbyte]
        rfl
      rw [List.filterMap_cons_none hmember, List.map_cons, hindex, ResolvedCall.readArgs?, hfinal,
        hrest.reads refs hgrows hfits]
      rfl
  | transaction kind member hmember hgiven =>
    refine ⟨values, .transaction member :: given, ?_, ?_, ?_, ?_, hrest.grows, ?_⟩
    · rw [hrest.slotTypes]
      rfl
    · rw [hrest.slotValues]
    · rw [hrest.members, List.filterMap_cons_some hmember, List.append_assoc]
      rfl
    · rw [List.zipWith_cons_cons, hgiven, hrest.gives, List.map_cons]
    · intro refs hgrows hfits
      rw [List.filterMap_cons_some hmember, ResolvedCall.readArgs?, hrest.reads refs hgrows hfits]
      rfl

theorem packsAll_of_packFrom {declared : List Abi.Arg} {position : Nat}
    (hlen : args.length = declared.length)
    (h : packFrom caller position declared args p = .ok p') :
    ∃ values given, PacksAll caller (declared.map (·.type)) args p p' values given := by
  induction declared generalizing args position p with
  | nil =>
    obtain rfl := List.length_eq_zero_iff.mp hlen
    obtain rfl := Except.ok.inj h
    exact ⟨[], [], .nil caller p⟩
  | cons arg' declared ih =>
    cases args with
    | nil => simp at hlen
    | cons arg args =>
      obtain ⟨q, hq, h⟩ := bind_eq_ok.mp h
      obtain ⟨values, given, hrest⟩ := ih (by simpa using hlen) h
      exact PacksAll.cons (packs_of_pack hq) hrest

end PacksAll

/-- The called program finds the arguments that the caller gave. Their resources are in the final
references, which begin with the initial ones. -/
theorem read_resolve {m : Abi.Method} {args : List MethodArg} {sender : Address} {app : UInt64}
    {references : References} {call : ResolvedCall}
    (h : resolve m args sender app references = .ok call) :
    (∃ selector, m.selector = .ok selector ∧ call.args.head? = some selector) ∧
      args.length = m.args.length ∧
      (∃ given, List.zipWith given? (m.args.map (·.type)) args = given.map some ∧
        call.read? (m.args.map (·.type)) sender app = some given) ∧
      references.Grows sender app call.references ∧
      call.transactions = args.filterMap member? := by
  obtain ⟨signature, -, h⟩ := bind_eq_ok.mp h
  by_cases hlen : args.length = m.args.length
  · simp only [hlen, ne_eq, not_true_eq_false, if_false] at h
    obtain ⟨p, hp, h⟩ := bind_eq_ok.mp h
    rw [mapError_eq_ok] at hp
    obtain ⟨values, given, hpacks⟩ := packsAll_of_packFrom hlen hp
    cases hexcess : p.references.excess? with
    | some excess =>
      simp only [hexcess] at h
      exact absurd h throw_ne_ok
    | none =>
      simp only [hexcess] at h
      obtain ⟨selector, hselector, h⟩ := bind_eq_ok.mp h
      obtain ⟨encoded, hencoded, h⟩ := bind_eq_ok.mp h
      obtain rfl := Except.ok.inj h
      rw [mapError_eq_ok] at hselector hencoded
      have hdecode := Abi.Method.decodeArgs?_encodeArgs hencoded
      refine ⟨⟨selector, hselector, rfl⟩, hlen, ⟨given, hpacks.gives, ?_⟩, hpacks.grows,
        hpacks.members⟩
      have htypes : p.types = (m.args.map (·.type)).filterMap (·.slotType?) := hpacks.slotTypes
      have hvalues : p.values = values := hpacks.slotValues
      have htransactions : p.transactions = args.filterMap member? := hpacks.members
      rw [ResolvedCall.read?, List.tail_cons, ← htypes, hdecode, hvalues, htransactions]
      exact hpacks.reads _ (.refl _) hexcess
  · simp only [hlen, ne_eq, not_false_eq_true, if_true] at h
    exact absurd h throw_bind_ne_ok

/-- More values than slots, among them indices of the sender, of an account that is there, of one
that comes to it, of the called application and of an asset that is given as a number twice. -/
theorem read_resolve_shared :
    let sender : Address := ⟨⟨List.replicate 32 1, by decide⟩⟩
    let other : Address := ⟨⟨List.replicate 32 2, by decide⟩⟩
    let third : Address := ⟨⟨List.replicate 32 3, by decide⟩⟩
    let header : Header := { sender, firstValid := 1, lastValid := 2 }
    let member : Member :=
      ⟨.payment ⟨header, other, 5, none⟩, ⟨0, .logicSig ⟨[1], none, none, none⟩⟩⟩
    let m : Abi.Method :=
      { name := "f"
        args := [⟨.reference .account, none, none⟩, ⟨.reference .account, none, none⟩,
          ⟨.transaction .payment, none, none⟩, ⟨.reference .account, none, none⟩,
          ⟨.reference .application, none, none⟩, ⟨.reference .asset, none, none⟩,
          ⟨.reference .asset, none, none⟩] ++
          List.replicate 9 ⟨.value .bool, none, none⟩ ++ [⟨.value .string, none, none⟩] }
    let args : List MethodArg :=
      [.account sender, .account other, .transaction member, .account third, .application 7,
        .asset 40, .value (.uint 40)] ++
        List.replicate 9 (.value (.bool true)) ++ [.value (.string "é")]
    let references : References := { accounts := [other, other], assets := [30] }
    ∃ call, resolve m args sender 7 references = .ok call ∧
      call.read? (m.args.map (·.type)) sender 7 = some
        ([.account sender, .account other, .transaction member, .account third, .application 7,
          .asset 40, .asset 40] ++ List.replicate 9 (.value (.bool true)) ++
          [.value (.string "é")]) := by
  intro sender other third header member m args references
  have hok : (resolve m args sender 7 references).toBool = true := by decide
  cases hcall : resolve m args sender 7 references with
  | error why => simp [hcall, Except.toBool] at hok
  | ok call =>
    obtain ⟨-, -, ⟨given, hgiven, hread⟩, -⟩ := read_resolve hcall
    refine ⟨call, rfl, ?_⟩
    rw [hread]
    refine congrArg some ((List.map_inj_right fun _ _ => Option.some.inj).mp ?_)
    rw [← hgiven]
    rfl

end MethodArg

end AppLedger
