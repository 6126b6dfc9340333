import AppLedger.Proofs.AtomicGroup.Sending
import AppLedger.Proofs.AtomicGroup.Sound
import Mathlib.Logic.Relation

/-! The results of a group that was executed, place by place: the identities are those of the bound
transactions, the confirmations are the answers of the node for them, and a method returns what is
logged at the place of its own call. -/

namespace AppLedger

open Effect

inductive Addition
  | transaction (m : Member)
  | call (c : MethodCall)

namespace Addition

def members : Addition → List Member
  | .transaction m => [m]
  | .call c => c.members

def call? : Addition → Option MethodCall
  | .transaction _ => none
  | .call c => some c

/-- The calls with their places, in a group that has `size` members before. -/
def placedCalls (size : Nat) : List Addition → List (Nat × MethodCall)
  | [] => []
  | .transaction _ :: rest => placedCalls (size + 1) rest
  | .call c :: rest =>
    (size + c.before.length, c) :: placedCalls (size + c.members.length) rest

theorem calls_placedCalls (size : Nat) (as : List Addition) :
    (placedCalls size as).map Prod.snd = as.filterMap call? := by
  induction as generalizing size with
  | nil => rfl
  | cons a as ih =>
    cases a with
    | transaction m =>
      have hnone : (transaction m).call? = none := rfl
      rw [placedCalls, ih, List.filterMap_cons_none hnone]
    | call c =>
      have hsome : (call c).call? = some c := rfl
      rw [placedCalls, List.map_cons, ih, List.filterMap_cons_some hsome]

/-- A call stands right behind its transactions. -/
theorem members_of_mem_placedCalls {size place : Nat} {c : MethodCall} {as : List Addition}
    (h : (place, c) ∈ placedCalls size as) :
    ∃ front back, as.flatMap members = front ++ c.before ++ c.call :: back ∧
      place = size + front.length + c.before.length := by
  induction as generalizing size with
  | nil => simp [placedCalls] at h
  | cons a as ih =>
    cases a with
    | transaction m =>
      obtain ⟨front, back, hmembers, hplace⟩ := ih h
      refine ⟨m :: front, back, ?_, ?_⟩
      · rw [List.flatMap_cons, hmembers]
        rfl
      · rw [List.length_cons]
        omega
    | call c' =>
      rcases List.mem_cons.mp h with heq | hlater
      · obtain ⟨rfl, rfl⟩ := Prod.mk.inj heq
        refine ⟨[], as.flatMap members, ?_, rfl⟩
        have hfirst : (call c).members = c.before ++ [c.call] := rfl
        simp [List.flatMap_cons, hfirst]
      · obtain ⟨front, back, hmembers, hplace⟩ := ih hlater
        refine ⟨c'.members ++ front, back, ?_, ?_⟩
        · have hfirst : (call c').members = c'.members := rfl
          rw [List.flatMap_cons, hmembers, hfirst]
          simp
        · rw [List.length_append]
          omega

end Addition

namespace AtomicGroup

open Addition

variable {g g' : AtomicGroup} {a : Addition} {as : List Addition}

def add (g : AtomicGroup) : Addition → Except ClientError Unit × AtomicGroup
  | .transaction m => g.addTransaction m
  | .call c => g.addMethodCall c

/-- The group with all of the additions, if none of them is refused. -/
def addAll (g : AtomicGroup) : List Addition → Except ClientError AtomicGroup
  | [] => .ok g
  | a :: rest =>
    match g.add a with
    | (.error why, _) => .error why
    | (.ok (), g) => g.addAll rest

def methodsOf (calls : List (Nat × MethodCall)) : List (Nat × Abi.Method) :=
  calls.map fun call => (call.1, call.2.method)

theorem add_eq_ok (h : g.add a = (.ok (), g')) :
    g' = { g with
      members := g.members ++ a.members
      methods := g.methods ++ methodsOf (placedCalls g.size [a]) } := by
  cases a with
  | transaction m =>
    obtain ⟨why, hcase⟩ | ⟨-, -, hcase⟩ := addTransaction_cases g m
    all_goals rw [add, hcase] at h
    · exact absurd (Prod.mk.inj h).1 nofun
    · obtain rfl := (Prod.mk.inj h).2
      simp [Addition.members, placedCalls, methodsOf]
  | call c =>
    obtain ⟨-, why, hcase⟩ | ⟨-, ⟨-, hcase⟩ | ⟨-, hcase⟩⟩ := addMethodCall_cases g c
    all_goals rw [add, hcase] at h
    · exact absurd (Prod.mk.inj h).1 nofun
    · obtain rfl := (Prod.mk.inj h).2
      rfl
    · exact absurd (Prod.mk.inj h).1 nofun

theorem placedCalls_cons (size : Nat) (a : Addition) (as : List Addition) :
    placedCalls size (a :: as) =
      placedCalls size [a] ++ placedCalls (size + a.members.length) as := by
  cases a <;> rfl

theorem addAll_eq_ok (h : g.addAll as = .ok g') :
    g' = { g with
      members := g.members ++ as.flatMap Addition.members
      methods := g.methods ++ methodsOf (placedCalls g.size as) } := by
  induction as generalizing g with
  | nil =>
    obtain rfl := Except.ok.inj h
    simp [placedCalls, methodsOf]
  | cons a as ih =>
    rw [addAll] at h
    rcases hadd : g.add a with ⟨why | _, g₁⟩
    all_goals rw [hadd] at h
    · exact absurd h nofun
    · have hg₁ := add_eq_ok hadd
      have hsize : g₁.size = g.size + a.members.length := by
        rw [hg₁, size, List.length_append]
        rfl
      have hcalls := placedCalls_cons g.size a as
      rw [ih h, hsize, hg₁, hcalls]
      simp [methodsOf]

/-! ## What the node answers -/

variable {σ : Type} {net : Network σ} {s s' : Session σ} {w w' : AtomicGroup × Session σ}
  {maxRounds : Option Nat} {ids : List String} {result : GroupResult}

/-- A step of the wait for a transaction. -/
inductive Polls (node : Node σ) (id : String) : σ → σ → Prop
  | lastRound (u : σ) : Polls node id u (node.lastRound.outcome u).2
  | pending (u : σ) : Polls node id u ((node.pending id).outcome u).2
  | waitForBlock (u : σ) (round : Nat) : Polls node id u ((node.waitForBlock round).outcome u).2

/-- Asked for the transactions one after the other, the node answers with the confirmations. -/
inductive Answers (node : Node σ) : σ → List String → List Confirmation → σ → Prop
  | nil (u : σ) : Answers node u [] [] u
  | cons {u v w : σ} {id : String} {c : Confirmation} {ids : List String} {cs : List Confirmation}
      (first : Yields (node.pending id) u c v) (rest : Answers node v ids cs w) :
      Answers node u (id :: ids) (c :: cs) w

theorem Answers.length_eq {node : Node σ} {u v : σ} {cs : List Confirmation}
    (h : Answers node u ids cs v) : cs.length = ids.length := by
  induction h with
  | nil => rfl
  | cons _ _ ih => rw [List.length_cons, List.length_cons, ih]

theorem answer_of_waitFrom {node : Node σ} {id : String} {budget round rounds : Nat} {u v : σ}
    {c : Confirmation} (h : Yields (waitFrom node id budget round rounds) u c v) :
    ∃ x, Relation.ReflTransGen (Polls node id) u x ∧ Yields (node.pending id) x c v ∧
      c.round.isSome := by
  induction rounds generalizing round u with
  | zero => exact absurd h not_yields_throw
  | succ rounds ih =>
    rw [waitFrom, yields_bind] at h
    obtain ⟨r, u₁, hasked, h⟩ := h
    have hpending := yields_observe.mp hasked
    have hpoll : Polls node id u u₁ := by
      have hstep : Polls node id u _ := .pending u
      rw [hpending] at hstep
      exact hstep
    cases r with
    | error why =>
      cases why with
      | notFound _ =>
        obtain ⟨x, hpolls, hanswer⟩ := ih h
        exact ⟨x, .head hpoll hpolls, hanswer⟩
      | rejected | request | decode => exact absurd h not_yields_throw
    | ok found =>
      dsimp only at h
      by_cases hdropped : found.poolError ≠ ""
      · rw [if_pos hdropped] at h
        exact absurd h not_yields_throw_bind
      · rw [if_neg hdropped] at h
        by_cases hround : found.round.isSome = true
        · simp only [if_pos hround] at h
          obtain ⟨rfl, rfl⟩ := yields_pure.mp h
          exact ⟨u, .refl, hpending, hround⟩
        · simp only [if_neg hround] at h
          obtain ⟨_, u₂, hwait, hrest⟩ := yields_bind.mp h
          have hwaited : Polls node id u₁ u₂ := by
            have hstep : Polls node id u₁ _ := .waitForBlock u₁ round
            rw [yields_observe.mp hwait] at hstep
            exact hstep
          obtain ⟨x, hpolls, hanswer⟩ := ih hrest
          exact ⟨x, .head hpoll (.head hwaited hpolls), hanswer⟩

theorem answer_of_waitForConfirmation {node : Node σ} {id : String} {budget : Nat} {u v : σ}
    {c : Confirmation} (h : Yields (waitForConfirmation node id budget) u c v) :
    ∃ x, Relation.ReflTransGen (Polls node id) u x ∧ Yields (node.pending id) x c v ∧
      c.round.isSome := by
  obtain ⟨last, u₁, hlast, hwait⟩ := yields_bind.mp h
  obtain ⟨x, hpolls, hanswer⟩ := answer_of_waitFrom hwait
  have hasked : Polls node id u u₁ := by
    have hworld : (node.lastRound.outcome u).2 = u₁ := congrArg Prod.snd hlast
    exact hworld ▸ Polls.lastRound u
  exact ⟨x, .head hasked hpolls, hanswer⟩

theorem yields_ask {α : Type} {x : Effect NodeError σ α} {a : α}
    (h : Yields (onSession (Session.ask x)) w a w') :
    Yields x w.2.world a w'.2.world ∧ w'.1 = w.1 := by
  obtain ⟨g, s⟩ := w
  rw [Yields, outcome_ask] at h
  obtain ⟨hanswer, rfl⟩ := Prod.mk.inj h
  exact ⟨Prod.ext (mapError_eq_ok.mp hanswer) rfl, rfl⟩

theorem answers_of_mapM {cs : List Confirmation}
    (h : Yields (ids.mapM fun id => onSession (Session.ask (net.node.pending id))) w cs w') :
    Answers net.node w.2.world ids cs w'.2.world ∧ w'.1 = w.1 := by
  induction ids generalizing w cs with
  | nil =>
    obtain ⟨rfl, rfl⟩ := yields_pure.mp h
    exact ⟨.nil _, rfl⟩
  | cons id ids ih =>
    rw [List.mapM_cons] at h
    obtain ⟨c, w₁, hfirst, h⟩ := yields_bind.mp h
    obtain ⟨rest, w₂, hrest, h⟩ := yields_bind.mp h
    obtain ⟨rfl, rfl⟩ := yields_pure.mp h
    obtain ⟨hanswer, hgroup⟩ := yields_ask hfirst
    obtain ⟨hanswers, hgroup'⟩ := ih hrest
    exact ⟨.cons hanswer hanswers, hgroup'.trans hgroup⟩

/-! ## Execution -/

/-- A group that is not bound yet is bound, signed and handed over as a whole. -/
theorem sent_of_submit (hbuilt : g.built = none) (hsigned : g.signed = none)
    (h : Yields (submit net) (g, s) ids (g', s')) :
    ∃ built signed taken, Binds g.members built ∧ g'.built = some built ∧
      signed.map (·.transaction) = built.map (·.transaction) ∧
      AtomicGroup.ids signed = .ok ids ∧ Yields (net.node.submit signed) s.world taken s'.world ∧
      g'.methods = g.methods := by
  obtain ⟨-, hcase⟩ | ⟨-, ⟨why, hcase⟩ | ⟨signed, ids', hgathered, hids, hcase⟩⟩ :=
    submit_cases net g s
  all_goals rw [Yields, hcase] at h
  · simp at h
  · simp at h
  obtain ⟨_, hsome, -⟩ | ⟨-, ⟨why, hgather⟩ | ⟨built, signed', hbuild, hwraps, hgather⟩⟩ :=
    gatherSignatures_cases g
  · rw [hsigned] at hsome
    cases hsome
  · rw [hgather] at hgathered
    cases hgathered
  rw [hgather] at hgathered h
  obtain rfl := Except.ok.inj hgathered
  obtain ⟨_, hsome, -⟩ | ⟨-, ⟨why, hcase'⟩ | ⟨built', hbound, hcase'⟩⟩ := build_cases g
  · rw [hbuilt] at hsome
    cases hsome
  · rw [hcase'] at hbuild
    cases hbuild
  rw [hcase'] at hbuild h
  obtain rfl := Except.ok.inj hbuild
  rcases hsent : (net.node.submit signed').outcome s.world with ⟨why | taken, world⟩
  all_goals
    rw [hsent] at h
    dsimp only at h
  · simp at h
  · obtain ⟨hyielded, hleft⟩ := Prod.mk.inj h
    obtain rfl := Except.ok.inj hyielded
    obtain ⟨rfl, rfl⟩ := Prod.mk.inj hleft
    exact ⟨built', signed', taken, binds_of_boundMembers hbound, rfl, hwraps, hids, hsent, rfl⟩

theorem length_of_binds {members built : List Member} (h : Binds members built) :
    built.length = members.length := by
  obtain ⟨-, rfl⟩ | ⟨-, id, -, rfl⟩ := h
  · rfl
  · rw [List.length_map]

theorem ids_eq_ok {signed : List SignedTransaction} (h : AtomicGroup.ids signed = .ok ids) :
    List.Forall₂ (fun t id => t.id = .ok id) (signed.map (·.transaction)) ids := by
  rw [List.forall₂_map_left_iff]
  exact mapM_eq_ok.mp (mapError_eq_ok.mp h)

theorem returnOf_eq_ok {cs : List Confirmation} {call : Nat × Abi.Method} {r : Abi.Return}
    (h : returnOf cs call = .ok r) :
    ∃ c, cs[call.1]? = some c ∧ call.2.parseReturn c.logs = .ok r := by
  rw [returnOf] at h
  cases hplace : cs[call.1]? with
  | none =>
    rw [hplace] at h
    cases h
  | some c =>
    rw [hplace] at h
    cases hparse : call.2.parseReturn c.logs with
    | ok r' =>
      simp only [hparse] at h
      obtain rfl := Except.ok.inj h
      exact ⟨c, rfl, hparse⟩
    | error why => cases why <;> simp [hparse] at h

/-- After an execution has sent the group, it waits for the first member, asks for the others, and
reads what the methods have returned. -/
theorem execute_yields_cases (h : Yields (execute net maxRounds) (g, s) result (g', s')) :
    ∃ g₁ s₁ polled, Yields (submit net) (g, s) result.ids (g₁, s₁) ∧
      Relation.ReflTransGen (Polls net.node (result.ids.headD "")) s₁.world polled ∧
      Answers net.node polled result.ids result.confirmations s'.world ∧
      g₁.returns result.confirmations = .ok result.returns ∧
      g' = { g₁ with status := .committed } := by
  obtain ⟨ids, ⟨g₁, s₁⟩, hsubmit, h⟩ := yields_bind.mp h
  cases ids with
  | nil => exact absurd h not_yields_throw
  | cons first rest =>
    obtain ⟨w, _, hget, h⟩ := yields_bind.mp h
    obtain ⟨hw, rfl⟩ := Prod.mk.inj hget
    obtain rfl := Except.ok.inj hw
    obtain ⟨confirmed, w₂, hwait, h⟩ := yields_bind.mp h
    obtain ⟨others, w₃, hothers, h⟩ := yields_bind.mp h
    obtain ⟨_, w₄, hcommitted, h⟩ := yields_bind.mp h
    obtain ⟨returns, w₅, hreturns, h⟩ := yields_bind.mp h
    obtain ⟨rfl, rfl⟩ := yields_pure.mp h
    obtain ⟨hwait, hgroup₂⟩ := yields_onSnd.mp hwait
    obtain ⟨world, hwait, hsession⟩ := yields_onPart.mp hwait
    obtain ⟨polled, hpolls, hfirst, -⟩ := answer_of_waitForConfirmation hwait
    have hworld : w₂.2.world = world := hsession ▸ rfl
    obtain ⟨hrest, hgroup₃⟩ := answers_of_mapM hothers
    obtain ⟨-, rfl⟩ := Prod.mk.inj hcommitted
    obtain ⟨hreturned, hleft⟩ := Prod.mk.inj hreturns
    obtain ⟨rfl, rfl⟩ := Prod.mk.inj hleft
    have hgroup : w₃.1 = g₁ := hgroup₃.trans hgroup₂
    refine ⟨g₁, s₁, polled, hsubmit, hpolls, .cons hfirst (hworld ▸ hrest), ?_, ?_⟩
    · exact hgroup ▸ hreturned
    · rw [← hgroup]

/-- The results of a group with the additions, place by place: of the members as they are bound, and
of what the node answers from the world `sent` on, where it has taken the group. -/
structure LinesUp (node : Node σ) (as : List Addition) (built : List Member) (sent left : σ)
    (result : GroupResult) : Prop where
  bound : Binds (as.flatMap Addition.members) built
  calls : (placedCalls 0 as).map Prod.snd = as.filterMap call?
  places : ∀ place c, (place, c) ∈ placedCalls 0 as → ∃ front back,
    as.flatMap Addition.members = front ++ c.before ++ c.call :: back ∧
      place = (front ++ c.before).length
  ids : List.Forall₂ (fun m id => m.transaction.id = .ok id) built result.ids
  confirmations : ∃ polled, Relation.ReflTransGen (Polls node (result.ids.headD "")) sent polled ∧
    Answers node polled result.ids result.confirmations left
  returns : List.Forall₂ (fun call r => ∃ c, result.confirmations[call.1]? = some c ∧
    call.2.method.parseReturn c.logs = .ok r) (placedCalls 0 as) result.returns

theorem linesUp_of_confirmed {built : List Member} {sent polled left : σ}
    (hbound : Binds (as.flatMap Addition.members) built)
    (hids : List.Forall₂ (fun m id => m.transaction.id = .ok id) built result.ids)
    (hpolls : Relation.ReflTransGen (Polls net.node (result.ids.headD "")) sent polled)
    (hanswers : Answers net.node polled result.ids result.confirmations left)
    (hmethods : g.methods = methodsOf (placedCalls 0 as))
    (hreturns : g.returns result.confirmations = .ok result.returns) :
    LinesUp net.node as built sent left result where
  bound := hbound
  calls := calls_placedCalls 0 as
  places place c hmem := by
    obtain ⟨front, back, hmembers, hplace⟩ := members_of_mem_placedCalls hmem
    refine ⟨front, back, hmembers, ?_⟩
    rw [hplace, List.length_append]
    omega
  ids := hids
  confirmations := ⟨polled, hpolls, hanswers⟩
  returns := by
    have hall := mapM_eq_ok.mp hreturns
    rw [hmethods, methodsOf, List.forall₂_map_left_iff] at hall
    exact hall.imp fun _ _ => returnOf_eq_ok

/-- Where a group is executed, its results line up with the additions that it is made of: one
identity and one confirmation for each transaction, and one return value for each call, which is
read from the logs at the place of the call, right behind its transactions. -/
theorem linesUp_of_execute (net : Network σ) (maxRounds : Option Nat) (as : List Addition)
    (g g' : AtomicGroup) (s s' : Session σ) (result : GroupResult)
    (hadded : ({} : AtomicGroup).addAll as = .ok g)
    (hexecuted : Yields (execute net maxRounds) (g, s) result (g', s')) :
    g.members = as.flatMap Addition.members ∧ result.ids.length = g.size ∧
      result.confirmations.length = g.size ∧
      ∃ built signed taken sent, g'.built = some built ∧
        signed.map SignedTransaction.transaction = built.map (·.transaction) ∧
        Yields (net.node.submit signed) s.world taken sent ∧
        LinesUp net.node as built sent s'.world result := by
  have hg := addAll_eq_ok hadded
  have hmembers : g.members = as.flatMap Addition.members := congrArg AtomicGroup.members hg
  have hmethods : g.methods = methodsOf (placedCalls 0 as) := congrArg AtomicGroup.methods hg
  obtain ⟨g₁, s₁, polled, hsubmit, hpolls, hanswers, hreturns, hleft⟩ :=
    execute_yields_cases hexecuted
  obtain ⟨built, signed, taken, hbound, hbuilt, hwraps, hids, hsent, hkept⟩ :=
    sent_of_submit (congrArg AtomicGroup.built hg) (congrArg AtomicGroup.signed hg) hsubmit
  have hids := ids_eq_ok hids
  rw [hwraps, List.forall₂_map_left_iff] at hids
  have hlength : result.ids.length = g.size := by
    rw [← hids.length_eq, length_of_binds hbound, size]
  refine ⟨hmembers, hlength, hanswers.length_eq.trans hlength, built, signed, taken, s₁.world,
    hleft ▸ hbuilt, hwraps, hsent, ?_⟩
  exact linesUp_of_confirmed (hmembers ▸ hbound) hids hpolls hanswers (hkept.trans hmethods) hreturns

/-! ## A payment, and a call with a payment in front -/

def depositAdditions : List Addition :=
  let program : LogicSig := { logic := [8, 1] }
  let header : Header :=
    { sender := program.address, fee := some 1000, firstValid := 1, lastValid := 100 }
  let payment : Transaction := .payment { header, receiver := Address.zero, amount := 5 }
  let call : Transaction := .appCall { header := { header with note := some [1] }, app := 1001 }
  [.transaction ⟨payment, 0, .logicSig program⟩,
    .call
      { call := ⟨call, 0, .logicSig program⟩
        method := { name := "deposit", returns := some .uint64 }
        before := [⟨payment.withHeader { header with note := some [2] }, 0, .logicSig program⟩] }]

/-- Its node takes every group and confirms every transaction, with the number 5 as the result. -/
def confirmingNetwork : Network Unit where
  node :=
    { params := throw (.request "none")
      submit := fun _ => pure "taken"
      pending := fun _ =>
        pure { round := some 2, logs := [Abi.returnPrefix ++ [0, 0, 0, 0, 0, 0, 0, 5]] }
      lastRound := pure 1
      waitForBlock := fun round => pure round
      application := fun app => throw (.notFound (.application app))
      account := fun _ => throw (.request "none")
      accountState := fun account app => throw (.notFound (.optIn account app))
      simulate := fun _ => throw (.request "none") }
  compiler := { compile := fun _ _ => throw (.unavailable "none") }

theorem linesUp_of_execute_deposit :
    ∃ g result g' s', ({} : AtomicGroup).addAll depositAdditions = .ok g ∧
      Yields (execute confirmingNetwork none) (g, { world := () }) result (g', s') ∧
      result.ids.length = 3 ∧ result.returns.length = 1 ∧
      ∃ built sent,
        LinesUp confirmingNetwork.node depositAdditions built sent s'.world result := by
  have hadded : ∃ g, ({} : AtomicGroup).addAll depositAdditions = .ok g ∧ g.size = 3 :=
    ⟨_, rfl, rfl⟩
  obtain ⟨g, hadded, hsize⟩ := hadded
  have hends : (outcome (execute confirmingNetwork none) (g, { world := () })).1.isOk = true := by
    obtain rfl := Except.ok.inj hadded
    decide +kernel
  rcases hexecuted : outcome (execute confirmingNetwork none) (g, { world := () }) with
    ⟨why | result, g', s'⟩
  · rw [hexecuted] at hends
    exact absurd hends nofun
  · obtain ⟨-, hids, -, built, -, -, sent, -, -, -, hlines⟩ :=
      linesUp_of_execute _ _ _ _ _ _ _ _ hadded hexecuted
    refine ⟨g, result, g', s', hadded, hexecuted, hids.trans hsize, ?_, built, sent, hlines⟩
    rw [← hlines.returns.length_eq]
    rfl

end AtomicGroup

end AppLedger
