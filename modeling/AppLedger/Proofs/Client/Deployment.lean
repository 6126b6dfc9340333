import AppLedger.Proofs.Client.Creation

/-! Clients that are changed where they are. An operation that fails on its way may have changed
its client before; here every change is made at its place among the other effects. -/

namespace AppLedger

open Effect

namespace Client

variable {σ α : Type}

abbrev HeldEffect (σ α : Type) := Effect ClientError (Client × Session σ) α

/-- The operation puts the client that it yields in the place of the one that it is given. A failure
leaves that one in place. -/
def inPlace (f : Client → ClientEffect σ (α × Client)) : HeldEffect σ α :=
  ExceptT.mk fun (c, s) =>
    match (f c).outcome s with
    | (.ok (a, c'), s') => (.ok a, c', s')
    | (.error why, s') => (.error why, c, s')

def change (f : Client → Client) : HeldEffect σ Unit :=
  modify fun w => (f w.1, w.2)

def createInPlace (net : Network σ) (pages : Option UInt64) (o : CallOptions) :
    HeldEffect σ Creation := do
  let (c, _) ← get
  if c.appId ≠ 0 then throw (.configuration (.deployed c.appId))
  let (approval, clear) ← (c.compile net).onSnd
  let body ← Effect.ofExcept ((c.creation approval clear pages).mapError .argument)
  let result ← (c.sendLifecycle net body (c.app.createHandler.map Prod.fst) o).onSnd
  match result.confirmations.getLast?.bind (·.createdApp) with
  | none => throw (.decode .noCreatedApp)
  | some app =>
    let address := Address.ofApp app
    let transaction ← Effect.ofExcept (lastId result)
    change fun c => { c with appId := app }
    change fun c => { c with address := some address }
    return { app, address, transaction }

/-- The address of the application is set before the transaction is looked for. -/
def updateInPlace (net : Network σ) (o : CallOptions) : HeldEffect σ String := do
  let (c, _) ← get
  let app ← Effect.ofExcept c.deployedId
  let (approval, clear) ← (c.compile net).onSnd
  let body := replacement app approval clear
  let result ← (c.sendLifecycle net body (c.app.handler .updateApplication) o).onSnd
  change fun c => { c with address := some (.ofApp app) }
  Effect.ofExcept (lastId result)

variable {net : Network σ} {c : Client} {s s' : Session σ} {o : CallOptions}

theorem outcome_inPlace {f : Client → ClientEffect σ (α × Client)} :
    outcome (inPlace f) (c, s) =
      match (f c).outcome s with
      | (.ok (a, c'), s') => (.ok a, c', s')
      | (.error why, s') => (.error why, c, s') := rfl

theorem createInPlace_eq (net : Network σ) (pages : Option UInt64) (o : CallOptions) :
    createInPlace net pages o = inPlace fun c => c.create net pages o := by
  refine eq_of_outcome fun ⟨c, s⟩ => ?_
  rw [outcome_inPlace, createInPlace, create, outcome_bind, outcome_get]
  by_cases happ : c.appId ≠ 0
  · simp only [if_pos happ, outcome_bind, outcome_throw]
  · simp only [if_neg happ, outcome_bind, outcome_onSnd]
    rcases (c.compile net).outcome s with ⟨why | ⟨approval, clear⟩, s₁⟩
    · rfl
    simp only [outcome_ofExcept]
    cases (c.creation approval clear pages).mapError ClientError.argument with
    | error why => rfl
    | ok body =>
      simp only [outcome_onSnd]
      rcases (c.sendLifecycle net body (c.app.createHandler.map Prod.fst) o).outcome s₁ with
        ⟨why | result, s₂⟩
      · rfl
      dsimp only
      cases result.confirmations.getLast?.bind (·.createdApp) with
      | none => rfl
      | some app =>
        simp only [outcome_bind, outcome_ofExcept]
        cases lastId result <;> rfl

theorem lastId_of_sendLifecycle {body : CallBody} {handler : Option MethodSpec}
    {result : GroupResult} (h : Yields (c.sendLifecycle net body handler o) s result s') :
    ∃ id, lastId result = .ok id := by
  obtain ⟨x, s₁, -, h⟩ := yields_bind.mp h
  obtain ⟨g, s₂, -, hsend⟩ := yields_bind.mp h
  obtain ⟨g', hrun⟩ := run_of_send hsend
  have hids := AtomicGroup.ids_of_execute hrun
  exact ⟨result.ids.getLast hids, by rw [lastId, List.getLast?_eq_some_getLast hids]⟩

theorem updateInPlace_eq (net : Network σ) (o : CallOptions) :
    updateInPlace net o = inPlace fun c => c.update net o := by
  refine eq_of_outcome fun ⟨c, s⟩ => ?_
  rw [outcome_inPlace, updateInPlace, update, outcome_bind, outcome_get]
  simp only [outcome_bind, outcome_ofExcept]
  cases c.deployedId with
  | error why => rfl
  | ok app =>
    simp only [outcome_onSnd]
    rcases (c.compile net).outcome s with ⟨why | ⟨approval, clear⟩, s₁⟩
    · rfl
    simp only [outcome_onSnd]
    rcases hsend : (c.sendLifecycle net (replacement app approval clear)
      (c.app.handler .updateApplication) o).outcome s₁ with ⟨why | result, s₂⟩
    · rfl
    -- What is sent has a last transaction, so that nothing fails once the address is set.
    obtain ⟨id, hid⟩ := lastId_of_sendLifecycle hsend
    simp only [hid]
    rfl

theorem keeps_client_inPlace {f : Client → ClientEffect σ (α × Client)} {why : ClientError}
    {w w' : Client × Session σ} (h : Fails (inPlace f) w why w') : w'.1 = w.1 := by
  obtain ⟨c, s⟩ := w
  rw [Fails, outcome_inPlace] at h
  rcases hrun : (f c).outcome s with ⟨why' | ⟨a, c'⟩, s'⟩
  all_goals rw [hrun] at h
  · obtain ⟨-, rfl⟩ := Prod.mk.inj h
    rfl
  · cases (Prod.mk.inj h).1

theorem yields_inPlace {f : Client → ClientEffect σ (α × Client)} {a : α} {c' : Client} :
    Yields (inPlace f) (c, s) a (c', s') ↔ Yields (f c) s (a, c') s' := by
  rw [Yields, Yields, outcome_inPlace]
  rcases (f c).outcome s with ⟨why | ⟨a', c₁⟩, s₁⟩ <;> simp [and_assoc]

theorem update_yields {c' : Client} {id : String} (h : Yields (c.update net o) s (id, c') s') :
    c.appId ≠ 0 ∧ c' = { c with address := some (.ofApp c.appId) } := by
  obtain ⟨app, hdeployed, h⟩ := yields_ofExcept_bind.mp h
  obtain ⟨⟨approval, clear⟩, s₁, -, h⟩ := yields_bind.mp h
  obtain ⟨result, s₂, -, h⟩ := yields_bind.mp h
  obtain ⟨id', -, h⟩ := yields_ofExcept_bind.mp h
  obtain ⟨hyielded, -⟩ := yields_pure.mp h
  obtain ⟨-, rfl⟩ := Prod.mk.inj hyielded
  obtain ⟨happ, rfl⟩ := deployedId_eq_ok.mp hdeployed
  exact ⟨happ, rfl⟩

/-- The address of the client is that of its application, or absent where it has none. -/
def Addressed (c : Client) : Prop :=
  c.address = if c.appId = 0 then none else some (.ofApp c.appId)

end Client

/-! ## Clients that share a session -/

/-- What happens where clients share a session: something is done with the client at a place in
their list, or others use the ledger. -/
inductive ClientOp
  | new (app : Description) (signer : Option SignerHandle) (sender : Option Address)
      (appId : UInt64) (params : Option NetworkParams)
  | prepare (place : Nat) (signer : Option SignerHandle) (sender : Option Address)
      (params : Option NetworkParams)
  | create (place : Nat) (pages : Option UInt64) (o : CallOptions)
  | update (place : Nat) (o : CallOptions)
  | others (op : LedgerOp)

structure ClientPool where
  clients : List Client
  session : Session Ledger

namespace ClientPool

open Client

def apply {α : Type} (p : ClientPool) (place : Nat) (x : HeldEffect Ledger α) : ClientPool :=
  match p.clients[place]? with
  | none => p
  | some c =>
    let (c, session) := (x.outcome (c, p.session)).2
    { clients := p.clients.set place c, session }

def perform (p : ClientPool) : ClientOp → ClientPool
  | .new app signer sender appId params =>
    match (Client.new app signer sender appId params).outcome p.session with
    | (.ok c, session) => { clients := p.clients ++ [c], session }
    | (.error _, session) => { p with session }
  | .prepare place signer sender params =>
    let prepared := p.clients[place]?.map (·.prepare { signer, sender, params })
    { p with clients := p.clients ++ prepared.toList }
  | .create place pages o =>
    p.apply place (createInPlace (Ledger.network Ledger.compiler) pages o)
  | .update place o => p.apply place (updateInPlace (Ledger.network Ledger.compiler) o)
  | .others op => { p with session.world := p.session.world.perform op }

def run (p : ClientPool) (ops : List ClientOp) : ClientPool :=
  ops.foldl perform p

structure Following (p : ClientPool) : Prop where
  ledger : p.session.world.state.NonzeroApps
  clients : ∀ c ∈ p.clients, c.Addressed

variable {p : ClientPool}

theorem Following.apply {α : Type} {f : Client → ClientEffect Ledger (α × Client)}
    (h : p.Following) (hledger : ∀ c, Performs (fun _ => True) Session.world (f c))
    (hclient : ∀ c ∈ p.clients, ∀ a c' s', Yields (f c) p.session (a, c') s' → c'.Addressed)
    (place : Nat) : (p.apply place (inPlace f)).Following := by
  rw [ClientPool.apply]
  cases hfound : p.clients[place]? with
  | none => exact h
  | some c =>
    have hmem : c ∈ p.clients := List.mem_of_getElem? hfound
    have hreaches := hledger c p.session
    simp only [outcome_inPlace]
    rcases hrun : (f c).outcome p.session with ⟨why | ⟨a, c'⟩, s'⟩
    all_goals
      rw [hrun] at hreaches
      refine ⟨Ledger.invariant_nonzeroApps.reaches hreaches h.ledger, fun c₁ hc₁ => ?_⟩
      rcases List.mem_or_eq_of_mem_set hc₁ with hold | rfl
      · exact h.clients c₁ hold
    · exact h.clients c₁ hmem
    · exact hclient c hmem a c₁ s' hrun

theorem Following.perform (h : p.Following) (op : ClientOp) : (p.perform op).Following := by
  cases op with
  | new app signer sender appId params =>
    refine ⟨h.ledger, fun c hc => ?_⟩
    rcases List.mem_append.mp hc with hold | hnew
    · exact h.clients c hold
    · obtain rfl := List.mem_singleton.mp hnew
      rfl
  | prepare place signer sender params =>
    refine ⟨h.ledger, fun c hc => ?_⟩
    rcases List.mem_append.mp hc with hold | hnew
    · exact h.clients c hold
    · obtain ⟨c₀, hfound, rfl⟩ := Option.map_eq_some_iff.mp (Option.mem_toList.mp hnew)
      exact h.clients c₀ (List.mem_of_getElem? hfound)
  | create place pages o =>
    rw [ClientPool.perform, createInPlace_eq]
    refine h.apply (fun c => performs_perform (.create pages o)) (fun c hc r c' s' hcreate => ?_) place
    obtain ⟨-, happ, -, rfl, -⟩ := create_yields hcreate
    have hnonzero : r.app ≠ 0 := happ ▸ h.ledger.next
    rw [Addressed, if_neg hnonzero]
  | update place o =>
    rw [ClientPool.perform, updateInPlace_eq]
    refine h.apply (fun c => performs_perform (.update o)) (fun c hc id c' s' hupdate => ?_) place
    obtain ⟨happ, rfl⟩ := update_yields hupdate
    rw [Addressed, if_neg happ]
  | others op => exact ⟨Ledger.invariant_nonzeroApps.perform h.ledger op, h.clients⟩

theorem Following.run (h : p.Following) (ops : List ClientOp) : (p.run ops).Following := by
  induction ops generalizing p with
  | nil => exact h
  | cons op ops ih => exact ih (h.perform op)

theorem following_initial (s : Session Ledger) :
    ({ clients := [], session := { s with world := {} } } : ClientPool).Following where
  ledger := Ledger.nonzeroApps_initial
  clients := List.forall_mem_nil _

end ClientPool

end AppLedger
