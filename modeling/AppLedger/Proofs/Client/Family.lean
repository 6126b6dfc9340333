import AppLedger.Proofs.Client.Deployment
import AppLedger.Proofs.Client.Programs

/-! A family of clients: one client, and those that are prepared from it or from each other. They
share their compiled programs, and others change the world meanwhile. -/

namespace AppLedger

open Effect

namespace Client

variable {σ τ : Type}

/-- The client that goes on after an operation. -/
def Operation.successor (c : Client) : (op : Operation) → op.Answer → Client
  | .create _ _, (_, c') => c'
  | .update _, (_, c') => c'
  | .delete _, _ | .optIn _, _ | .closeOut _, _ | .clearState _, _ | .call _ _ _ _, _
  | .addMethodCall _ _ _ _ _, _ => c

/-- What is asked of a client: one of its programs or both, the source of a program counter, or an
operation. -/
inductive Step
  | program (kind : ProgramKind)
  | compile
  | locate (pc : Nat)
  | operation (op : Operation)

def Step.perform (net : Network σ) (c : Client) : Step → ClientEffect σ Client
  | .program kind => c.program net kind >>= fun _ => pure c
  | .compile => c.compile net >>= fun _ => pure c
  | .locate pc => c.approvalLine net pc >>= fun _ => pure c
  | .operation op => op.perform net c >>= fun answer => pure (op.successor c answer)

/-- The client is of the family, and of the description that the family has in common. -/
structure IsOf (family : Nat) (d : Description) (c : Client) : Prop where
  family : c.family = family
  app : c.app = d

variable {net : Network σ} {c c' : Client} {family : Nat} {d : Description} {s s' : Session σ}

theorem successor_of_create {pages : Option UInt64} {o : CallOptions} {r : Creation}
    (h : Yields (c.create net pages o) s (r, c') s') :
    c' = { c with appId := r.app, address := some r.address } := by
  rw [create] at h
  by_cases hdeployed : c.appId ≠ 0
  · simp only [if_pos hdeployed] at h
    exact absurd h not_yields_throw_bind
  simp only [if_neg hdeployed] at h
  obtain ⟨⟨approval, clear⟩, _, -, h⟩ := yields_bind.mp h
  obtain ⟨body, -, h⟩ := yields_ofExcept_bind.mp h
  obtain ⟨result, _, -, h⟩ := yields_bind.mp h
  cases happ : result.confirmations.getLast?.bind (·.createdApp) with
  | none =>
    simp only [happ] at h
    exact absurd h not_yields_throw
  | some app =>
    simp only [happ] at h
    obtain ⟨transaction, -, h⟩ := yields_ofExcept_bind.mp h
    obtain ⟨hyielded, -⟩ := yields_pure.mp h
    obtain ⟨rfl, rfl⟩ := Prod.mk.inj hyielded
    rfl

theorem IsOf.prepare (h : IsOf family d c) (o : ClientOverrides) : IsOf family d (c.prepare o) :=
  ⟨h.family, h.app⟩

theorem IsOf.perform (h : IsOf family d c) {x : Step} (hx : Yields (x.perform net c) s c' s') :
    IsOf family d c' := by
  cases x with
  | program | compile | locate =>
    obtain ⟨_, _, -, hx⟩ := yields_bind.mp hx
    obtain ⟨rfl, -⟩ := yields_pure.mp hx
    exact h
  | operation op =>
    obtain ⟨answer, u, hop, hx⟩ := yields_bind.mp hx
    obtain ⟨rfl, -⟩ := yields_pure.mp hx
    cases op with
    | create pages o =>
      obtain ⟨r, c'⟩ := answer
      obtain rfl := successor_of_create hop
      exact ⟨h.family, h.app⟩
    | update o =>
      obtain ⟨id, c'⟩ := answer
      obtain ⟨-, rfl⟩ := update_yields hop
      exact ⟨h.family, h.app⟩
    | _ => exact h

theorem leads_step {part : σ → τ} {rel : Session σ → Session σ → Prop}
    (hrel : IgnoresBesides part rel) (htrans : ∀ {s t u}, rel s t → rel t u → rel s u)
    (hnode : net.node.Leaves part) (hprogram : ∀ kind, Leads rel (c.program net kind))
    (hcompile : Leads rel (c.compile net)) (x : Step) : Leads rel (x.perform net c) := by
  have hpure {α : Type} (a : α) : Leads rel (pure a : ClientEffect σ α) := hrel.leads keeps_pure
  cases x with
  | program kind => exact (hprogram kind).bind @htrans fun _ => hpure c
  | compile => exact hcompile.bind @htrans fun _ => hpure c
  | locate pc =>
    have hobserve : Leads rel (observe (c.program net .approval) : ClientEffect σ _) :=
      hprogram .approval
    refine Leads.bind @htrans (hobserve.bind @htrans fun r => ?_) fun _ => hpure c
    rcases r with _ | ⟨program, _⟩ <;> exact hpure _
  | operation op =>
    have hsent : SendsOnly net c _ (op.perform net c) := alongside_perform op
    have hparts : PartsLead rel net c :=
      partsLead_of_programs hrel htrans hnode (hprogram .approval) hcompile
    have hop := hparts.alongside hsent
    exact hop.bind @htrans fun _ => hpure _

theorem follows_step {part : τ → σ} {net' : Network τ} (h : net.FollowedBy part net') (x : Step) :
    Follows (Session.mapWorld part) (x.perform net' c) (x.perform net c) := by
  cases x with
  | program kind =>
    cases kind with
    | approval => exact (follows_approvalProgram h).bind fun _ => follows_pure
    | clear => exact (follows_clearProgram h).bind fun _ => follows_pure
  | compile => exact (follows_compile h).bind fun _ => follows_pure
  | locate pc =>
    refine Follows.bind ((follows_approvalProgram h).observe.bind fun r => ?_) fun _ => follows_pure
    rcases r with _ | ⟨program, _⟩ <;> exact follows_pure
  | operation op => exact (follows_alongside h (alongside_perform op)).bind fun _ => follows_pure

end Client

/-! ## What happens to a family -/

/-- A client is prepared from the one at a place, a client is used, events are announced from now on
or no longer, or others change the world. -/
inductive FamilyOp (ω : Type)
  | prepare (place : Nat) (o : ClientOverrides)
  | step (place : Nat) (x : Client.Step)
  | setDebug (debug : Bool)
  | others (op : ω)

def FamilyOp.other? {ω : Type} : FamilyOp ω → Option ω
  | .others op => some op
  | _ => none

structure Family (σ : Type) where
  clients : List Client
  session : Session σ

namespace Family

open Client

variable {σ τ ω : Type}

def start (app : Description) (signer : Option SignerHandle) (sender : Option Address)
    (appId : UInt64) (params : Option NetworkParams) (s : Session σ) : Family σ :=
  let (made, session) := (Client.new app signer sender appId params).outcome s
  { clients := made.toOption.toList, session }

/-- `act` is what others do to the world. A step that fails leaves the client as it is. -/
def perform (net : Network σ) (act : ω → σ → σ) (p : Family σ) : FamilyOp ω → Family σ
  | .prepare place o =>
    { p with clients := p.clients ++ (p.clients[place]?.map (·.prepare o)).toList }
  | .step place x =>
    match p.clients[place]? with
    | none => p
    | some c =>
      match (x.perform net c).outcome p.session with
      | (.ok c', session) => { clients := p.clients.set place c', session }
      | (.error _, session) => { p with session }
  | .setDebug debug => { p with session.debug := debug }
  | .others op => { p with session.world := act op p.session.world }

def run (net : Network σ) (act : ω → σ → σ) (p : Family σ) (ops : List (FamilyOp ω)) : Family σ :=
  ops.foldl (perform net act) p

def mapWorld (f : τ → σ) (p : Family τ) : Family σ where
  clients := p.clients
  session := p.session.mapWorld f

variable {net : Network σ} {act : ω → σ → σ} {p : Family σ} {family : Nat} {d : Description}

/-! ## From the steps to the runs -/

theorem isOf_perform (h : ∀ c ∈ p.clients, c.IsOf family d) (op : FamilyOp ω) :
    ∀ c ∈ (p.perform net act op).clients, c.IsOf family d := by
  cases op with
  | prepare place o =>
    refine List.forall_mem_append.mpr ⟨h, fun c hc => ?_⟩
    obtain ⟨c₀, hfound, rfl⟩ := Option.map_eq_some_iff.mp (Option.mem_toList.mp hc)
    exact (h c₀ (List.mem_of_getElem? hfound)).prepare o
  | step place x =>
    rw [perform]
    cases hfound : p.clients[place]? with
    | none => exact h
    | some c =>
      dsimp only
      rcases hrun : (x.perform net c).outcome p.session with ⟨why | c', s'⟩
      · exact h
      · intro c₁ hc₁
        rcases List.mem_or_eq_of_mem_set hc₁ with hold | rfl
        · exact h c₁ hold
        · exact (h c (List.mem_of_getElem? hfound)).perform hrun
  | setDebug | others => exact h

theorem isOf_run (h : ∀ c ∈ p.clients, c.IsOf family d) (ops : List (FamilyOp ω)) :
    ∀ c ∈ (p.run net act ops).clients, c.IsOf family d := by
  induction ops generalizing p with
  | nil => exact h
  | cons op ops ih => exact ih (isOf_perform h op)

theorem isOf_start (app : Description) (signer : Option SignerHandle) (sender : Option Address)
    (appId : UInt64) (params : Option NetworkParams) (s : Session σ) :
    ∀ c ∈ (start app signer sender appId params s).clients, c.IsOf s.caches.length app := by
  intro c hc
  obtain rfl := List.mem_singleton.mp hc
  exact ⟨rfl, rfl⟩

theorem known_start (app : Description) (signer : Option SignerHandle) (sender : Option Address)
    (appId : UInt64) (params : Option NetworkParams) (s : Session σ) :
    s.caches.length < (start app signer sender appId params s).session.caches.length := by
  have hlength : (start app signer sender appId params s).session.caches.length =
      s.caches.length + 1 := List.length_append
  omega

theorem kept_start (app : Description) (signer : Option SignerHandle) (sender : Option Address)
    (appId : UInt64) (params : Option NetworkParams) (s : Session σ) (kind : ProgramKind) :
    (start app signer sender appId params s).session.kept s.caches.length kind = none := by
  have hcaches : (start app signer sender appId params s).session.caches =
      s.caches ++ [({} : ProgramCache)] := rfl
  rw [Session.kept, Session.cache, hcaches, List.getElem?_append_right (Nat.le_refl _),
    Nat.sub_self]
  cases kind <;> rfl

section Leads

variable {rel : Session σ → Session σ → Prop} {ops : List (FamilyOp ω)}
  (hsetDebug : ∀ s debug, rel s { s with debug }) (htrans : ∀ {s t u}, rel s t → rel t u → rel s u)
  (hstep : ∀ c, c.IsOf family d → ∀ x : Step, Leads rel (x.perform net c))

include hsetDebug htrans hstep

/-- Where every step of a client of the family leads, and what others do, the whole run leads. -/
theorem leads_run (h : ∀ c ∈ p.clients, c.IsOf family d)
    (hothers : ∀ op, .others op ∈ ops → ∀ s, rel s { s with world := act op s.world }) :
    rel p.session (p.run net act ops).session := by
  have hrefl (s : Session σ) : rel s s := hsetDebug s s.debug
  induction ops generalizing p with
  | nil => exact hrefl _
  | cons op ops ih =>
    refine htrans ?_ (ih (isOf_perform h op) fun op' hop' => hothers op' (.tail _ hop'))
    cases op with
    | prepare place o => exact hrefl _
    | step place x =>
      rw [perform]
      cases hfound : p.clients[place]? with
      | none => exact hrefl _
      | some c =>
        have hled := hstep c (h c (List.mem_of_getElem? hfound)) x p.session
        dsimp only
        rcases hrun : (x.perform net c).outcome p.session with ⟨why | c', s'⟩
        all_goals
          rw [hrun] at hled
          exact hled
    | setDebug debug => exact hsetDebug _ debug
    | others op => exact hothers op (.head _) _

end Leads

theorem mapWorld_run {part : τ → σ} {net' : Network τ} {act' : ω → τ → τ}
    (hnet : net.FollowedBy part net') (hact : ∀ op t, part (act' op t) = act op (part t))
    (p : Family τ) (ops : List (FamilyOp ω)) :
    (p.run net' act' ops).mapWorld part = (p.mapWorld part).run net act ops := by
  induction ops generalizing p with
  | nil => rfl
  | cons op ops ih =>
    refine (ih (p.perform net' act' op)).trans (congrArg (fun q => run net act q ops) ?_)
    cases op with
    | prepare | setDebug => rfl
    | others op =>
      simp only [perform, mapWorld, Session.mapWorld, hact]
    | step place x =>
      have hclients : (p.mapWorld part).clients = p.clients := rfl
      rw [perform, perform, hclients]
      cases p.clients[place]? with
      | none => rfl
      | some c =>
        have hplain : (x.perform net c).outcome (p.mapWorld part).session = _ :=
          follows_step hnet x p.session
        dsimp only
        rw [hplain]
        rcases (x.perform net' c).outcome p.session with ⟨why | c', s'⟩ <;> rfl

end Family

end AppLedger
