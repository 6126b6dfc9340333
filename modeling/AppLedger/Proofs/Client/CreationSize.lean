import AppLedger.Proofs.AtomicGroup.Recorded
import AppLedger.Proofs.Client.CompilationLog
import AppLedger.Proofs.Client.Creation

/-! The creation of an application and the size of its programs: which pages hold them, when a
creation is refused for their size, and that nothing is handed over then. -/

namespace AppLedger.Client

open Effect
open BadArgument (IsSize)
open ClientError (IsSizeRefusal)

variable {σ : Type} {net : Network σ} {c : Client} {x : Context} {body : CallBody}
  {o : CallOptions}

/-! ## The arguments of a stage -/

/-- What a call carries besides its body. -/
def callArguments (net : Network σ) (c : Client) (x : Context) (app : UInt64)
    (handler : Option MethodSpec) (o : CallOptions) : ClientEffect σ (List Bytes × References) := do
  match handler with
  | some spec =>
    let args ← c.fillDefaults net x spec (spec.method.args.map fun _ => .byDefault)
    let args ← Effect.ofExcept
      ((MethodArg.orderAllFields spec.method spec.hints spec.method.args args).mapError .argument)
    let resolved ← Effect.ofExcept (MethodArg.resolve spec.method args x.sender app o.references)
    return (resolved.args, resolved.references)
  | none => return (o.args.getD [], o.references)

theorem yields_callArguments {spec : MethodSpec} {app : UInt64} {s t : Session σ}
    {args : List Bytes} {refs : References} :
    Yields (c.callArguments net x app (some spec) o) s (args, refs) t ↔ ∃ given ordered resolved,
      Yields (c.fillDefaults net x spec (spec.method.args.map fun _ => .byDefault)) s given t ∧
      MethodArg.orderAllFields spec.method spec.hints spec.method.args given = .ok ordered ∧
      MethodArg.resolve spec.method ordered x.sender app o.references = .ok resolved ∧
      resolved.args = args ∧ resolved.references = refs := by
  simp only [callArguments, yields_bind, yields_ofExcept, yields_pure, mapError_eq_ok,
    Prod.mk.injEq]
  constructor
  · rintro ⟨given, _, hgiven, ordered, _, ⟨hordered, rfl⟩, resolved, _, ⟨hresolved, rfl⟩,
      ⟨hargs, hrefs⟩, rfl⟩
    exact ⟨given, ordered, resolved, hgiven, hordered, hresolved, hargs, hrefs⟩
  · rintro ⟨given, ordered, resolved, hgiven, hordered, hresolved, hargs, hrefs⟩
    exact ⟨given, t, hgiven, ordered, t, ⟨hordered, rfl⟩, resolved, t, ⟨hresolved, rfl⟩,
      ⟨hargs, hrefs⟩, rfl⟩

/-- Nothing but the limits of the call refuses its group for a size. -/
theorem lifecycleGroup_size (happ : c.appId = 0) {handler : Option MethodSpec} {s t : Session σ}
    {why : ClientError} (hsize : why.IsSizeRefusal) :
    Fails (c.lifecycleGroup net x body handler o) s why t ↔
      ∃ args refs e, Yields (c.callArguments net x body.app handler o) s (args, refs) t ∧
        (callFields x body args refs o).validate = .error e ∧ why = .argument (.limit e) := by
  cases handler with
  | none =>
    rw [lifecycleGroup, fails_ofExcept_bind, callTransaction_size hsize]
    constructor
    · rintro (⟨⟨e, hvalid, hwhy⟩, rfl⟩ | ⟨member, -, h⟩)
      · exact ⟨_, _, e, yields_pure.mpr ⟨rfl, rfl⟩, hvalid, hwhy⟩
      · split at h
        · exact absurd h not_fails_pure
        · next why' g hadd =>
          obtain ⟨rfl, -⟩ := fails_throw.mp h
          exact absurd hsize (AtomicGroup.spares_addTransaction member _ (congrArg Prod.fst hadd))
    · rintro ⟨args, refs, e, hargs, hvalid, hwhy⟩
      obtain ⟨hsame, rfl⟩ := yields_pure.mp hargs
      obtain ⟨rfl, rfl⟩ := Prod.mk.inj hsame
      exact .inl ⟨⟨e, hvalid, hwhy⟩, rfl⟩
  | some spec =>
    have hspared : Avoids IsSizeRefusal
        (c.fillDefaults net x spec (spec.method.args.map fun _ => .byDefault)) :=
      (detached_fillDefaults happ).avoids
    simp only [yields_callArguments]
    -- The defaults and the group never refuse a size, which leaves the call of the method.
    constructor
    · intro h
      rcases fails_bind.mp h with h | ⟨call, u, -, h⟩
      · rcases fails_bind.mp h with h | ⟨given, u, hgiven, h⟩
        · exact absurd hsize (hspared s why t h)
        · obtain ⟨hcall, rfl⟩ := fails_ofExcept.mp h
          obtain ⟨ordered, resolved, e, hordered, hresolved, hvalid, hwhy⟩ :=
            (methodCall_size hsize).mp hcall
          exact ⟨_, _, e, ⟨given, ordered, resolved, hgiven, hordered, hresolved, rfl, rfl⟩, hvalid,
            hwhy⟩
      · exact absurd hsize (spares_groupOf call why (fails_ofExcept.mp h).1)
    · rintro ⟨_, _, e, ⟨given, ordered, resolved, hgiven, hordered, hresolved, rfl, rfl⟩, hvalid,
        hwhy⟩
      refine fails_bind.mpr (.inl (fails_bind.mpr (.inr ⟨given, t, hgiven, ?_⟩)))
      refine fails_ofExcept.mpr ⟨(methodCall_size hsize).mpr ?_, rfl⟩
      exact ⟨ordered, resolved, e, hordered, hresolved, hvalid, hwhy⟩

/-! ## The creation -/

/-- What the call of a creation carries besides its body. -/
def creationArguments (net : Network σ) (c : Client) (o : CallOptions) :
    ClientEffect σ (Context × List Bytes × References) := do
  let x ← c.context net o
  let carried ← c.callArguments net x 0 (c.app.createHandler.map Prod.fst) o
  return (x, carried)

theorem sendLifecycle_size (happ : c.appId = 0) (hbody : body.app = 0) {s t : Session σ}
    {why : ClientError} (hsize : why.IsSizeRefusal) :
    Fails (c.sendLifecycle net body (c.app.createHandler.map Prod.fst) o) s why t ↔
      ∃ x args refs e, Yields (c.creationArguments net o) s (x, args, refs) t ∧
        (callFields x body args refs o).validate = .error e ∧ why = .argument (.limit e) := by
  constructor
  · intro h
    rcases fails_bind.mp h with h | ⟨x, u, hcontext, h⟩
    · exact absurd (ClientError.isArgument_of_isSizeRefusal why hsize) (avoids_context s why t h)
    rcases fails_bind.mp h with h | ⟨g, v, -, h⟩
    · obtain ⟨args, refs, e, hargs, hrefused⟩ := (lifecycleGroup_size happ hsize).mp h
      rw [hbody] at hargs
      refine ⟨x, args, refs, e, yields_bind.mpr ⟨x, u, hcontext, ?_⟩, hrefused⟩
      exact yields_bind.mpr ⟨_, t, hargs, yields_pure.mpr ⟨rfl, rfl⟩⟩
    · exact absurd hsize (avoids_send g _ v why t h)
  · rintro ⟨x, args, refs, e, hyields, hrefused⟩
    obtain ⟨x', u, hcontext, hyields⟩ := yields_bind.mp hyields
    obtain ⟨carried, v, hargs, hyields⟩ := yields_bind.mp hyields
    obtain ⟨hsame, rfl⟩ := yields_pure.mp hyields
    obtain ⟨rfl, rfl⟩ := Prod.mk.inj hsame
    rw [← hbody] at hargs
    refine fails_bind.mpr (.inr ⟨x', u, hcontext, fails_bind.mpr (.inl ?_)⟩)
    exact (lifecycleGroup_size happ hsize).mpr ⟨args, refs, e, hargs, hrefused⟩

/-- Once the programs are compiled, only the pages and the call are refused for a size. -/
theorem create_size {approval clear : Bytes} {pages : Option UInt64} {s t u : Session σ}
    {why : ClientError} (happ : c.appId = 0)
    (hcompile : Yields (c.compile net) s (approval, clear) t) (hsize : why.IsSizeRefusal) :
    Fails (c.create net pages o) s why u ↔
      (∃ e, c.creation approval clear pages = .error e ∧ why = .argument e ∧ t = u) ∨
      ∃ body, c.creation approval clear pages = .ok body ∧
        Fails (c.sendLifecycle net body (c.app.createHandler.map Prod.fst) o) t why u := by
  have hlast (result : GroupResult) : Spares IsSizeRefusal (lastId result) := by
    unfold lastId
    split
    · exact spares_ok
    · exact spares_error id
  rw [create]
  simp only [if_neg (not_not.mpr happ)]
  rw [hcompile.fails_bind_iff, fails_ofExcept_bind, mapError_eq_error]
  simp only [mapError_eq_ok]
  constructor
  · rintro (⟨⟨e, hbody, rfl⟩, rfl⟩ | ⟨body, hbody, h⟩)
    · exact .inl ⟨e, hbody, rfl, rfl⟩
    · rcases fails_bind.mp h with h | ⟨result, v, -, h⟩
      · exact .inr ⟨body, hbody, h⟩
      · split at h
        · obtain ⟨rfl, -⟩ := fails_throw.mp h
          exact hsize.elim
        · rcases fails_ofExcept_bind.mp h with ⟨hid, -⟩ | ⟨id, -, h⟩
          · exact absurd hsize (hlast result why hid)
          · exact absurd h not_fails_pure
  · rintro (⟨e, hbody, rfl, rfl⟩ | ⟨body, hbody, h⟩)
    · exact .inl ⟨⟨e, hbody, rfl⟩, rfl⟩
    · exact .inr ⟨body, hbody, fails_bind.mpr (.inl h)⟩

/-! ## What a creation leaves -/

theorem keeps_program {τ : Type} {part : σ → τ}
    (h : ∀ source version, Keeps part (net.compiler.compile source version)) (kind : ProgramKind) :
    Keeps (fun s => part s.world) (c.program net kind) := by
  have hsource (source : String) : Keeps (fun s => part s.world) (compileSource net c source) := by
    refine keeps_ofExcept.bind fun source => ?_
    refine (keeps_onWorld (h source _)).mapError.bind fun compiled => ?_
    split
    · exact keeps_pure
    · exact keeps_throw
  rw [program_eq]
  refine keeps_get.bind fun s => ?_
  split
  · exact keeps_pure
  · exact (hsource _).bind fun program => Keeps.bind (fun _ => rfl) fun _ => keeps_pure

theorem keeps_compile {τ : Type} {part : σ → τ}
    (h : ∀ source version, Keeps part (net.compiler.compile source version)) :
    Keeps (fun s => part s.world) (c.compile net) := by
  rw [compile_eq]
  refine (keeps_program h .approval).bind fun approval => ?_
  refine (keeps_program h .clear).bind fun clear s => ?_
  rw [outcome_concludeCompilation]
  dsimp only
  split <;> rfl

theorem keeps_record_compile (net : Network σ) (c : Client) :
    Keeps Session.record (c.compile net.recorded) :=
  keeps_compile fun _ _ => keeps_onFst

theorem keeps_record_context (net : Network σ) (c : Client) (o : CallOptions) :
    Keeps Session.record (c.context net.recorded o) := by
  have hparams : Keeps Prod.snd net.recorded.node.params := keeps_onFst
  exact keeps_context hparams o

theorem keeps_callArguments {τ : Type} {part : Session σ → τ} (happ : c.appId = 0) {app : UInt64}
    (handler : Option MethodSpec) : Keeps part (c.callArguments net x app handler o) := by
  cases handler with
  | none => exact keeps_pure
  | some spec =>
    refine (detached_fillDefaults happ).keeps.bind fun args => ?_
    exact keeps_ofExcept.bind fun args => keeps_ofExcept.bind fun resolved => keeps_pure

theorem keeps_lifecycleGroup {τ : Type} {part : Session σ → τ} (happ : c.appId = 0)
    (handler : Option MethodSpec) : Keeps part (c.lifecycleGroup net x body handler o) := by
  cases handler with
  | some spec =>
    refine Keeps.bind ?_ fun _ => keeps_ofExcept
    exact (detached_fillDefaults happ).keeps.bind fun _ => keeps_ofExcept
  | none =>
    refine keeps_ofExcept.bind fun member => ?_
    split
    · exact keeps_pure
    · exact keeps_throw

/-- A call that no arguments make valid is refused before it is handed over. -/
theorem refused_of_sendLifecycle {net : Network σ} (happ : c.appId = 0)
    (hnever : ∀ x args refs, (callFields x body args refs o).validate ≠ .ok ())
    (handler : Option MethodSpec) (s : Session (σ × List Handover)) :
    ∃ why u, Fails (c.sendLifecycle net.recorded body handler o) s why u ∧
      u.record = s.record := by
  have hcontext := keeps_record_context net c o
  rcases hx : (c.context net.recorded o).outcome s with ⟨why | x, t⟩
  · exact ⟨why, t, fails_bind.mpr (.inl hx), hcontext.of_fails hx⟩
  rcases hg : (c.lifecycleGroup net.recorded x body handler o).outcome t with ⟨why | g, u⟩
  · refine ⟨why, u, fails_bind.mpr (.inr ⟨x, t, hx, fails_bind.mpr (.inl hg)⟩), ?_⟩
    have hgroup : Keeps Session.record (c.lifecycleGroup net.recorded x body handler o) :=
      keeps_lifecycleGroup happ handler
    exact (hgroup.of_fails hg).trans (hcontext.of_yields hx)
  · obtain ⟨args, refs, hvalid⟩ := validate_of_lifecycleGroup hg
    exact absurd hvalid (hnever x args refs)

/-! ## Sizes -/

/-- The pages or the programs of the creation are refused for their size. -/
def RefusedForSize (net : Network σ) (c : Client) (pages : Option UInt64) (o : CallOptions)
    (s : Session σ) : Prop :=
  ∃ why t, Fails (c.create net pages o) s why t ∧ why.IsSizeRefusal

/-- The call of a creation is put together with arguments and references within their limits, so
that its programs are looked at. -/
def ComesToPrograms (net : Network σ) (c : Client) (o : CallOptions) (s : Session σ) : Prop :=
  ∃ x args refs t, Yields (c.creationArguments net o) s (x, args, refs) t ∧
    ∀ body, (callFields x body args refs o).ArgumentsFit

section Sizes

variable {approval clear : Bytes} {pages : Option UInt64} {p : UInt64} {s t : Session σ}

/-- The call has the pages that were asked for. -/
theorem exists_creation_requested (hpages : p.toNat ≤ maxExtraPages) :
    ∃ body, c.creation approval clear (some p) = .ok body ∧ ∀ x args refs o,
      (callFields x body args refs o).pages = p.toNat ∧
      (callFields x body args refs o).programSize = approval.length + clear.length := by
  have hrequested : extraPages (approval.length + clear.length) (some p) = .ok p :=
    if_neg (Nat.not_lt.mpr hpages)
  exact ⟨_, bind_eq_ok.mpr ⟨p, hrequested, rfl⟩, fun x args refs o => ⟨rfl, rfl⟩⟩

theorem creation_requested_of_lt (hpages : maxExtraPages < p.toNat) :
    c.creation approval clear (some p) = .error (.pages p) := by
  have hrefused : extraPages (approval.length + clear.length) (some p) = .error (.pages p) :=
    if_pos hpages
  exact bind_eq_error.mpr (.inl hrefused)

theorem creation_of_lt (hsize : pageSize * (1 + maxExtraPages) < approval.length + clear.length) :
    c.creation approval clear none = .error (.programSize (approval.length + clear.length)) := by
  have hneeded : maxExtraPages < requiredExtraPages (approval.length + clear.length) := by
    refine Nat.lt_of_not_le fun hfew => Nat.not_le.mpr hsize ?_
    exact Nat.le_trans (isLeast_requiredExtraPages _).1
      (Nat.mul_le_mul_left pageSize (Nat.add_le_add_left hfew 1))
  exact bind_eq_error.mpr (.inl (if_pos hneeded))

theorem refusedForSize_of_creation (happ : c.appId = 0)
    (hcompile : Yields (c.compile net) s (approval, clear) t) {why : BadArgument}
    (hwhy : c.creation approval clear pages = .error why) (hsize : why.IsSize) :
    c.RefusedForSize net pages o s := by
  have hrefusal : IsSizeRefusal (.argument why) := hsize
  exact ⟨.argument why, t, (create_size happ hcompile hrefusal).mpr (.inl ⟨why, hwhy, rfl, rfl⟩),
    hsize⟩

/-- Of a call with few enough pages, only the programs beyond them are refused for a size. -/
theorem refusedForSize_iff_of_creation (happ : c.appId = 0)
    (hcompile : Yields (c.compile net) s (approval, clear) t)
    (hbody : c.creation approval clear pages = .ok body) {n size : Nat} (hmax : n ≤ maxExtraPages)
    (hcall : ∀ x args refs o, (callFields x body args refs o).pages = n ∧
      (callFields x body args refs o).programSize = size) :
    c.RefusedForSize net pages o s ↔ pageSize * (1 + n) < size ∧ c.ComesToPrograms net o t := by
  have hzero := app_of_creation hbody
  have hlimit (x : Context) (args : List Bytes) (refs : References) :
      (∃ e, (callFields x body args refs o).validate = .error e ∧ IsSize (.limit e)) ↔
        (callFields x body args refs o).ArgumentsFit ∧ pageSize * (1 + n) < size := by
    obtain ⟨hpages, hsize⟩ := hcall x args refs o
    rw [limit_isSize_iff (hpages ▸ hmax), hpages, hsize]
  constructor
  · rintro ⟨why, u, h, hsize⟩
    rcases (create_size happ hcompile hsize).mp h with ⟨e, he, -⟩ | ⟨body', hbody', h⟩
    · exact absurd (hbody.symm.trans he) nofun
    obtain rfl := Except.ok.inj (hbody.symm.trans hbody')
    obtain ⟨x, args, refs, e, hyields, hvalid, rfl⟩ := (sendLifecycle_size happ hzero hsize).mp h
    obtain ⟨hfit, hbudget⟩ := (hlimit x args refs).mp ⟨e, hvalid, hsize⟩
    exact ⟨hbudget, x, args, refs, u, hyields, fun _ => argumentsFit_callFields hfit⟩
  · rintro ⟨hbudget, x, args, refs, u, hyields, hfit⟩
    obtain ⟨e, hvalid, hsize⟩ := (hlimit x args refs).mpr ⟨hfit body, hbudget⟩
    have hrefusal : IsSizeRefusal (.argument (.limit e)) := hsize
    refine ⟨.argument (.limit e), u, (create_size happ hcompile hrefusal).mpr (.inr ?_), hsize⟩
    exact ⟨body, hbody,
      (sendLifecycle_size happ hzero hrefusal).mpr ⟨x, args, refs, e, hyields, hvalid, rfl⟩⟩

theorem refusedForSize_none_iff (happ : c.appId = 0)
    (hcompile : Yields (c.compile net) s (approval, clear) t) :
    c.RefusedForSize net none o s ↔
      pageSize * (1 + maxExtraPages) < approval.length + clear.length := by
  by_cases hsize : pageSize * (1 + maxExtraPages) < approval.length + clear.length
  · have hrefused := creation_of_lt (c := c) hsize
    exact iff_of_true (refusedForSize_of_creation happ hcompile hrefused trivial) hsize
  · obtain ⟨body, hbody, hcall⟩ := exists_creation_pages (c := c) (Nat.not_lt.mp hsize)
    have hmax := (isLeast_requiredExtraPages _).2 (Nat.not_lt.mp hsize)
    rw [refusedForSize_iff_of_creation happ hcompile hbody hmax hcall]
    exact iff_of_false (fun h => Nat.not_lt.mpr (isLeast_requiredExtraPages _).1 h.1) hsize

theorem refusedForSize_some_iff (happ : c.appId = 0)
    (hcompile : Yields (c.compile net) s (approval, clear) t) :
    c.RefusedForSize net (some p) o s ↔ maxExtraPages < p.toNat ∨
      pageSize * (1 + p.toNat) < approval.length + clear.length ∧ c.ComesToPrograms net o t := by
  by_cases hpages : maxExtraPages < p.toNat
  · exact iff_of_true
      (refusedForSize_of_creation happ hcompile (creation_requested_of_lt hpages) trivial)
      (.inl hpages)
  · obtain ⟨body, hbody, hcall⟩ := exists_creation_requested (c := c) (Nat.not_lt.mp hpages)
    rw [refusedForSize_iff_of_creation happ hcompile hbody (Nat.not_lt.mp hpages) hcall,
      or_iff_right hpages]

end Sizes

/-! ## Before anything is handed over -/

section Record

variable {net : Network σ} {approval clear : Bytes} {pages : Option UInt64} {p : UInt64}
  {s t : Session (σ × List Handover)}

theorem record_of_refusedForSize (happ : c.appId = 0)
    (hcompile : Yields (c.compile net.recorded) s (approval, clear) t) {why : ClientError}
    {u : Session (σ × List Handover)} (h : Fails (c.create net.recorded pages o) s why u)
    (hsize : why.IsSizeRefusal) : u.record = s.record := by
  have hcompiled : t.record = s.record := (keeps_record_compile net c).of_yields hcompile
  rcases (create_size happ hcompile hsize).mp h with ⟨e, -, -, rfl⟩ | ⟨body, hbody, h⟩
  · exact hcompiled
  · have hzero := app_of_creation hbody
    obtain ⟨x, args, refs, e, hyields, -⟩ := (sendLifecycle_size happ hzero hsize).mp h
    have harguments : Keeps Session.record (c.creationArguments net.recorded o) :=
      (keeps_record_context net c o).bind fun x => (keeps_callArguments happ _).bind fun _ =>
        keeps_pure
    exact (harguments.of_yields hyields).trans hcompiled

/-- Too many pages or too few: nothing is created, for one reason or another. -/
theorem create_fails_of_pages (happ : c.appId = 0)
    (hcompile : Yields (c.compile net.recorded) s (approval, clear) t)
    (hpages : maxExtraPages < p.toNat ∨
      pageSize * (1 + p.toNat) < approval.length + clear.length) :
    ∃ why u, Fails (c.create net.recorded (some p) o) s why u ∧ u.record = s.record := by
  have hcompiled : t.record = s.record := (keeps_record_compile net c).of_yields hcompile
  -- Too many pages are refused at once. With too few, no arguments make a valid call.
  by_cases hmax : maxExtraPages < p.toNat
  · obtain ⟨why, u, h, hsize⟩ := (refusedForSize_some_iff (o := o) happ hcompile).mpr (.inl hmax)
    exact ⟨why, u, h, record_of_refusedForSize happ hcompile h hsize⟩
  · obtain ⟨body, hbody, hcall⟩ := exists_creation_requested (c := c) (Nat.not_lt.mp hmax)
    have hnever (x : Context) (args : List Bytes) (refs : References) :
        (callFields x body args refs o).validate ≠ .ok () := by
      intro hvalid
      obtain ⟨-, -, hsize⟩ := AppCall.validate_eq_ok_iff.mp hvalid
      rw [(hcall x args refs o).1, (hcall x args refs o).2] at hsize
      exact Nat.not_lt.mpr hsize (hpages.resolve_left hmax)
    obtain ⟨why, u, h, hrecord⟩ := refused_of_sendLifecycle happ hnever
      (c.app.createHandler.map Prod.fst) t
    refine ⟨why, u, ?_, hrecord.trans hcompiled⟩
    rw [create]
    simp only [if_neg (not_not.mpr happ)]
    rw [hcompile.fails_bind_iff, fails_ofExcept_bind]
    exact .inr ⟨body, mapError_eq_ok.mpr hbody, fails_bind.mpr (.inl h)⟩

end Record

/-- The pages beyond the first that are required are the fewest that hold the programs. With these a
creation is refused for a size just if the programs are beyond the fourth page, and otherwise the
pages and the programs of its call are within the limits. With pages that were asked for it is
refused for a size just if they are too many or hold too little; where anything else of the call is
refused before its programs are looked at, the refusal is that one. Nothing is handed over then. -/
theorem refusedForSize_create_iff (net : Network σ) (c : Client) (o : CallOptions) :
    (∀ size, IsLeast {pages | size ≤ 2048 * (1 + pages)} (requiredExtraPages size)) ∧
    ∀ (s t : Session (σ × List Handover)) (approval clear : Bytes), c.appId = 0 →
      Yields (c.compile net.recorded) s (approval, clear) t →
      (c.RefusedForSize net.recorded none o s ↔ 8192 < approval.length + clear.length) ∧
      (approval.length + clear.length ≤ 8192 →
        ∃ body, c.creation approval clear none = .ok body ∧ ∀ x args refs o',
          (callFields x body args refs o').validate = .ok () ↔
            (callFields x body args refs o').ArgumentsFit) ∧
      (∀ p : UInt64,
        (c.RefusedForSize net.recorded (some p) o s ↔
          3 < p.toNat ∨ 2048 * (1 + p.toNat) < approval.length + clear.length ∧
            c.ComesToPrograms net.recorded o t) ∧
        (3 < p.toNat ∨ 2048 * (1 + p.toNat) < approval.length + clear.length →
          ∃ why u, Fails (c.create net.recorded (some p) o) s why u ∧ u.record = s.record) ∧
        (p.toNat ≤ 3 →
          ∃ body, c.creation approval clear (some p) = .ok body ∧ ∀ x args refs o',
            (callFields x body args refs o').ArgumentsFit →
              ((callFields x body args refs o').validate = .ok () ↔
                approval.length + clear.length ≤ 2048 * (1 + p.toNat)))) ∧
      ∀ pages why u, Fails (c.create net.recorded pages o) s why u → why.IsSizeRefusal →
        u.record = s.record := by
  refine ⟨isLeast_requiredExtraPages, fun s t approval clear happ hcompile => ?_⟩
  refine ⟨refusedForSize_none_iff happ hcompile, fun hsize => ?_, fun p => ?_,
    fun pages why u => record_of_refusedForSize happ hcompile⟩
  · obtain ⟨body, hbody, hcall⟩ := exists_creation_pages (c := c) hsize
    refine ⟨body, hbody, fun x args refs o' => ?_⟩
    rw [AppCall.validate_eq_ok_iff, (hcall x args refs o').1, (hcall x args refs o').2]
    exact and_iff_left
      ⟨(isLeast_requiredExtraPages _).2 hsize, (isLeast_requiredExtraPages _).1⟩
  · refine ⟨refusedForSize_some_iff happ hcompile, create_fails_of_pages happ hcompile,
      fun hmax => ?_⟩
    obtain ⟨body, hbody, hcall⟩ := exists_creation_requested (c := c) hmax
    refine ⟨body, hbody, fun x args refs o' hfit => ?_⟩
    rw [AppCall.validate_eq_ok_iff, (hcall x args refs o').1, (hcall x args refs o').2,
      and_iff_right hfit]
    exact and_iff_right hmax

/-- Two programs that were compiled before and fill four pages to the last byte, and two that are
one byte longer each. -/
theorem refusedForSize_create_full :
    let sender : Address := ⟨⟨List.replicate 32 1, by decide⟩⟩
    let x : Context :=
      { sender, signer := ⟨0, .logicSig ⟨[1], none, none, none⟩⟩
        params := ⟨0, 1000, 7, "net", ⟨List.replicate 32 2, by decide⟩, "v1"⟩ }
    let c : Client :=
      { app := ⟨"app", "int 1", "int 1", 8, [], [], [], none⟩, family := 0, sender := some x.sender
        signer := some x.signer, params := some x.params }
    let net := Ledger.network Ledger.compiler
    let program := fun size => some (CompiledProgram.mk (List.replicate size 8) "" none)
    let s : Nat → Session (Ledger × List Handover) := fun size =>
      { world := ({}, []), caches := [⟨program size, program size⟩] }
    ¬ c.RefusedForSize net.recorded none {} (s 4096) ∧
      ¬ c.RefusedForSize net.recorded (some 3) {} (s 4096) ∧
      c.RefusedForSize net.recorded (some 2) {} (s 4096) ∧
      c.RefusedForSize net.recorded none {} (s 4097) := by
  intro sender x c net program s
  have hcompile (size : Nat) : Yields (c.compile net.recorded) (s size)
      (List.replicate size 8, List.replicate size 8) (s size) := rfl
  have hcomes : c.ComesToPrograms net.recorded {} (s 4096) :=
    ⟨x, [], {}, s 4096, rfl, fun _ => argumentsFit_callFields_nil⟩
  obtain ⟨hnone, -, hsome, -⟩ :=
    (refusedForSize_create_iff net c {}).2 (s 4096) (s 4096) _ _ rfl (hcompile 4096)
  obtain ⟨hnone', -⟩ :=
    (refusedForSize_create_iff net c {}).2 (s 4097) (s 4097) _ _ rfl (hcompile 4097)
  simp only [List.length_replicate] at hnone hnone' hsome
  refine ⟨fun h => absurd (hnone.mp h) (by decide), fun h => absurd ((hsome 3).1.mp h) ?_,
    (hsome 2).1.mpr (.inr ⟨by decide, hcomes⟩), hnone'.mpr (by decide)⟩
  rintro (h | ⟨h, -⟩)
  · exact absurd h (by decide)
  · exact absurd h (by decide)

end AppLedger.Client
