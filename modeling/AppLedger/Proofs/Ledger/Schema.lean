import AppLedger.Proofs.Ledger.Run

/-! What applications store fits the schemas they were created with. A number is given to one
application only, so local state that outlives its application belongs to no other. -/

namespace AppLedger

/-- There are at most as many numbers and as many byte strings as the schema has. -/
structure AppState.Fits (s : AppState) (schema : StateSchema) : Prop where
  uints : s.entries.countP (·.2.isUint) ≤ schema.uints.toNat
  byteSlices : s.entries.countP (!·.2.isUint) ≤ schema.byteSlices.toNat

namespace AppState

theorem fits_empty (schema : StateSchema) : empty.Fits schema :=
  ⟨Nat.zero_le _, Nat.zero_le _⟩

theorem byteSliceCount_eq (s : AppState) :
    s.byteSliceCount = s.entries.countP (!·.2.isUint) := by
  have hsize := List.length_eq_countP_add_countP (·.2.isUint) (l := s.entries)
  rw [byteSliceCount, size, uintCount, hsize, Nat.add_sub_cancel_left]
  exact List.countP_congr fun e _ => by simp

theorem fits_of_checkSchema {s : AppState} {schema : StateSchema} {scope : String}
    (h : s.checkSchema schema scope = .ok ()) : s.Fits schema := by
  unfold checkSchema at h
  split at h
  · simp at h
  · next huints =>
    split at h
    · simp at h
    · next hbytes =>
      rw [byteSliceCount_eq] at hbytes
      exact ⟨Nat.not_lt.mp huints, Nat.not_lt.mp hbytes⟩

end AppState

namespace LedgerState

/-- Every state fits its schema. The numbers of applications, also of those that are gone, are
below the next one. -/
structure WithinSchemas (s : LedgerState) : Prop where
  globals : ∀ app record, s.apps.get? app = some record →
    record.globalState.Fits record.globalSchema
  locals : ∀ account app record state, s.apps.get? app = some record →
    s.localState? account app = some state → state.Fits record.localSchema
  freshApps : ∀ app record, s.apps.get? app = some record → app.toNat < s.nextApp.toNat
  freshLocals : ∀ account app state, s.localState? account app = some state →
    app.toNat < s.nextApp.toNat

variable {programs : ProgramTable} {s s' : LedgerState} {group : List Transaction} {index : Nat}
  {call : AppCall} {app : UInt64} {record : AppRecord} {account : Address} {state : AppState}
  {updates : List (Bytes × StateValue)} {logs : List Bytes} {confirmation : Confirmation}

namespace WithinSchemas

theorem of_same (h : s.WithinSchemas) (happs : s'.apps = s.apps) (hlocals : s'.locals = s.locals)
    (hnext : s'.nextApp = s.nextApp) : s'.WithinSchemas where
  globals := happs ▸ h.globals
  locals account app record state hrecord hstate := by
    rw [localState?, hlocals] at hstate
    exact h.locals account app record state (happs ▸ hrecord) hstate
  freshApps := happs ▸ hnext ▸ h.freshApps
  freshLocals account app state hstate := by
    rw [localState?, hlocals] at hstate
    exact hnext ▸ h.freshLocals account app state hstate

theorem putApp (h : s.WithinSchemas) (record : AppRecord) (hfresh : app.toNat < s.nextApp.toNat)
    (hglobal : record.globalState.Fits record.globalSchema)
    (hlocals : ∀ account state, s.localState? account app = some state →
      state.Fits record.localSchema) : (s.putApp app record).WithinSchemas where
  globals app' record' hget := by
    rw [LedgerState.putApp, Table.get?_put] at hget
    split at hget
    · exact Option.some.inj hget ▸ hglobal
    · exact h.globals app' record' hget
  locals account app' record' state hget hstate := by
    rw [LedgerState.putApp, Table.get?_put] at hget
    split at hget
    · next happ =>
      subst happ
      exact Option.some.inj hget ▸ hlocals account state hstate
    · exact h.locals account app' record' state hget hstate
  freshApps app' record' hget := by
    rw [LedgerState.putApp, Table.get?_put] at hget
    split at hget
    · next happ => exact happ ▸ hfresh
    · exact h.freshApps app' record' hget
  freshLocals := h.freshLocals

theorem putLocal (h : s.WithinSchemas) (account : Address) (hfresh : app.toNat < s.nextApp.toNat)
    (hstate : ∀ record, s.apps.get? app = some record → state.Fits record.localSchema) :
    (s.putLocal account app state).WithinSchemas where
  globals := h.globals
  locals account' app' record state' hget hlocal := by
    rw [LedgerState.putLocal, localState?, Table.get?_put] at hlocal
    split at hlocal
    · next hkey =>
      obtain ⟨-, rfl⟩ := Prod.mk.inj hkey
      exact Option.some.inj hlocal ▸ hstate record hget
    · exact h.locals account' app' record state' hget hlocal
  freshApps := h.freshApps
  freshLocals account' app' state' hlocal := by
    rw [LedgerState.putLocal, localState?, Table.get?_put] at hlocal
    split at hlocal
    · next hkey =>
      obtain ⟨-, rfl⟩ := Prod.mk.inj hkey
      exact hfresh
    · exact h.freshLocals account' app' state' hlocal

theorem eraseLocal (h : s.WithinSchemas) (account : Address) (app : UInt64) :
    (s.eraseLocal account app).WithinSchemas := by
  have hkept {account' app' state'}
      (hlocal : (s.eraseLocal account app).localState? account' app' = some state') :
      s.localState? account' app' = some state' := by
    rw [LedgerState.eraseLocal, localState?, Table.get?_erase] at hlocal
    split at hlocal
    · simp at hlocal
    · exact hlocal
  exact
    { h with
      locals := fun account' app' record state' hget hlocal =>
        h.locals account' app' record state' hget (hkept hlocal)
      freshLocals := fun account' app' state' hlocal =>
        h.freshLocals account' app' state' (hkept hlocal) }

theorem eraseApp (h : s.WithinSchemas) (app : UInt64) :
    { s with apps := s.apps.erase app }.WithinSchemas := by
  have hkept {app' record'} (hget : (s.apps.erase app).get? app' = some record') :
      s.apps.get? app' = some record' := by
    rw [Table.get?_erase] at hget
    split at hget
    · simp at hget
    · exact hget
  exact
    { h with
      globals := fun app' record' hget => h.globals app' record' (hkept hget)
      locals := fun account app' record' state hget =>
        h.locals account app' record' state (hkept hget)
      freshApps := fun app' record' hget => h.freshApps app' record' (hkept hget) }

theorem advance (h : s.WithinSchemas) (next : UInt64) (hle : s.nextApp.toNat ≤ next.toNat) :
    { s with nextApp := next }.WithinSchemas :=
  { h with
    freshApps := fun app record hget => Nat.lt_of_lt_of_le (h.freshApps app record hget) hle
    freshLocals := fun account app state hlocal =>
      Nat.lt_of_lt_of_le (h.freshLocals account app state hlocal) hle }

end WithinSchemas

/-! ## Calls -/

theorem withinSchemas_updateGlobal (h : s.WithinSchemas) (happ : s.apps.get? app = some record)
    (hupdate : s.updateGlobal app record updates = .ok s') :
    s'.WithinSchemas ∧
      ∃ record', s'.apps.get? app = some record' ∧ record'.localSchema = record.localSchema := by
  rcases updateGlobal_cases hupdate with rfl | ⟨hschema, rfl⟩
  · exact ⟨h, record, happ, rfl⟩
  · have hfresh := h.freshApps app record happ
    refine ⟨h.putApp _ hfresh (AppState.fits_of_checkSchema hschema) ?_, _,
      Table.get?_put_self _ _ _, rfl⟩
    exact fun account state hlocal => h.locals account app record state happ hlocal

theorem withinSchemas_run (h : s.WithinSchemas)
    (hrun : run programs s group index call app = .ok (logs, s')) : s'.WithinSchemas := by
  obtain ⟨record, happ, ⟨-, -, rfl⟩ | ⟨program, effects, mid, -, -, -, hglobal, hlocal⟩⟩ :=
    run_cases hrun
  · exact h
  · obtain ⟨hmid, record', happ', hschema'⟩ := withinSchemas_updateGlobal h happ hglobal
    rcases updateLocal_cases hlocal with rfl | ⟨state, -, hschema, rfl⟩
    · exact hmid
    · refine hmid.putLocal _ (hmid.freshApps app record' happ') fun record'' hget => ?_
      obtain rfl := Option.some.inj (happ'.symm.trans hget)
      rw [hschema']
      exact AppState.fits_of_checkSchema hschema

theorem toNat_nextApp_succ (hids : s.nextApp.toNat + 1 ≠ UInt64.size) :
    (s.nextApp + 1).toNat = s.nextApp.toNat + 1 := by
  have hlt : s.nextApp.toNat < UInt64.size := s.nextApp.toNat_lt
  have hone : (1 : UInt64).toNat = 1 := rfl
  rw [UInt64.toNat_add, hone]
  exact Nat.mod_eq_of_lt (Nat.lt_of_le_of_ne hlt hids)

theorem withinSchemas_created (h : s.WithinSchemas) (hids : s.nextApp.toNat + 1 ≠ UInt64.size)
    (call : AppCall) (approval clear : Bytes) : (s.created call approval clear).WithinSchemas := by
  have hnext := toNat_nextApp_succ hids
  have hadvanced := h.advance (s.nextApp + 1) (by omega)
  have hfresh : s.nextApp.toNat < (s.nextApp + 1).toNat := by omega
  have hunused (account : Address) (state : AppState)
      (hlocal : s.localState? account s.nextApp = some state) : False :=
    Nat.lt_irrefl _ (h.freshLocals account s.nextApp state hlocal)
  have hnew := hadvanced.putApp
      { creator := call.header.sender, approval, clear, globalSchema := call.globalSchema.getD {},
        localSchema := call.localSchema.getD {}, extraPages := call.extraPages.getD 0,
        globalState := .empty }
    hfresh (AppState.fits_empty _) fun account state hlocal => (hunused account state hlocal).elim
  rw [created]
  split
  · exact hnew.putLocal _ hfresh fun _ _ => AppState.fits_empty _
  · exact hnew

theorem withinSchemas_create (h : s.WithinSchemas)
    (hcreate : create programs s group index call = .ok (confirmation, s')) :
    s'.WithinSchemas := by
  obtain ⟨approval, clear, logs, -, -, -, hids, -, hrun⟩ := create_cases hcreate
  exact withinSchemas_run (withinSchemas_created h hids call approval clear) hrun

theorem withinSchemas_callExisting (h : s.WithinSchemas)
    (hcall : callExisting programs s group index call = .ok (logs, s')) : s'.WithinSchemas := by
  obtain ⟨hexists, hcalled⟩ := called_of_callExisting hcall
  obtain ⟨record, happ⟩ := Option.isSome_iff_exists.mp hexists
  have hfresh := h.freshApps call.app record happ
  cases hcalled with
  | noOp _ hrun => exact withinSchemas_run h hrun
  | optIn _ _ hrun =>
    have hopted := h.putLocal call.header.sender hfresh
      fun _ _ => AppState.fits_empty _
    exact withinSchemas_run hopted hrun
  | closeOut _ _ hrun => exact (withinSchemas_run h hrun).eraseLocal _ _
  | clearState => exact h.eraseLocal _ _
  | update _ _ _ hrun happ' =>
    have hran := withinSchemas_run h hrun
    have hglobal := hran.globals _ _ happ'
    have hlocals (account : Address) (state : AppState) := hran.locals account _ _ state happ'
    exact hran.putApp _ (hran.freshApps _ _ happ') hglobal hlocals
  | delete _ hrun => exact (withinSchemas_run h hrun).eraseApp _

/-! ## Transactions -/

theorem withinSchemas_debit (h : s.WithinSchemas) (account : Address) (amount : Nat) :
    (s.debit account amount).WithinSchemas := by
  rw [debit]
  split <;> exact h.of_same rfl rfl rfl

theorem withinSchemas_pay (h : s.WithinSchemas) (p : Payment) : (s.pay p).WithinSchemas := by
  have hdebit := withinSchemas_debit h p.header.sender p.amount.toNat
  rw [pay]
  split <;> exact hdebit.of_same rfl rfl rfl

theorem withinSchemas_rekey (h : s.WithinSchemas) (account authorizer : Address) :
    (s.rekey account authorizer).WithinSchemas := by
  rw [rekey]
  split <;> exact h.of_same rfl rfl rfl

theorem withinSchemas_transact (h : s.WithinSchemas) {t : Transaction}
    (ht : transact programs s group index t = .ok (confirmation, s')) : s'.WithinSchemas := by
  cases t with
  | payment p =>
    obtain ⟨-, rfl⟩ := Prod.mk.inj (Except.ok.inj ht)
    exact withinSchemas_pay h p
  | appCall call =>
    rcases applyCall_cases ht with ⟨-, hcreate⟩ | ⟨-, _, -, hcall⟩
    · exact withinSchemas_create h hcreate
    · exact withinSchemas_callExisting h hcall

theorem withinSchemas_apply (h : s.WithinSchemas) {t : Transaction}
    (ht : s.apply programs group index t = .ok (confirmation, s')) : s'.WithinSchemas := by
  obtain ⟨mid, htransact, rfl⟩ := apply_cases ht
  have hmid := withinSchemas_transact (withinSchemas_debit h _ _) htransact
  cases t.header.rekeyTo with
  | none => exact hmid
  | some authorizer => exact withinSchemas_rekey hmid _ authorizer

end LedgerState

/-! ## Groups and runs -/

namespace Ledger

theorem invariant_withinSchemas : Invariant LedgerState.WithinSchemas where
  apply _ _ _ _ _ _ _ hs happly := LedgerState.withinSchemas_apply hs happly
  credit _ _ _ hs := hs.of_same rfl rfl rfl
  chain _ _ _ hs := hs.of_same rfl rfl rfl

theorem withinSchemas_initial : ({} : Ledger).state.WithinSchemas where
  globals _ _ := nofun
  locals _ _ _ _ := nofun
  freshApps _ _ := nofun
  freshLocals _ _ _ := nofun

end Ledger

end AppLedger
