import AppLedger.Client.Lifecycle
import AppLedger.Proofs.Client.Call
import AppLedger.Proofs.Effect
import AppLedger.Proofs.Transaction.Limits
import Mathlib.Order.Bounds.Defs

/-! The room for the programs of an application. What creates it brings pages for them, and what
replaces them brings none, so that the first page is all the room that is left. -/

namespace AppLedger.Client

open Effect (Yields yields_bind yields_ofExcept)

variable {σ : Type} {net : Network σ} {c : Client} {x y : Context} {body body' : CallBody}
  {args : List Bytes} {refs : References} {o o' : CallOptions} {approval clear : Bytes}

/-- The arguments and the references alone decide whether they fit. -/
theorem argumentsFit_callFields (h : (callFields x body args refs o).ArgumentsFit) :
    (callFields y body' args refs o').ArgumentsFit :=
  ⟨h.args, h.argsSize, h.accounts, h.apps, h.assets, h.boxes, h.references⟩

/-- A call that brings neither arguments nor references. -/
theorem argumentsFit_callFields_nil : (callFields x body [] {} o).ArgumentsFit :=
  ⟨Nat.zero_le _, Nat.zero_le _, Nat.zero_le _, Nat.zero_le _, Nat.zero_le _, Nat.zero_le _,
    Nat.zero_le _⟩

/-- Whether through a method or bare, no group is built but of a call within the limits. -/
theorem validate_of_lifecycleGroup {handler : Option MethodSpec} {s t : Session σ}
    {g : AtomicGroup} (h : Yields (c.lifecycleGroup net x body handler o) s g t) :
    ∃ args refs, (callFields x body args refs o).validate = .ok () := by
  cases handler with
  | some spec =>
    obtain ⟨call, _, hcall, -⟩ := yields_bind.mp h
    obtain ⟨given, _, -, hcall⟩ := yields_bind.mp hcall
    obtain ⟨_, resolved, -, -, hmember, -⟩ := methodCall_cases (yields_ofExcept.mp hcall).1
    exact ⟨resolved.args, resolved.references, (callTransaction_cases hmember).1⟩
  | none =>
    obtain ⟨member, _, hmember, -⟩ := yields_bind.mp h
    exact ⟨_, _, (callTransaction_cases (yields_ofExcept.mp hmember).1).1⟩

theorem validate_of_sendLifecycle {handler : Option MethodSpec} {s t : Session σ}
    {result : GroupResult} (h : Yields (c.sendLifecycle net body handler o) s result t) :
    ∃ x args refs, (callFields x body args refs o).validate = .ok () := by
  obtain ⟨x, _, -, h⟩ := yields_bind.mp h
  obtain ⟨_, _, hgroup, -⟩ := yields_bind.mp h
  exact ⟨x, validate_of_lifecycleGroup hgroup⟩

theorem validate_replacement_iff {app : UInt64} :
    (callFields x (replacement app approval clear) args refs o).validate = .ok () ↔
      (callFields x (replacement app approval clear) args refs o).ArgumentsFit ∧
        approval.length + clear.length ≤ pageSize := by
  have hpages : (callFields x (replacement app approval clear) args refs o).pages = 0 := rfl
  have hsize : (callFields x (replacement app approval clear) args refs o).programSize =
      approval.length + clear.length := rfl
  rw [AppCall.validate_eq_ok_iff, hpages, hsize]
  simp

/-- Programs beyond the first page are refused as too large for no extra pages. -/
theorem validate_replacement_of_lt {app : UInt64}
    (hfit : (callFields x (replacement app approval clear) args refs o).ArgumentsFit)
    (hsize : pageSize < approval.length + clear.length) :
    (callFields x (replacement app approval clear) args refs o).validate =
      .error (.limit (.programSize (approval.length + clear.length) pageSize 0)) :=
  AppCall.validate_eq_programSize hfit (Nat.zero_le _) hsize

theorem size_le_of_update {d : Client} {s t u : Session σ} {result : String × Client}
    (hcompile : Yields (d.compile net) s (approval, clear) t)
    (h : Yields (d.update net o) s result u) : approval.length + clear.length ≤ pageSize := by
  obtain ⟨app, s', happ, h⟩ := yields_bind.mp h
  obtain ⟨-, rfl⟩ := yields_ofExcept.mp happ
  obtain ⟨programs, t', hprograms, h⟩ := yields_bind.mp h
  obtain ⟨rfl, -⟩ := hcompile.unique hprograms
  obtain ⟨_, _, hsend, -⟩ := yields_bind.mp h
  obtain ⟨x, args, refs, hvalid⟩ := validate_of_sendLifecycle hsend
  exact (validate_replacement_iff.mp hvalid).2

/-- No fewer pages hold the programs. -/
theorem isLeast_requiredExtraPages (size : Nat) :
    IsLeast {pages | size ≤ pageSize * (1 + pages)} (requiredExtraPages size) := by
  refine ⟨?_, fun pages hpages => ?_⟩
  · change size ≤ pageSize * (1 + requiredExtraPages size)
    simp only [requiredExtraPages, pageSize]
    omega
  · change size ≤ pageSize * (1 + pages) at hpages
    simp only [requiredExtraPages, pageSize] at hpages ⊢
    omega

/-- Up to the last byte of the fourth page there are pages to bring. -/
theorem exists_creation_pages
    (hsize : approval.length + clear.length ≤ pageSize * (1 + maxExtraPages)) :
    ∃ body, c.creation approval clear none = .ok body ∧ ∀ x args refs o,
      (callFields x body args refs o).pages = requiredExtraPages (approval.length + clear.length) ∧
      (callFields x body args refs o).programSize = approval.length + clear.length := by
  have hrequired : requiredExtraPages (approval.length + clear.length) ≤ maxExtraPages :=
    (isLeast_requiredExtraPages _).2 hsize
  have hpages : extraPages (approval.length + clear.length) none =
      .ok (UInt64.ofNat (requiredExtraPages (approval.length + clear.length))) := by
    rw [extraPages, if_neg (Nat.not_lt.mpr hrequired)]
  have hbrought : (UInt64.ofNat (requiredExtraPages (approval.length + clear.length))).toNat =
      requiredExtraPages (approval.length + clear.length) :=
    UInt64.toNat_ofNat_of_lt' (Nat.lt_of_le_of_lt hrequired (by decide))
  exact ⟨_, bind_eq_ok.mpr ⟨_, hpages, rfl⟩, fun x args refs o => ⟨hbrought, rfl⟩⟩

theorem exists_creation (hfit : ∀ body, (callFields x body args refs o).ArgumentsFit)
    (hsize : approval.length + clear.length ≤ pageSize * (1 + maxExtraPages)) :
    ∃ body, c.creation approval clear none = .ok body ∧
      (callFields x body args refs o).validate = .ok () := by
  obtain ⟨body, hbody, hcall⟩ := exists_creation_pages (c := c) hsize
  obtain ⟨hpages, hprograms⟩ := hcall x args refs o
  refine ⟨body, hbody, AppCall.validate_eq_ok_iff.mpr ⟨hfit body, ?_⟩⟩
  rw [hpages, hprograms]
  exact ⟨(isLeast_requiredExtraPages _).2 hsize, (isLeast_requiredExtraPages _).1⟩

theorem size_le_of_creation (hbody : c.creation approval clear none = .ok body)
    (hvalid : (callFields x body args refs o).validate = .ok ()) :
    approval.length + clear.length ≤ pageSize * (1 + maxExtraPages) := by
  obtain ⟨pages, -, h⟩ := bind_eq_ok.mp hbody
  obtain rfl := Except.ok.inj h
  obtain ⟨-, hpages, hsize⟩ := AppCall.validate_eq_ok_iff.mp hvalid
  have hbudget := Nat.mul_le_mul_left pageSize (Nat.add_le_add_left hpages 1)
  exact Nat.le_trans hsize hbudget

/-- Programs in up to four pages can be created, and only those within the first page can be given
to the application anew. -/
theorem validate_replacement_iff_of_creation
    (hbody : c.creation approval clear none = .ok body)
    (hvalid : (callFields x body args refs o).validate = .ok ()) :
    approval.length + clear.length ≤ pageSize * (1 + maxExtraPages) ∧
      (∀ app y o',
        (callFields y (replacement app approval clear) args refs o').validate = .ok () ↔
          approval.length + clear.length ≤ pageSize) ∧
      ∀ {σ : Type} (net : Network σ) (d : Client) (o' : CallOptions) (s t u : Session σ)
        (result : String × Client), Yields (d.compile net) s (approval, clear) t →
        Yields (d.update net o') s result u → approval.length + clear.length ≤ pageSize := by
  have hfit : (callFields x body args refs o).ArgumentsFit :=
    (AppCall.validate_eq_ok_iff.mp hvalid).1
  refine ⟨size_le_of_creation hbody hvalid, ?_, ?_⟩
  · intro app y o'
    rw [validate_replacement_iff]
    exact and_iff_right (argumentsFit_callFields hfit)
  · intro σ net d o' s t u result hcompile hupdate
    exact size_le_of_update hcompile hupdate

/-- Programs that fill the first page to its last byte. -/
theorem validate_replacement_full :
    let sender : Address := ⟨⟨List.replicate 32 1, by decide⟩⟩
    let x : Context :=
      { sender, signer := ⟨0, .logicSig ⟨[1], none, none, none⟩⟩
        params := ⟨0, 1000, 7, "net", ⟨List.replicate 32 2, by decide⟩, "v1"⟩ }
    let c : Client := { app := ⟨"app", "int 1", "int 1", 8, [], [], [], none⟩, family := 0 }
    let approval : Bytes := List.replicate 2047 8
    (∃ body, c.creation approval [8] none = .ok body ∧
      (callFields x body [] {} {}).validate = .ok ()) ∧
      (callFields x (replacement 5 approval [8]) [] {} {}).validate = .ok () := by
  intro sender x c approval
  have hlength : approval.length + List.length [(8 : UInt8)] ≤ pageSize := by
    rw [List.length_replicate]
    decide
  obtain ⟨body, hbody, hvalid⟩ := exists_creation (c := c) (o := {})
    (fun _ => argumentsFit_callFields_nil) (Nat.le_trans hlength (by decide))
  obtain ⟨-, hiff, -⟩ := validate_replacement_iff_of_creation hbody hvalid
  exact ⟨⟨body, hbody, hvalid⟩, (hiff 5 x {}).mpr hlength⟩

/-- One byte more than the first page holds. -/
theorem validate_replacement_overfull :
    let sender : Address := ⟨⟨List.replicate 32 1, by decide⟩⟩
    let x : Context :=
      { sender, signer := ⟨0, .logicSig ⟨[1], none, none, none⟩⟩
        params := ⟨0, 1000, 7, "net", ⟨List.replicate 32 2, by decide⟩, "v1"⟩ }
    let c : Client := { app := ⟨"app", "int 1", "int 1", 8, [], [], [], none⟩, family := 0 }
    let approval : Bytes := List.replicate 2048 8
    (∃ body, c.creation approval [8] none = .ok body ∧
      (callFields x body [] {} {}).validate = .ok ()) ∧
      (callFields x (replacement 5 approval [8]) [] {} {}).validate =
        .error (.limit (.programSize 2049 2048 0)) := by
  intro sender x c approval
  have hlength : approval.length + List.length [(8 : UInt8)] = 2049 := by
    rw [List.length_replicate]
    rfl
  refine ⟨exists_creation (fun _ => argumentsFit_callFields_nil)
    (Nat.le_trans (Nat.le_of_eq hlength) (by decide)), ?_⟩
  rw [validate_replacement_of_lt argumentsFit_callFields_nil (hlength.symm ▸ by decide), hlength]
  rfl

end AppLedger.Client
