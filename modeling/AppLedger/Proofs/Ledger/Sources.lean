import AppLedger.Proofs.Ledger.Run
import AppLedger.Proofs.Program.Stub

/-! What a ledger knows of the programs that it was given or has compiled: the source of each, with
the line that declares its version. -/

namespace AppLedger

open Program

variable {programs : ProgramTable} {code : Bytes} {source full : String} {version : UInt8}

theorem Table.mem_entries_of_get? {κ ν : Type} [DecidableEq κ] {t : Table κ ν} {k : κ} {v : ν}
    (h : t.get? k = some v) : (k, v) ∈ t.entries := by
  obtain ⟨entries, hnodup⟩ := t
  change Table.lookup? k entries = some v at h
  change (k, v) ∈ entries
  clear hnodup
  induction entries with
  | nil => exact absurd h nofun
  | cons entry rest ih =>
    obtain ⟨k', v'⟩ := entry
    rw [Table.lookup?] at h
    split at h
    · next hkey =>
      obtain rfl := Option.some.inj h
      exact hkey ▸ List.mem_cons_self
    · exact List.mem_cons_of_mem _ (ih h)

namespace ProgramTable

/-- Sources are kept under the code that they are compiled to, and no program is without one. -/
structure Remembers (programs : ProgramTable) : Prop where
  compiled : ∀ code source, programs.sources.get? code = some source →
    ∃ text version, code = Stub.bytecode text version ∧ source = Stub.fullSource text version
  known : ∀ code, programs.approvals.contains code = true → programs.sources.contains code = true

/-- No other source is kept that has the hash of this one. -/
def Distinguishes (programs : ProgramTable) (full : String) : Prop :=
  ∀ code source, programs.sources.get? code = some source →
    Hash.sha512_256 (Bytes.ofText source) = Hash.sha512_256 (Bytes.ofText full) → source = full

theorem remembers_empty : Remembers {} where
  compiled := nofun
  known := nofun

theorem Remembers.putSource (h : programs.Remembers) (text : String) (version : UInt8) :
    Remembers { programs with
      sources := programs.sources.put (Stub.bytecode text version)
        (Stub.fullSource text version) } where
  compiled code source hget := by
    rw [Table.get?_put] at hget
    split at hget
    · next hcode => exact ⟨text, version, hcode.symm, (Option.some.inj hget).symm⟩
    · exact h.compiled code source hget
  known code hcode := by
    have hkept := h.known code hcode
    rw [Table.contains] at hkept ⊢
    rw [Table.get?_put]
    split
    · rfl
    · exact hkept

theorem Remembers.putApproval (h : programs.Remembers)
    (hcode : programs.sources.contains code = true) (program : ApprovalProgram) :
    Remembers { programs with approvals := programs.approvals.put code program } where
  compiled := h.compiled
  known code' hcode' := by
    rw [Table.contains, Table.get?_put] at hcode'
    split at hcode'
    · next heq => exact heq ▸ hcode
    · exact h.known code' hcode'

theorem Remembers.failingPc_lt (h : programs.Remembers) (code : Bytes) :
    programs.failingPc code < 33 := by
  rw [failingPc]
  cases hsource : programs.sources.get? code with
  | none => exact Nat.succ_pos _
  | some source =>
    obtain ⟨text, version, rfl, -⟩ := h.compiled code source hsource
    simp only [Stub.failingPc, Stub.length_bytecode]
    omega

/-- A program is reported to fail where its own source does. -/
theorem Remembers.failingPc_eq (h : programs.Remembers) (hd : programs.Distinguishes full)
    (hfull : withPragma source version = .ok full)
    (hprogram : programs.approvals.contains (Stub.bytecode source version) = true) :
    programs.failingPc (Stub.bytecode source version) = Stub.failingPc full 33 := by
  have hknown := h.known _ hprogram
  obtain ⟨source', hsource⟩ := Option.isSome_iff_exists.mp hknown
  obtain ⟨text, version', hcode, hsource'⟩ := h.compiled _ _ hsource
  have hsame : source' = full := by
    refine hd _ _ hsource ?_
    rw [Stub.bytecode_of_withPragma hfull] at hcode
    rw [hsource']
    exact (List.cons.inj hcode).2.symm
  rw [failingPc, hsource, hsame, Stub.length_bytecode]

end ProgramTable

namespace Ledger

variable {l : Ledger}

theorem remembers_perform (h : l.programs.Remembers) (op : LedgerOp) :
    (l.perform op).programs.Remembers := by
  cases op with
  | submit signed =>
    have hprograms : (l.perform (.submit signed)).programs = l.programs := by
      obtain ⟨why, hsubmit, -⟩ | ⟨e, -, ⟨-, hsubmit⟩ | ⟨-, hsubmit⟩⟩ := submit_cases l signed
      all_goals rw [perform_submit, hsubmit]
    rw [hprograms]
    exact h
  | compile text version =>
    rw [perform_compile, compile]
    split
    · exact h
    · exact h.putSource text version
  | register text version program =>
    have hsource := Table.get?_put_self l.programs.sources (Stub.bytecode text version)
      (Stub.fullSource text version)
    exact (h.putSource text version).putApproval (Option.isSome_iff_exists.mpr ⟨_, hsource⟩) program
  | simulate | waitForBlock | fund | setFaults => exact h

theorem remembers_run (h : l.programs.Remembers) (ops : List LedgerOp) :
    (l.run ops).programs.Remembers := by
  induction ops generalizing l with
  | nil => exact h
  | cons op ops ih => exact ih (remembers_perform h op)

end Ledger

end AppLedger
