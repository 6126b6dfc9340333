import AppLedger.Bytes.Order

/-! The state of an application: numbers and byte strings under keys, in the order of the keys. -/

namespace AppLedger

inductive StateValue
  | uint (n : UInt64)
  | bytes (b : Bytes)
  deriving DecidableEq

namespace StateValue

def isUint : StateValue → Bool
  | .uint _ => true
  | .bytes _ => false

def uint? : StateValue → Option UInt64
  | .uint n => some n
  | .bytes _ => none

def bytes? : StateValue → Option Bytes
  | .bytes b => some b
  | .uint _ => none

/-- Bytes that are no text are shown in hexadecimal digits. -/
def text : StateValue → String
  | .uint n => toString n.toNat
  | .bytes b => b.toText?.getD ("0x" ++ b.toHex)

end StateValue

structure AppState where
  entries : List (Bytes × StateValue)
  sorted : entries.Pairwise fun e f => e.1.before f.1
  deriving DecidableEq

namespace AppState

def putEntry (k : Bytes) (v : StateValue) :
    List (Bytes × StateValue) → List (Bytes × StateValue)
  | [] => [(k, v)]
  | (k', v') :: rest =>
    if k = k' then (k, v) :: rest
    else if k.before k' then (k, v) :: (k', v') :: rest
    else (k', v') :: putEntry k v rest

theorem key_of_mem_putEntry {k : Bytes} {v : StateValue} {entries : List (Bytes × StateValue)}
    {e : Bytes × StateValue} (h : e ∈ putEntry k v entries) :
    e.1 = k ∨ ∃ f ∈ entries, f.1 = e.1 := by
  induction entries with
  | nil =>
    simp only [putEntry, List.mem_singleton] at h
    exact .inl (by rw [h])
  | cons f rest ih =>
    simp only [putEntry] at h
    split at h
    · rcases List.mem_cons.mp h with rfl | h
      · exact .inl rfl
      · exact .inr ⟨e, List.mem_cons_of_mem _ h, rfl⟩
    · split at h
      · rcases List.mem_cons.mp h with rfl | h
        · exact .inl rfl
        · exact .inr ⟨e, h, rfl⟩
      · rcases List.mem_cons.mp h with rfl | h
        · exact .inr ⟨_, List.mem_cons_self, rfl⟩
        · rcases ih h with h | ⟨g, hg, he⟩
          · exact .inl h
          · exact .inr ⟨g, List.mem_cons_of_mem _ hg, he⟩

theorem sorted_putEntry {k : Bytes} {v : StateValue} {entries : List (Bytes × StateValue)}
    (h : entries.Pairwise fun e f => e.1.before f.1) :
    (putEntry k v entries).Pairwise fun e f => e.1.before f.1 := by
  induction entries with
  | nil => simp [putEntry]
  | cons f rest ih =>
    obtain ⟨hf, hrest⟩ := List.pairwise_cons.mp h
    simp only [putEntry]
    split
    · next hk => subst hk; exact List.pairwise_cons.mpr ⟨hf, hrest⟩
    · next hk =>
      split
      · next hlt =>
        refine List.pairwise_cons.mpr ⟨fun g hg => ?_, h⟩
        rcases List.mem_cons.mp hg with rfl | hg
        · exact hlt
        · exact Bytes.before_trans hlt (hf g hg)
      · next hlt =>
        have hlt := Bytes.before_total (Bool.eq_false_iff.mpr hlt) hk
        refine List.pairwise_cons.mpr ⟨fun g hg => ?_, ih hrest⟩
        rcases key_of_mem_putEntry hg with hg | ⟨g', hg', hg⟩
        · rw [hg]; exact hlt
        · rw [← hg]; exact hf g' hg'

def empty : AppState := ⟨[], .nil⟩

instance : Inhabited AppState := ⟨empty⟩

def get? (s : AppState) (key : Bytes) : Option StateValue :=
  (s.entries.find? (·.1 = key)).map Prod.snd

def put (s : AppState) (key : Bytes) (value : StateValue) : AppState :=
  ⟨putEntry key value s.entries, sorted_putEntry s.sorted⟩

/-- A later value replaces an earlier one under its key. -/
def putAll (s : AppState) (updates : List (Bytes × StateValue)) : AppState :=
  updates.foldl (fun s e => s.put e.1 e.2) s

def size (s : AppState) : Nat :=
  s.entries.length

def uintCount (s : AppState) : Nat :=
  s.entries.countP (·.2.isUint)

def byteSliceCount (s : AppState) : Nat :=
  s.size - s.uintCount

end AppState

end AppLedger
