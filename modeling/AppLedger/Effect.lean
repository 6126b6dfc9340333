/-! Computations on a world that may end with an error. The world changes also where they do. -/

namespace AppLedger

abbrev Effect (ε σ α : Type) := ExceptT ε (StateM σ) α

namespace Effect

variable {ε δ σ τ α : Type}

/-- Runs a computation on a part of the world. -/
def onPart (get : τ → σ) (set : σ → τ → τ) (x : Effect ε σ α) : Effect ε τ α :=
  ExceptT.mk fun world =>
    let (result, part) := x.run.run (get world)
    (result, set part world)

def onFst (x : Effect ε σ α) : Effect ε (σ × τ) α :=
  x.onPart Prod.fst fun part world => (part, world.2)

def onSnd (x : Effect ε τ α) : Effect ε (σ × τ) α :=
  x.onPart Prod.snd fun part world => (world.1, part)

def mapError (f : ε → δ) (x : Effect ε σ α) : Effect δ σ α :=
  ExceptT.mk fun world =>
    let (result, world) := x.run.run world
    (result.mapError f, world)

/-- Goes on with the error as a value. -/
def observe (x : Effect ε σ α) : Effect δ σ (Except ε α) :=
  ExceptT.mk fun world =>
    let (result, world) := x.run.run world
    (.ok result, world)

def ofExcept (x : Except ε α) : Effect ε σ α :=
  ExceptT.mk fun world => (x, world)

end Effect

end AppLedger
