/-! Computations that change a state and may fail. What was done before a
failure stays done: an action always gives back the state it reached. -/
namespace EntitySchema

/-- Takes a state to an outcome and the state reached. -/
def Action (σ ε α : Type) : Type :=
  σ → Except ε α × σ

namespace Action

variable {σ τ ε δ α β : Type}

/-- The outcome of an action from a state, and the state reached. -/
def run (action : Action σ ε α) (state : σ) : Except ε α × σ :=
  action state

/-- Goes on with what an action gave, unless it failed. -/
def andThen (action : Action σ ε α) (next : α → Action σ ε β) : Action σ ε β := fun state =>
  match action.run state with
  | (.ok a, reached) => (next a).run reached
  | (.error e, reached) => (.error e, reached)

instance : Monad (Action σ ε) where
  pure a := fun state => (.ok a, state)
  bind := andThen

/-- Fails. -/
def fail (e : ε) : Action σ ε α := fun state =>
  (.error e, state)

/-- Goes on from the state that a failing action reached. -/
def orElse (action : Action σ ε α) (handle : ε → Action σ ε α) : Action σ ε α := fun state =>
  match action.run state with
  | (.ok a, reached) => (.ok a, reached)
  | (.error e, reached) => (handle e).run reached

/-- The state. -/
def state : Action σ ε σ := fun state =>
  (.ok state, state)

/-- Changes the state. -/
def update (change : σ → σ) : Action σ ε Unit := fun state =>
  (.ok (), change state)

/-- An outcome that is known already. -/
def ofExcept (outcome : Except ε α) : Action σ ε α := fun state =>
  (outcome, state)

/-- Runs an action on a part of a larger state, with its failures renamed. -/
def onPart (get : τ → σ) (set : σ → τ → τ) (rename : ε → δ) (action : Action σ ε α) :
    Action τ δ α := fun whole =>
  let (outcome, part) := action.run (get whole)
  (outcome.mapError rename, set part whole)

/-- Applies an action to each element in turn. -/
def each (f : α → Action σ ε β) : List α → Action σ ε (List β)
  | [] => pure []
  | a :: rest => do
    let b ← f a
    let bs ← each f rest
    pure (b :: bs)

@[simp] theorem run_pure (a : α) (s : σ) : (pure a : Action σ ε α).run s = (.ok a, s) := rfl

@[simp] theorem run_bind (action : Action σ ε α) (next : α → Action σ ε β) (s : σ) :
    (action >>= next).run s =
      match action.run s with
      | (.ok a, reached) => (next a).run reached
      | (.error e, reached) => (.error e, reached) := rfl

@[simp] theorem run_fail (e : ε) (s : σ) : (fail e : Action σ ε α).run s = (.error e, s) := rfl

@[simp] theorem run_orElse (action : Action σ ε α) (handle : ε → Action σ ε α) (s : σ) :
    (action.orElse handle).run s =
      match action.run s with
      | (.ok a, reached) => (.ok a, reached)
      | (.error e, reached) => (handle e).run reached := rfl

@[simp] theorem run_state (s : σ) : (state : Action σ ε σ).run s = (.ok s, s) := rfl

@[simp] theorem run_update (change : σ → σ) (s : σ) :
    (update change : Action σ ε Unit).run s = (.ok (), change s) := rfl

@[simp] theorem run_ofExcept (outcome : Except ε α) (s : σ) :
    (ofExcept outcome : Action σ ε α).run s = (outcome, s) := rfl

end Action
end EntitySchema
