import BlockSparse.Size
import BlockSparse.Strategy

/-! Computations that keep a log. Evaluation notes each kernel before it runs, and assembly notes
its steps; the log stands also when the computation fails. -/
namespace BlockSparse

/-- A step noted in the log. -/
inductive Event (α : Type) where
  | transpose (rows cols : Nat)
  | axpy (rows cols : Nat) (factor : α)
  | product (rows cols otherRows otherCols : Nat)
  | scale (rows cols : Nat) (factor : α)
  | mulVec (rows cols length : Nat)
  | assembling (rows cols blockRows blockCols : Nat) (strategy : Strategy)
  | assembled (nnz : Nat)
  | concatenated (components length : Nat)

/-- Kernels are logged at a finer level than assembly steps. -/
inductive Level where
  | trace
  | debug
  deriving DecidableEq

/-- The name of a level. -/
def Level.name : Level → String
  | trace => "TRACE"
  | debug => "DEBUG"

namespace Event
variable {α : Type}

/-- The level at which a step is noted. -/
def level : Event α → Level
  | assembling .. | assembled .. | concatenated .. => .debug
  | _ => .trace

/-- The line written for a step, given the text of scalars. -/
def message (scalarText : α → String) : Event α → String
  | transpose rows cols => s!"transpose {rows}x{cols}"
  | axpy rows cols factor => s!"axpy {rows}x{cols} (alpha = {scalarText factor})"
  | product rows cols otherRows otherCols =>
    s!"matmul {rows}x{cols} * {otherRows}x{otherCols}"
  | scale rows cols factor => s!"scale {rows}x{cols} by {scalarText factor}"
  | mulVec rows cols length => s!"matvec {rows}x{cols} * [{length}]"
  | assembling rows cols blockRows blockCols strategy =>
    s!"Assembling {rows}x{cols} block matrix ({blockRows}x{blockCols} blocks)" ++
      s!" with strategy {strategy.name}"
  | assembled nnz => s!"Assembled matrix has {nnz} non-zeros"
  | concatenated components length =>
    s!"Concatenated block vector of {components} components into length {length}"

/-- Writes the line of a step. The dimensions of a grid are added up only for this line, so that a
grid can be kept although the line about it cannot be written. -/
def write (scalarText : α → String) (e : Event α) : Except Error String := do
  if let assembling rows cols .. := e then
    let _ ← Size.check .add rows
    let _ ← Size.check .add cols
  pure (e.message scalarText)

end Event

/-- The outcome of a computation together with the steps it noted, in order. -/
structure Logged (α β : Type) where
  log : List (Event α)
  result : Except Error β

namespace Logged
variable {α β γ : Type}

/-- A computation that notes nothing. -/
def lift (result : Except Error β) : Logged α β := ⟨[], result⟩

/-- A computation that fails and notes nothing. -/
def fail (e : Error) : Logged α β := ⟨[], .error e⟩

/-- Notes a step. -/
def note (e : Event α) : Logged α Unit := ⟨[e], .ok ()⟩

/-- Goes on with the result of a computation, unless it failed. -/
def andThen (x : Logged α β) (f : β → Logged α γ) : Logged α γ :=
  match x.result with
  | .error e => ⟨x.log, .error e⟩
  | .ok b => ⟨x.log ++ (f b).log, (f b).result⟩

instance : Monad (Logged α) where
  pure b := ⟨[], .ok b⟩
  bind := andThen

@[simp] theorem result_pure (b : β) : (pure b : Logged α β).result = .ok b := rfl

@[simp] theorem log_pure (b : β) : (pure b : Logged α β).log = [] := rfl

@[simp] theorem result_lift (r : Except Error β) : (lift r : Logged α β).result = r := rfl

@[simp] theorem log_lift (r : Except Error β) : (lift r : Logged α β).log = [] := rfl

@[simp] theorem result_fail (e : Error) : (fail e : Logged α β).result = .error e := rfl

@[simp] theorem log_fail (e : Error) : (fail e : Logged α β).log = [] := rfl

@[simp] theorem result_note (e : Event α) : (note e).result = .ok () := rfl

@[simp] theorem log_note (e : Event α) : (note e).log = [e] := rfl

/-- What a sequence of two computations gives does not depend on their logs. -/
@[simp] theorem result_bind (x : Logged α β) (f : β → Logged α γ) :
    (x >>= f).result = x.result >>= fun b => (f b).result := by
  change (andThen x f).result = _
  unfold andThen
  cases x.result <;> rfl

instance : LawfulMonad (Logged α) := LawfulMonad.mk' (Logged α)
  (fun x => by
    change andThen x (fun b => pure b) = x
    unfold andThen
    cases hx : x.result <;> cases x <;> simp_all)
  (fun b f => by
    change andThen (pure b) f = f b
    simp [andThen])
  (fun x f g => by
    change andThen (andThen x f) g = andThen x fun b => andThen (f b) g
    unfold andThen
    cases hx : x.result with
    | error e => simp
    | ok b => cases hf : (f b).result <;> simp [hf])

@[simp] theorem result_map (f : β → γ) (x : Logged α β) : (f <$> x).result = f <$> x.result := by
  rw [map_eq_pure_bind, result_bind, map_eq_pure_bind]
  rfl

/-- Visiting a list gives what its visits give without their logs. -/
@[simp] theorem result_mapM (f : β → Logged α γ) (xs : List β) :
    (xs.mapM f).result = xs.mapM fun x => (f x).result := by
  induction xs with
  | nil => rfl
  | cons x xs ih => simp [List.mapM_cons, ih]

/-- The log of the second computation follows that of the first, if it is reached. -/
theorem log_bind (x : Logged α β) (f : β → Logged α γ) :
    (x >>= f).log = x.log ++ match x.result with
      | .ok b => (f b).log
      | .error _ => [] := by
  change (andThen x f).log = _
  unfold andThen
  cases x.result <;> simp

end Logged
end BlockSparse
