import BlockSparse.Block.Nested
import BlockSparse.Storage.BlockFunction

/-! Sessions: named handles to shared storage and the commands that act on them. A command either
gives an answer and may bind names to handles, or it is refused and binds nothing. Binding a name
again replaces only the name. -/
namespace BlockSparse

/-- What a name may stand for. -/
inductive Handle (S α : Type) where
  | vector (v : SharedVector)
  | nested (n : NestedVector)
  | function (f : SpaceFunction S)
  | blockFunction (b : BlockFunction S)
  | blockVector (blocks : List (Expr α))

/-- What a component of a block function is made of, by name or by value. -/
inductive SourceName (α : Type) where
  | function (name : String)
  | vector (name : String)
  | values (x : List α)

/-- The commands of a session. Names refer to handles; `of` is the handle that a command acts on. -/
inductive Command (S α : Type) where
  | shared (values : List α)
  | sharedZeros (length : Nat)
  | clone (of : String)
  | read (of : String)
  | write (of : String) (entries : List (Nat × α))
  | fill (of : String) (x : α)
  | sameStorage (of other : String)
  | nested (components : List String)
  | nestedInfo (of : String)
  | nestedGet (of : String) (index : Nat)
  | locate (of : String) (index : Nat)
  | nestedSet (of : String) (index : Nat) (x : α)
  | nestedCopy (of : String) (values : List α)
  | component (of : String) (index : Nat)
  | functionZeros (space : S)
  | function (space : S) (coefficients : String)
  | coefficients (of : String)
  | blockFunction (spaces : List S)
  | blockFunctionOf (spaces : List S) (sources : List (SourceName α))
  | blockFunctionInfo (of : String)
  | blockFunctionGet (of : String) (index : Nat)
  | vectors (of : String)
  | flatView (of : String)
  | snapshot (of : String)
  | blockVector (blocks : List (Expr α))
  | blockVectorToNested (of : String)

/-- What a command answers. -/
inductive Answer (S α : Type) where
  | done
  | truth (b : Bool)
  | entry (x : Option α)
  | place (p : Option (Nat × Nat))
  | handle (h : Option (Handle S α))
  | vectors (vs : List SharedVector)

/-- Why a command is refused: it failed, or a name stands for nothing or for the wrong thing. -/
inductive Refusal where
  | failed (e : Error)
  | unknownName (name : String)
  | wrongHandle (name : String)

/-- The storage and the names of a session. -/
structure Session (S α : Type) where
  store : Store α
  handles : List (String × Handle S α)

/-- What a command gives: its answer and the handles that it offers for binding. -/
structure Outcome (S α : Type) where
  answer : Answer S α
  offers : List (Handle S α)

namespace Handle
variable {S α : Type}

/-- The shared vector that a handle is. -/
def vector? : Handle S α → Option SharedVector
  | vector v => some v
  | _ => none

/-- The flat view that a handle is. -/
def nested? : Handle S α → Option NestedVector
  | nested n => some n
  | _ => none

/-- The function that a handle is. -/
def function? : Handle S α → Option (SpaceFunction S)
  | function f => some f
  | _ => none

/-- The block function that a handle is. -/
def blockFunction? : Handle S α → Option (BlockFunction S)
  | blockFunction b => some b
  | _ => none

/-- The block vector that a handle is. -/
def blockVector? : Handle S α → Option (List (Expr α))
  | blockVector blocks => some blocks
  | _ => none

variable [Zero α] [One α] [Add α] [Mul α] [Neg α] [BEq α]

/-- The current values behind a handle. -/
def contents (s : Store α) : Handle S α → Except Error (List α)
  | vector v => .ok (s.read v)
  | nested n => .ok (n.toFlat s)
  | function f => .ok (s.read f.coefficients)
  | blockFunction b => .ok ((b.vector s).toFlat s)
  | blockVector blocks => BlockVector.flatten blocks

end Handle

namespace Session
variable {S α : Type}

/-- A session that holds nothing. -/
def empty : Session S α := ⟨Store.empty, []⟩

/-- The handle that a name stands for. -/
def handle (s : Session S α) (name : String) : Except Refusal (Handle S α) :=
  match s.handles.lookup name with
  | some h => .ok h
  | none => .error (.unknownName name)

/-- What a name stands for, which must be of the kind that is asked for. -/
def find {β : Type} (s : Session S α) (kind : Handle S α → Option β) (name : String) :
    Except Refusal β := do
  let h ← s.handle name
  match kind h with
  | some b => pure b
  | none => .error (.wrongHandle name)

/-- The shared vector that a name stands for. -/
def vector (s : Session S α) (name : String) : Except Refusal SharedVector :=
  s.find Handle.vector? name

/-- The flat view that a name stands for. -/
def nested (s : Session S α) (name : String) : Except Refusal NestedVector :=
  s.find Handle.nested? name

/-- The function that a name stands for. -/
def function (s : Session S α) (name : String) : Except Refusal (SpaceFunction S) :=
  s.find Handle.function? name

/-- The block function that a name stands for. -/
def blockFunction (s : Session S α) (name : String) : Except Refusal (BlockFunction S) :=
  s.find Handle.blockFunction? name

/-- The block vector that a name stands for. -/
def blockVector (s : Session S α) (name : String) : Except Refusal (List (Expr α)) :=
  s.find Handle.blockVector? name

/-- The source that is named for a component. -/
def source (s : Session S α) : SourceName α → Except Refusal (ComponentSource S α)
  | .function name => .function <$> s.function name
  | .vector name => .vector <$> s.vector name
  | .values x => .ok (.values x)

/-- Lets a name stand for a handle, and for nothing else any more. -/
def bind (s : Session S α) (name : String) (h : Handle S α) : Session S α :=
  { s with handles := (name, h) :: s.handles.filter (·.1 != name) }

/-- An outcome that offers nothing. -/
def report (answer : Answer S α) : Outcome S α := ⟨answer, []⟩

/-- An outcome that offers a handle and answers with it. -/
def made (h : Handle S α) : Outcome S α := ⟨.handle (some h), [h]⟩

/-- Looking up a name leaves the storage alone. -/
instance {ε : Type} : MonadLift (Except ε) (EStateM ε (Store α)) := ⟨MonadExcept.ofExcept⟩

/-- Turns the failure of an operation into a refusal. -/
def attempt {β : Type} (x : EStateM Error (Store α) β) : EStateM Refusal (Store α) β :=
  x.adaptExcept .failed

variable [FunctionSpace S] [BEq S] [Zero α] [One α] [Add α] [Mul α] [Neg α] [BEq α]

/-- What a command gives and does to the storage. -/
def outcome (s : Session S α) : Command S α → EStateM Refusal (Store α) (Outcome S α)
  | .shared values => do
    let v ← Store.perform (·.alloc values)
    pure (made (.vector v))
  | .sharedZeros length => do
    let v ← Store.perform (·.alloc (List.replicate length 0))
    pure (made (.vector v))
  | .clone of => do
    let h ← s.handle of
    pure ⟨.done, [h]⟩
  | .read of => do
    let v ← s.vector of
    pure (report (.handle (some (.vector v))))
  | .write of entries => do
    let v ← s.vector of
    modify (·.setEntries v entries)
    pure (report .done)
  | .fill of x => do
    let v ← s.vector of
    modify (·.fill v x)
    pure (report .done)
  | .sameStorage of other => do
    let v ← s.vector of
    let w ← s.vector other
    pure (report (.truth (v = w)))
  | .nested components => do
    let vs ← (components.mapM s.vector : Except Refusal _)
    let store ← get
    pure (made (.nested (NestedVector.ofComponents store vs)))
  | .nestedInfo of => do
    let n ← s.nested of
    pure (report (.handle (some (.nested n))))
  | .nestedGet of index => do
    let n ← s.nested of
    let store ← get
    pure (report (.entry (n.get? store index)))
  | .locate of index => do
    let n ← s.nested of
    pure (report (.place (n.locate index)))
  | .nestedSet of index x => do
    let n ← s.nested of
    attempt (n.set index x)
    pure (report .done)
  | .nestedCopy of values => do
    let n ← s.nested of
    attempt (n.copyFrom values)
    pure (report .done)
  | .component of index => do
    let n ← s.nested of
    match n.component? index with
    | some v => pure (made (.vector v))
    | none => pure (report (.handle none))
  | .functionZeros space => do
    let f ← Store.perform (SpaceFunction.zeros · space)
    pure (made (.function f))
  | .function space coefficients => do
    let v ← s.vector coefficients
    let f ← attempt (SpaceFunction.ofCoefficients space v)
    pure (made (.function f))
  | .coefficients of => do
    let f ← s.function of
    pure ⟨.handle (some (.function f)), [.vector f.coefficients]⟩
  | .blockFunction spaces => do
    let b ← Store.perform (BlockFunction.zeros · spaces)
    pure (made (.blockFunction b))
  | .blockFunctionOf spaces sources => do
    let sources ← (sources.mapM s.source : Except Refusal _)
    let b ← attempt (BlockFunction.ofComponents spaces sources)
    pure (made (.blockFunction b))
  | .blockFunctionInfo of => do
    let b ← s.blockFunction of
    pure (report (.handle (some (.blockFunction b))))
  | .blockFunctionGet of index => do
    let b ← s.blockFunction of
    let f ← attempt (MonadExcept.ofExcept (b.get index))
    pure (made (.function f))
  | .vectors of => do
    let b ← s.blockFunction of
    pure ⟨.vectors b.vectors, b.vectors.map .vector⟩
  | .flatView of => do
    let b ← s.blockFunction of
    let store ← get
    pure (made (.nested (b.vector store)))
  | .snapshot of => do
    let b ← s.blockFunction of
    let store ← get
    pure (made (.blockVector (b.blockVector store)))
  | .blockVector blocks => pure (made (.blockVector blocks))
  | .blockVectorToNested of => do
    let blocks ← s.blockVector of
    let store ← get
    let placed ← attempt (MonadExcept.ofExcept (BlockVector.toNested store blocks))
    set placed.1
    pure (made (.nested placed.2))

/-- Runs a command and binds the handles that it offers to the given names, in order. A command that
is refused binds nothing. -/
def step (s : Session S α) (c : Command S α) (names : List String) :
    Session S α × Except Refusal (Answer S α) :=
  match (s.outcome c).run s.store with
  | .error r store => ({ s with store }, .error r)
  | .ok o store =>
    ((names.zip o.offers).foldl (fun s p => s.bind p.1 p.2) { s with store }, .ok o.answer)

/-- The current values behind every name. -/
def contents (s : Session S α) : List (String × Except Error (List α)) :=
  s.handles.map fun (name, h) => (name, h.contents s.store)

end Session
end BlockSparse
