import BlockSparse.Proofs.Storage.Handle
import BlockSparse.Proofs.Traversal
import Mathlib.Algebra.Ring.Int.Defs
import Mathlib.Data.List.Forall2

/-! What is true in every state of a session. All handles are intact, and each command keeps this,
whether it is refused or not, because storage never changes its length and is written only by the
commands that say so. -/
namespace BlockSparse
variable {S α : Type}

namespace Session
variable {s t : Session S α} {c : Command S α} {name : String} {names : List String}

/-- The vectors that can be reached through a name. -/
def storages (s : Session S α) (name : String) : List SharedVector :=
  ((s.handles.lookup name).map Handle.storages).getD []

/-- The components of the block vector that a name stands for. -/
def blocks (s : Session S α) (name : String) : List (Expr α) :=
  ((s.handles.lookup name).bind Handle.blockVector?).getD []

/-- The vectors into which a command may write. -/
def written (s : Session S α) : Command S α → List SharedVector
  | .write of _ | .fill of _ | .nestedSet of _ _ | .nestedCopy of _ => s.storages of
  | _ => []

/-- The storage that a source shares with the function made of it; values get new storage. -/
def sourceOrigins (s : Session S α) : SourceName α → List (Option SharedVector)
  | .function name | .vector name => (s.storages name).map some
  | .values _ => [none]

/-- For each handle that a command offers, the storage that it shares. Where no vector is named, the
storage is new. -/
def origins (s : Session S α) : Command S α → List (List (Option SharedVector))
  | .shared _ | .sharedZeros _ | .functionZeros _ => [[none]]
  | .clone of | .flatView of | .coefficients of => [(s.storages of).map some]
  | .nested components => [(components.flatMap s.storages).map some]
  | .function _ coefficients => [(s.storages coefficients).map some]
  | .component of index | .blockFunctionGet of index =>
    (s.storages of)[index]?.toList.map fun v => [some v]
  | .vectors of => (s.storages of).map fun v => [some v]
  | .blockFunction spaces => [spaces.map fun _ => none]
  | .blockFunctionOf _ sources => [sources.flatMap s.sourceOrigins]
  | .blockVectorToNested of => [(s.blocks of).map fun _ => none]
  | .snapshot _ | .blockVector _ => [[]]
  | _ => []

section Lookups
variable {h : Handle S α}

lemma handle_eq_ok_iff : s.handle name = .ok h ↔ s.handles.lookup name = some h := by
  cases hlookup : s.handles.lookup name <;> simp [handle, hlookup]

lemma find_eq_ok_iff {β : Type} {kind : Handle S α → Option β} {make : β → Handle S α}
    (hkind : ∀ {h b}, kind h = some b ↔ h = make b) {b : β} :
    s.find kind name = .ok b ↔ s.handles.lookup name = some (make b) := by
  rw [find, Traversal.bind_eq_ok_iff]
  constructor
  · rintro ⟨h, hh, hb⟩
    cases hfound : kind h with
    | none => simp [hfound] at hb
    | some b' =>
      simp only [hfound] at hb
      cases hb
      rw [← hkind.1 hfound]
      exact handle_eq_ok_iff.1 hh
  · intro hlookup
    exact ⟨make b, handle_eq_ok_iff.2 hlookup, by rw [hkind.2 rfl]; rfl⟩

lemma vector_eq_ok_iff {v : SharedVector} :
    s.vector name = .ok v ↔ s.handles.lookup name = some (.vector v) :=
  find_eq_ok_iff Handle.vector?_eq_some_iff

lemma nested_eq_ok_iff {n : NestedVector} :
    s.nested name = .ok n ↔ s.handles.lookup name = some (.nested n) :=
  find_eq_ok_iff Handle.nested?_eq_some_iff

lemma function_eq_ok_iff {f : SpaceFunction S} :
    s.function name = .ok f ↔ s.handles.lookup name = some (.function f) :=
  find_eq_ok_iff Handle.function?_eq_some_iff

lemma blockFunction_eq_ok_iff {b : BlockFunction S} :
    s.blockFunction name = .ok b ↔ s.handles.lookup name = some (.blockFunction b) :=
  find_eq_ok_iff Handle.blockFunction?_eq_some_iff

lemma blockVector_eq_ok_iff {blocks : List (Expr α)} :
    s.blockVector name = .ok blocks ↔ s.handles.lookup name = some (.blockVector blocks) :=
  find_eq_ok_iff Handle.blockVector?_eq_some_iff

lemma storages_of_lookup (hlookup : s.handles.lookup name = some h) :
    s.storages name = h.storages := by
  rw [storages, hlookup]
  rfl

/-- Components that are given by name are the vectors behind the names. -/
lemma flatMap_storages {vs : List SharedVector} (h : names.mapM s.vector = .ok vs) :
    names.flatMap s.storages = vs := by
  rw [Traversal.mapM_eq_ok_iff] at h
  induction h with
  | nil => rfl
  | cons hv _ ih =>
    rw [List.flatMap_cons, ih, storages_of_lookup (vector_eq_ok_iff.1 hv)]
    rfl

/-- Sources that are given by name share what is behind the names. -/
lemma flatMap_sourceOrigins {sources : List (SourceName α)} {found : List (ComponentSource S α)}
    (h : sources.mapM s.source = .ok found) :
    sources.flatMap s.sourceOrigins = found.map ComponentSource.origin := by
  rw [Traversal.mapM_eq_ok_iff] at h
  induction h with
  | nil => rfl
  | @cons source _ _ _ hsource _ ih =>
    rw [List.flatMap_cons, ih, List.map_cons]
    cases source with
    | function name =>
      obtain ⟨f, hf, rfl⟩ := Traversal.map_eq_ok_iff.1 hsource
      rw [sourceOrigins, storages_of_lookup (function_eq_ok_iff.1 hf)]
      rfl
    | vector name =>
      obtain ⟨v, hv, rfl⟩ := Traversal.map_eq_ok_iff.1 hsource
      rw [sourceOrigins, storages_of_lookup (vector_eq_ok_iff.1 hv)]
      rfl
    | values x =>
      cases hsource
      rfl

end Lookups

/-- All handles of the session are intact. -/
def Valid [FunctionSpace S] (s : Session S α) : Prop := ∀ p ∈ s.handles, p.2.Intact s.store

section Outcomes
variable [FunctionSpace S]

lemma Valid.intact {h : Handle S α} (hs : s.Valid) (hlookup : s.handles.lookup name = some h) :
    h.Intact s.store := by
  obtain ⟨_, _, hsplit, _⟩ := List.lookup_eq_some_iff.1 hlookup
  exact hs (name, h) (by simp [hsplit])

lemma Valid.holds (hs : s.Valid) {v : SharedVector} (hv : v ∈ s.storages name) :
    s.store.Holds v := by
  cases hlookup : s.handles.lookup name with
  | none => simp [storages, hlookup] at hv
  | some h =>
    rw [storages_of_lookup hlookup] at hv
    exact (hs.intact hlookup).held v hv

lemma Valid.holds_sources (hs : s.Valid) {sources : List (SourceName α)} {v : SharedVector}
    (hv : some v ∈ sources.flatMap s.sourceOrigins) : s.store.Holds v := by
  obtain ⟨source, _, hv⟩ := List.mem_flatMap.1 hv
  cases source with
  | function name => exact hs.holds (by simpa [sourceOrigins] using hv)
  | vector name => exact hs.holds (by simpa [sourceOrigins] using hv)
  | values x => simp [sourceOrigins] at hv

variable [BEq S] [Zero α] [One α] [Add α] [Mul α] [Neg α] [BEq α]

/-- A command leaves the storage as it was but for what it may write, and offers handles that are
intact and share the storage that they are to share. If it is refused, it leaves everything. -/
theorem leaves_outcome (hs : s.Valid) (c : Command S α) :
    Store.Leaves (s.written c) s.store
      (fun o t => List.Forall₂ (Handle.Made s.store t) (s.origins c) o.offers)
      ((s.outcome c).run s.store) := by
  cases c with
  | shared values => exact .ok (.alloc s.store values) (.cons (.of_alloc s.store values) .nil)
  | sharedZeros length => exact .ok (.alloc s.store _) (.cons (.of_alloc s.store _) .nil)
  | clone of =>
    refine .bind_lookup fun h hh => .pure ?_
    have hlookup := handle_eq_ok_iff.1 hh
    rw [origins, storages_of_lookup hlookup]
    exact .cons (.of_shared (hs.intact hlookup)) .nil
  | read of => exact .bind_lookup fun v hv => .pure .nil
  | write of entries =>
    refine .bind_lookup fun v hv => ?_
    rw [written, storages_of_lookup (vector_eq_ok_iff.1 hv)]
    exact .ok (.setEntries _ v entries) .nil
  | fill of x =>
    refine .bind_lookup fun v hv => ?_
    rw [written, storages_of_lookup (vector_eq_ok_iff.1 hv)]
    exact .ok (.fill _ v x) .nil
  | sameStorage of other =>
    exact .bind_lookup fun v hv => .bind_lookup fun w hw => .pure .nil
  | nested components =>
    refine .bind_lookup fun vs hvs => .pure (.cons ?_ .nil)
    have hheld : ∀ v ∈ components.flatMap s.storages, s.store.Holds v := by
      intro v hv
      obtain ⟨name, _, hv⟩ := List.mem_flatMap.1 hv
      exact hs.holds hv
    rw [flatMap_storages hvs] at hheld ⊢
    exact .of_components hheld
  | nestedInfo of => exact .bind_lookup fun n hn => .pure .nil
  | nestedGet of index => exact .bind_lookup fun n hn => .pure .nil
  | locate of index => exact .bind_lookup fun n hn => .pure .nil
  | nestedSet of index x =>
    refine .bind_lookup fun n hn => ?_
    have hlookup := nested_eq_ok_iff.1 hn
    rw [written, storages_of_lookup hlookup]
    exact .map (.adaptExcept (NestedVector.leaves_set (hs.intact hlookup).fits index x))
      fun _ _ _ _ => .nil
  | nestedCopy of values =>
    refine .bind_lookup fun n hn => ?_
    have hlookup := nested_eq_ok_iff.1 hn
    have hintact := hs.intact hlookup
    rw [written, storages_of_lookup hlookup]
    exact .map (.adaptExcept (NestedVector.leaves_copyFrom hintact.fits hintact.held values))
      fun _ _ _ _ => .nil
  | component of index =>
    refine .bind_lookup fun n hn => ?_
    have hlookup := nested_eq_ok_iff.1 hn
    rw [origins, storages_of_lookup hlookup]
    cases hv : n.component? index with
    | none =>
      have hnone : n.components[index]? = none := hv
      simp only [Handle.storages, hnone]
      exact .pure .nil
    | some v =>
      have hsome : n.components[index]? = some v := hv
      have hheld := (hs.intact hlookup).held v (List.mem_of_getElem? hsome)
      simp only [Handle.storages, hsome]
      exact .pure (.cons (.of_vector hheld) .nil)
  | functionZeros space =>
    obtain ⟨hkept, hstem, hfits⟩ := SpaceFunction.zeros_spec s.store space
    exact .ok hkept (.cons (.of_stem (h := .function _) hstem hkept (by simp) hfits) .nil)
  | function space coefficients =>
    refine .bind_lookup fun v hv => ?_
    have hlookup := vector_eq_ok_iff.1 hv
    rw [origins, storages_of_lookup hlookup]
    refine .map (.adaptExcept (BlockFunction.leaves_ofCoefficients space v s.store))
      fun f t _ hf => ?_
    obtain ⟨rfl, rfl, hfits⟩ := hf
    exact .cons (.of_function ((hs.intact hlookup).held _ List.mem_cons_self) hfits) .nil
  | coefficients of =>
    refine .bind_lookup fun f hf => .pure ?_
    have hlookup := function_eq_ok_iff.1 hf
    rw [origins, storages_of_lookup hlookup]
    exact .cons (.of_vector ((hs.intact hlookup).held _ List.mem_cons_self)) .nil
  | blockFunction spaces =>
    obtain ⟨hkept, hstem, hfits⟩ := BlockFunction.zeros_spec s.store spaces
    exact .ok hkept (.cons (.of_stem hstem hkept (by simp) hfits) .nil)
  | blockFunctionOf spaces sources =>
    refine .bind_lookup fun found hfound => ?_
    have hheld : ∀ v, some v ∈ sources.flatMap s.sourceOrigins → s.store.Holds v := fun v hv =>
      hs.holds_sources hv
    rw [origins, flatMap_sourceOrigins hfound]
    rw [flatMap_sourceOrigins hfound] at hheld
    refine .map (.adaptExcept (BlockFunction.leaves_ofComponents spaces found s.store hheld))
      fun b t hkept hb => .cons (.of_stem hb.1 hkept hheld hb.2) .nil
  | blockFunctionInfo of => exact .bind_lookup fun b hb => .pure .nil
  | blockFunctionGet of index =>
    refine .bind_lookup fun b hb => ?_
    have hlookup := blockFunction_eq_ok_iff.1 hb
    have hintact := hs.intact hlookup
    rw [origins, storages_of_lookup hlookup]
    refine .map (.adaptExcept (BlockFunction.leaves_get b index s.store)) fun f t _ hf => ?_
    obtain ⟨hf, rfl⟩ := hf
    have hvector : b.vectors[index]? = some f.coefficients := by
      rw [BlockFunction.vectors, List.getElem?_map, hf]
      rfl
    rw [Handle.storages, hvector]
    exact .cons (.of_function (hintact.held _ (List.mem_of_getElem? hvector))
      (hintact.fits f (List.mem_of_getElem? hf))) .nil
  | vectors of =>
    refine .bind_lookup fun b hb => .pure ?_
    have hlookup := blockFunction_eq_ok_iff.1 hb
    rw [origins, storages_of_lookup hlookup, Handle.storages, List.forall₂_map_left_iff,
      List.forall₂_map_right_iff, List.forall₂_same]
    exact fun v hv => .of_vector ((hs.intact hlookup).held v hv)
  | flatView of =>
    refine .bind_lookup fun b hb => .pure ?_
    have hlookup := blockFunction_eq_ok_iff.1 hb
    rw [origins, storages_of_lookup hlookup]
    exact .cons (.of_components (hs.intact hlookup).held) .nil
  | snapshot of =>
    exact .bind_lookup fun b hb => .pure (.cons (.of_blockVector s.store _) .nil)
  | blockVector blocks => exact .pure (.cons (.of_blockVector s.store blocks) .nil)
  | blockVectorToNested of =>
    refine .bind_lookup fun blocks hblocks => .get ?_
    have hlookup := blockVector_eq_ok_iff.1 hblocks
    have horigins : s.blocks of = blocks := by
      rw [Session.blocks, hlookup]
      rfl
    rw [origins, horigins]
    refine .bind (.adaptExcept (BlockVector.leaves_toNested s.store blocks))
      fun placed t _ hplaced => ?_
    obtain ⟨hplaced, rfl⟩ := hplaced
    obtain ⟨hkept, hstem, hfits⟩ := BlockVector.toNested_spec hplaced
    exact .ok hkept (.cons (.of_stem (h := .nested placed.2) hstem hkept (by simp) hfits) .nil)

end Outcomes

/-- A command and the names to which the handles that it offers are bound. -/
structure Call (S α : Type) where
  command : Command S α
  names : List String

section Bindings

/-- Binds names one after another. -/
def bindAll (s : Session S α) (pairs : List (String × Handle S α)) : Session S α :=
  pairs.foldl (fun s p => s.bind p.1 p.2) s

@[simp] lemma store_bindAll (s : Session S α) (pairs : List (String × Handle S α)) :
    (s.bindAll pairs).store = s.store := by
  induction pairs generalizing s with
  | nil => rfl
  | cons p pairs ih => exact ih _

lemma mem_bindAll {s : Session S α} {pairs : List (String × Handle S α)} {p : String × Handle S α}
    (hp : p ∈ (s.bindAll pairs).handles) : p ∈ s.handles ∨ p ∈ pairs := by
  induction pairs generalizing s with
  | nil => exact .inl hp
  | cons q pairs ih =>
    rcases ih hp with hp | hp
    · rcases List.mem_cons.1 hp with rfl | hp
      · exact .inr List.mem_cons_self
      · exact .inl (List.mem_filter.1 hp).1
    · exact .inr (List.mem_cons_of_mem q hp)

end Bindings

lemma valid_empty [FunctionSpace S] : (empty : Session S α).Valid :=
  fun _ hp => absurd hp List.not_mem_nil

variable [FunctionSpace S] [BEq S] [Zero α] [One α] [Add α] [Mul α] [Neg α] [BEq α]

/-- Gives calls one after another, whether they are refused or not. -/
def run (s : Session S α) (calls : List (Call S α)) : Session S α :=
  calls.foldl (fun s call => (s.step call.command call.names).1) s

/-- What a step does: a command that is refused leaves the handles and the vectors, and one that is
carried out leaves the vectors into which it does not write and binds what it has made. -/
inductive Stepped (s : Session S α) (c : Command S α) (names : List String) :
    Session S α × Except Refusal (Answer S α) → Prop
  | refused {r : Refusal} {t : Store α} (kept : Store.KeptBut [] s.store t) :
    Stepped s c names ({ s with store := t }, .error r)
  | done {o : Outcome S α} {t : Store α} (gave : (s.outcome c).run s.store = .ok o t)
    (kept : Store.KeptBut (s.written c) s.store t)
    (made : List.Forall₂ (Handle.Made s.store t) (s.origins c) o.offers) :
    Stepped s c names ((Session.mk t s.handles).bindAll (names.zip o.offers), .ok o.answer)

theorem stepped (hs : s.Valid) (c : Command S α) (names : List String) :
    s.Stepped c names (s.step c names) := by
  have hleaves := leaves_outcome hs c
  rw [step]
  cases hrun : (s.outcome c).run s.store with
  | error r t =>
    rw [hrun] at hleaves
    cases hleaves with
    | error kept => exact .refused kept
  | ok o t =>
    rw [hrun] at hleaves
    cases hleaves with
    | ok kept made => exact .done hrun kept made

/-- Every step keeps the handles intact, and the storage but for what the command may write. -/
theorem valid_step (hs : s.Valid) (c : Command S α) (names : List String) :
    (s.step c names).1.Valid ∧
      Store.KeptBut (s.written c) s.store (s.step c names).1.store := by
  have hstep := stepped hs c names
  generalize s.step c names = result at hstep ⊢
  cases hstep with
  | refused kept =>
    exact ⟨fun p hp => (hs p hp).kept kept, kept.mono (List.nil_subset _)⟩
  | done gave kept made =>
    refine ⟨fun p hp => ?_, by rwa [store_bindAll]⟩
    rw [store_bindAll]
    rcases mem_bindAll hp with hp | hp
    · exact (hs p hp).kept kept
    · exact Handle.intact_of_made made (List.of_mem_zip hp).2

/-- Every run keeps the handles intact, and every vector in storage with its length. -/
theorem valid_run (hs : s.Valid) (calls : List (Call S α)) :
    (s.run calls).Valid ∧ ∃ written, Store.KeptBut written s.store (s.run calls).store := by
  induction calls generalizing s with
  | nil => exact ⟨hs, [], .refl [] s.store⟩
  | cons call calls ih =>
    obtain ⟨hvalid, hkept⟩ := valid_step hs call.command call.names
    obtain ⟨hrun, written, hrest⟩ := ih hvalid
    refine ⟨hrun, s.written call.command ++ written, ?_⟩
    exact (hkept.mono (List.subset_append_left _ _)).trans
      (hrest.mono (List.subset_append_right _ _))

/-- A handle for which a name stood at some moment of a run. It remains in use whatever the name
stands for later. -/
def Bound (calls : List (Call S α)) (h : Handle S α) : Prop :=
  ∃ earlier later name, calls = earlier ++ later ∧
    (name, h) ∈ ((empty : Session S α).run earlier).handles

/-- Handles stay intact for as long as the run goes on. -/
theorem Bound.intact {calls : List (Call S α)} {h : Handle S α} (hbound : Bound calls h) :
    h.Intact ((empty : Session S α).run calls).store := by
  obtain ⟨earlier, later, name, rfl, hmem⟩ := hbound
  obtain ⟨hearlier, _⟩ := valid_run valid_empty earlier
  obtain ⟨_, written, hkept⟩ := valid_run hearlier later
  have hrun : (empty : Session S α).run (earlier ++ later) = (empty.run earlier).run later :=
    List.foldl_append
  rw [hrun]
  exact (hearlier _ hmem).kept hkept

/-- A command that is refused leaves the handles and all vectors as they were. -/
theorem refused_step (hs : s.Valid) {r : Refusal} (h : (s.step c names).2 = .error r) :
    (s.step c names).1.handles = s.handles ∧
      Store.KeptBut [] s.store (s.step c names).1.store := by
  have hstep := stepped hs c names
  generalize s.step c names = result at hstep h ⊢
  cases hstep with
  | refused kept => exact ⟨rfl, kept⟩
  | done gave kept made => cases h

/-- In every state that a session can reach, and whatever has been refused on the way: vectors have
kept their lengths; views have the boundaries that their components have now, and reach nothing out
of range; functions have one coefficient for each dimension; and a command that is refused changes
neither handles nor vectors. Views and functions stay so for as long as anything still refers to
them. -/
theorem run_invariant (earlier later : List (Call S α)) :
    let s := (empty : Session S α).run earlier
    let t := s.run later
    (∀ v, s.store.Holds v → t.store.Holds v ∧ t.store.length v = s.store.length v) ∧
    (∀ name n, (name, .nested n) ∈ s.handles →
      n.offsets = Offsets.cumulative (n.components.map t.store.length) ∧
        n.length = (n.components.map t.store.length).sum ∧ n.InRange t.store) ∧
    (∀ name f, (name, .function f) ∈ s.handles →
      t.store.length f.coefficients = FunctionSpace.dim f.space) ∧
    (∀ name b, (name, .blockFunction b) ∈ s.handles → ∀ f ∈ b.functions,
      t.store.length f.coefficients = FunctionSpace.dim f.space) ∧
    ∀ c names r, (t.step c names).2 = .error r →
      (t.step c names).1.handles = t.handles ∧
        ∀ v, t.store.Holds v → (t.step c names).1.store.Holds v ∧
          (t.step c names).1.store.read v = t.store.read v := by
  intro s t
  obtain ⟨hs, _⟩ := valid_run valid_empty earlier
  obtain ⟨ht, written, hkept⟩ := valid_run hs later
  have hintact : ∀ {name : String} {h : Handle S α}, (name, h) ∈ s.handles → h.Intact t.store :=
    fun hp => (hs _ hp).kept hkept
  refine ⟨fun v hv => ⟨hkept.holds hv, hkept.length hv⟩, fun name n hn => ?_,
    fun name f hf => (hintact hf).fits, fun name b hb => (hintact hb).fits,
    fun c names r hr => ?_⟩
  · obtain ⟨hheld, hfits⟩ := hintact hn
    exact ⟨hfits, hfits.length_eq, hfits.inRange hheld⟩
  · obtain ⟨hhandles, hsame⟩ := refused_step ht hr
    exact ⟨hhandles, fun v hv => ⟨hsame.holds hv, hsame.read hv List.not_mem_nil⟩⟩

/-- A view in which a vector stands twice stays in range after the vector was written, and a copy
that does not fit is refused before anything is written. -/
theorem run_invariant_repeated :
    let s := (empty : Session NamedSpace Int).run
      [⟨.shared [1, 2], ["v"]⟩, ⟨.nested ["v", "v"], ["n"]⟩]
    let t := s.run [⟨.write "v" [(0, 5)], []⟩]
    let n : NestedVector := ⟨[⟨0⟩, ⟨0⟩], [0, 2, 4]⟩
    ("n", .nested n) ∈ s.handles ∧ n.InRange t.store ∧
      (t.step (.nestedCopy "n" [7]) []).1.store.read ⟨0⟩ = [5, 2] := by
  intro s t n
  have hmem : ("n", .nested n) ∈ s.handles := .head _
  obtain ⟨_, hviews, _, _, hrefused⟩ := run_invariant (S := NamedSpace) (α := Int)
    [⟨.shared [1, 2], ["v"]⟩, ⟨.nested ["v", "v"], ["n"]⟩] [⟨.write "v" [(0, 5)], []⟩]
  exact ⟨hmem, (hviews "n" n hmem).2.2, ((hrefused _ [] _ rfl).2 ⟨0⟩ (by decide)).2⟩

end Session
end BlockSparse
