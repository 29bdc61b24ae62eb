import BlockSparse.Proofs.Block.Flatten
import BlockSparse.Proofs.Storage.Session
import Mathlib.Algebra.Ring.Int.Defs

/-! Which positions are the same place. A position of a handle leads to a vector in storage and an
index in it, and two positions are aliases if they lead to the same. An entry that is written shows
at its aliases, in whatever handle they are, and nowhere else. What a command offers shares the
storage that it takes over, and the rest is new; so a snapshot stays as it was taken, and a view of
a block vector that was put into new storage reaches nothing that was there before. -/
namespace BlockSparse
variable {S α : Type}

namespace Store
variable {s t : Store α} {v w : SharedVector} {i : Nat} {x : α} {a b : SharedVector × Nat}

lemma holds_of_lt_length (hi : i < s.length v) : s.Holds v := by
  refine Nat.lt_of_not_le fun hout => ?_
  rw [length, read, List.getElem?_eq_none hout] at hi
  exact Nat.not_lt_zero i hi

/-- An entry that is written is read at its place, and all other entries stay. -/
lemma getElem?_read_setEntry (hb : b.2 < s.length b.1) :
    ((s.setEntry b.1 b.2 x).read a.1)[a.2]? =
      if a = b then some x else (s.read a.1)[a.2]? := by
  by_cases hvector : b.1 = a.1
  · rw [setEntry, ← hvector, read_write_self (holds_of_lt_length hb)]
    by_cases hindex : a.2 = b.2
    · rw [if_pos (Prod.ext hvector.symm hindex), hindex]
      exact List.getElem?_set_self hb
    · rw [if_neg fun h => hindex (congrArg Prod.snd h)]
      exact List.getElem?_set_ne fun h => hindex h.symm
  · rw [setEntry, read_write_of_ne s hvector, if_neg fun h => hvector (congrArg Prod.fst h).symm]

end Store

namespace Handle

/-- What a handle refers to, as a flat view. -/
def view (s : Store α) : Handle S α → NestedVector
  | nested n => n
  | h => NestedVector.ofComponents s h.storages

/-- The vector in storage, and the index in it, to which a position of a handle leads. -/
def address? (s : Store α) (h : Handle S α) (position : Nat) : Option (SharedVector × Nat) :=
  (h.view s).address? position

/-- The value at a position of a handle. -/
def valueAt? [Zero α] [One α] [Add α] [Mul α] [Neg α] [BEq α] (s : Store α) (h : Handle S α)
    (position : Nat) : Option α :=
  (h.contents s).toOption.bind (·[position]?)

/-- The handle refers to storage and does not hold its values itself. -/
def Refers : Handle S α → Prop
  | blockVector _ => False
  | _ => True

section View
variable {s : Store α} {h : Handle S α}

lemma components_view : (h.view s).components = h.storages := by
  cases h <;> rfl

/-- Writing entries moves nothing to another place. -/
lemma view_setEntry (v : SharedVector) (i : Nat) (x : α) :
    h.view (s.setEntry v i x) = h.view s := by
  have hlengths : ∀ vs : List SharedVector, NestedVector.ofComponents (s.setEntry v i x) vs =
      NestedVector.ofComponents s vs := by
    intro vs
    have hmap : vs.map (s.setEntry v i x).length = vs.map s.length :=
      List.map_congr_left fun w _ => s.length_setEntry v w i x
    rw [NestedVector.ofComponents, hmap]
    rfl
  cases h with
  | nested n => rfl
  | _ => exact hlengths _

end View

section Entries
variable [FunctionSpace S] {s t : Store α} {written : List SharedVector} {h : Handle S α}

lemma Intact.fits_view (hh : h.Intact s) : (h.view s).Fits s := by
  cases h with
  | nested n => exact hh.fits
  | vector v => exact NestedVector.fits_ofComponents s _
  | function f => exact NestedVector.fits_ofComponents s _
  | blockFunction b => exact NestedVector.fits_ofComponents s _
  | blockVector blocks => exact NestedVector.fits_ofComponents s _

variable [Zero α] [One α] [Add α] [Mul α] [Neg α] [BEq α]

lemma Intact.contents_eq (hh : h.Intact s) (href : h.Refers) :
    h.contents s = .ok (h.storages.flatMap s.read) := by
  cases h with
  | vector v => simp [contents, storages]
  | nested n => exact congrArg Except.ok (NestedVector.Fits.toFlat_eq hh.fits)
  | function f => simp [contents, storages]
  | blockFunction b =>
    exact congrArg Except.ok (NestedVector.fits_ofComponents s b.vectors).toFlat_eq
  | blockVector blocks => exact absurd href id

/-- The value at a position is what is stored at the place to which the position leads. -/
lemma Intact.valueAt?_eq (hh : h.Intact s) (href : h.Refers) (position : Nat) :
    h.valueAt? s position = (h.address? s position).bind fun a => (s.read a.1)[a.2]? := by
  have hget := hh.fits_view.getElem?_toFlat position
  rw [hh.fits_view.toFlat_eq, components_view] at hget
  rw [valueAt?, hh.contents_eq href]
  exact hget

/-- What a handle refers to is kept as long as nothing is written there. -/
lemma Intact.contents_kept (hh : h.Intact s) (hkept : Store.KeptBut written s t)
    (hapart : ∀ v ∈ h.storages, v ∉ written) : h.contents t = h.contents s := by
  by_cases href : h.Refers
  · have hread : h.storages.map t.read = h.storages.map s.read :=
      List.map_congr_left fun v hv => hkept.read (hh.held v hv) (hapart v hv)
    rw [hh.contents_eq href, (hh.kept hkept).contents_eq href, List.flatMap_def, List.flatMap_def,
      hread]
  · cases h with
    | blockVector blocks => rfl
    | _ => exact absurd trivial href

/-- A written entry shows at the positions that lead to it, and at no others. -/
lemma Intact.valueAt?_setEntry (hh : h.Intact s) {b : SharedVector × Nat}
    (hb : b.2 < s.length b.1) (x : α) (position : Nat) :
    h.valueAt? (s.setEntry b.1 b.2 x) position =
      if h.address? s position = some b then some x else h.valueAt? s position := by
  by_cases href : h.Refers
  · have haddress : h.address? (s.setEntry b.1 b.2 x) position = h.address? s position := by
      rw [address?, view_setEntry, address?]
    rw [(hh.kept (.setEntry s b.1 b.2 x)).valueAt?_eq href, hh.valueAt?_eq href, haddress]
    cases h.address? s position with
    | none => rfl
    | some a => simp only [Option.bind_some, Option.some.injEq, Store.getElem?_read_setEntry hb]
  · cases h with
    | blockVector blocks =>
      have hnone : (blockVector blocks : Handle S α).address? s position = none :=
        NestedVector.Fits.address?_eq_none (Nat.zero_le position)
      rw [hnone]
      rfl
    | _ => exact absurd trivial href

end Entries
end Handle

section Snapshots

variable [Zero α] [One α] [Add α] [Mul α] [Neg α] [BEq α]

/-- A snapshot has the coefficients that the functions have when it is taken. -/
lemma BlockFunction.flatten_blockVector (s : Store α) (b : BlockFunction S) :
    BlockVector.flatten (b.blockVector s) = .ok (b.vectors.flatMap s.read) := by
  rw [List.flatMap_def]
  refine BlockVector.flatten_of_forall₂ ?_
  rw [BlockFunction.blockVector, List.forall₂_map_left_iff, List.forall₂_map_right_iff,
    List.forall₂_same]
  exact fun v _ => rfl

end Snapshots

namespace Session
variable {s : Session S α} {c : Command S α} {name : String} {names : List String}

section Lookups

lemma lookup_filter {β : Type} {other : String} (h : name ≠ other) (l : List (String × β)) :
    (l.filter (·.1 != other)).lookup name = l.lookup name := by
  induction l with
  | nil => rfl
  | cons p l ih =>
    by_cases hp : p.1 = other
    · have hne : (name == p.1) = false := by simp [hp, h]
      rw [List.filter_cons_of_neg (by simp [hp]), ih, List.lookup_cons, hne]
    · rw [List.filter_cons_of_pos (by simp [hp]), List.lookup_cons, List.lookup_cons, ih]

lemma lookup_bind_self (h : Handle S α) : (s.bind name h).handles.lookup name = some h :=
  List.lookup_cons_self

lemma lookup_bindAll {pairs : List (String × Handle S α)} (h : ∀ p ∈ pairs, p.1 ≠ name) :
    (s.bindAll pairs).handles.lookup name = s.handles.lookup name := by
  induction pairs generalizing s with
  | nil => rfl
  | cons p pairs ih =>
    have hne : (name == p.1) = false := by simpa using (h p List.mem_cons_self).symm
    have hrest := ih (s := s.bind p.1 p.2) fun q hq => h q (List.mem_cons_of_mem p hq)
    refine hrest.trans ?_
    rw [bind, List.lookup_cons, hne]
    exact lookup_filter (h p List.mem_cons_self).symm _

end Lookups

/-- A command that writes one entry: to the place to which an index of a vector or of a view
leads. -/
inductive Writes (s : Session S α) : Command S α → SharedVector × Nat → α → Prop
  | vector {of : String} {v : SharedVector} {i : Nat} {x : α}
    (found : s.handles.lookup of = some (.vector v)) (inside : i < s.store.length v) :
    Writes s (.write of [(i, x)]) (v, i) x
  | view {of : String} {n : NestedVector} {i : Nat} {x : α} {a : SharedVector × Nat}
    (found : s.handles.lookup of = some (.nested n)) (place : n.address? i = some a) :
    Writes s (.nestedSet of i x) a x

section Steps
variable [FunctionSpace S] {a : SharedVector × Nat} {x : α}

lemma Writes.inside (hs : s.Valid) (h : s.Writes c a x) : a.2 < s.store.length a.1 := by
  cases h with
  | vector found inside => exact inside
  | view found place => exact ((hs.intact found).fits.of_address? place).2

variable [BEq S] [Zero α] [One α] [Add α] [Mul α] [Neg α] [BEq α]

lemma outcome_nestedSet {of : String} {n : NestedVector} (hn : s.nested of = .ok n) (i : Nat)
    (x : α) : s.outcome (.nestedSet of i x) =
      attempt (n.set i x) >>= fun _ => pure (report .done) := by
  simp only [outcome, hn]
  rfl

lemma Writes.outcome_eq (h : s.Writes c a x) :
    (s.outcome c).run s.store = .ok (report .done) (s.store.setEntry a.1 a.2 x) := by
  cases h with
  | vector found inside =>
    simp only [outcome, vector_eq_ok_iff.2 found]
    rfl
  | view found place =>
    rw [outcome_nestedSet (nested_eq_ok_iff.2 found)]
    exact Store.run_bind_of_ok (Store.run_adaptExcept_of_ok (NestedVector.run_set place))

lemma Writes.step_eq (h : s.Writes c a x) (names : List String) :
    s.step c names = ({ s with store := s.store.setEntry a.1 a.2 x }, .ok .done) := by
  simp only [step, h.outcome_eq, report, List.zip_nil_right, List.foldl_nil]

/-- A view is written where the index leads, or else the command is refused. -/
lemma writes_of_nestedSet {of : String} {i : Nat} {answer : Answer S α}
    (h : (s.step (.nestedSet of i x) names).2 = .ok answer) :
    ∃ a, s.Writes (.nestedSet of i x) a x := by
  cases hn : s.nested of with
  | error r =>
    simp only [step, outcome, hn] at h
    cases h
  | ok n =>
    cases ha : n.address? i with
    | none =>
      have hrun : (s.outcome (.nestedSet of i x)).run s.store =
          .error (.failed (.indexOutOfBounds i n.length)) s.store := by
        rw [outcome_nestedSet hn]
        exact Store.run_bind_of_error
          (Store.run_adaptExcept_of_error (NestedVector.run_set_of_none ha))
      rw [step, hrun] at h
      cases h
    | some a => exact ⟨a, .view (nested_eq_ok_iff.1 hn) ha⟩

/-- Names that are not bound again keep their handles. -/
lemma lookup_step (hname : name ∉ names) (c : Command S α) :
    (s.step c names).1.handles.lookup name = s.handles.lookup name := by
  rw [step]
  cases (s.outcome c).run s.store with
  | error r t => rfl
  | ok o t =>
    exact lookup_bindAll (s := { s with store := t }) fun p hp heq =>
      hname (heq ▸ (List.of_mem_zip hp).1)

lemma lookup_run {calls : List (Call S α)} (hname : ∀ call ∈ calls, name ∉ call.names) :
    (s.run calls).handles.lookup name = s.handles.lookup name := by
  induction calls generalizing s with
  | nil => rfl
  | cons call calls ih =>
    have hrest := ih (s := (s.step call.command call.names).1) fun later hlater =>
      hname later (List.mem_cons_of_mem call hlater)
    exact hrest.trans (lookup_step (hname call List.mem_cons_self) call.command)

/-- A snapshot is bound with the coefficients of that moment. -/
lemma step_snapshot {of : String} {b : BlockFunction S}
    (h : s.handles.lookup of = some (.blockFunction b)) (name : String) :
    (s.step (.snapshot of) [name]).1 =
      s.bind name (.blockVector (b.blockVector s.store)) := by
  simp only [step, outcome, blockFunction_eq_ok_iff.2 h]
  rfl

/-- The components of a block vector that is put into storage are new. -/
lemma not_holds_of_toNested (hs : s.Valid) {of view : String} {answer : Answer S α}
    {n : NestedVector} (hanswer : (s.step (.blockVectorToNested of) [view]).2 = .ok answer)
    (hview : (s.step (.blockVectorToNested of) [view]).1.handles.lookup view =
      some (.nested n)) : ∀ v ∈ n.components, ¬ s.store.Holds v := by
  have hstep := stepped hs (.blockVectorToNested of) [view]
  generalize s.step (.blockVectorToNested of) [view] = result at hstep hanswer hview
  cases hstep with
  | refused kept => cases hanswer
  | @done o t gave kept made =>
    obtain ⟨h, rest, hmade, hrest, hoffers⟩ := List.forall₂_cons_left_iff.1 made
    rw [hoffers] at hview
    have hbound : (Session.bind (Session.mk t s.handles) view h).handles.lookup view =
        some (.nested n) := hview
    rw [lookup_bind_self] at hbound
    cases hbound
    intro v hv
    rcases hmade.stem.mem_cases hv with horigin | hnew
    · simp at horigin
    · exact hnew

end Steps

/-- How handles share storage. -/
structure SharesExactly (s : Session S α) [FunctionSpace S] [BEq S] [Zero α] [One α] [Add α]
    [Mul α] [Neg α] [BEq α] : Prop where
  /-- The value at a position of a handle is what is stored at the place to which it leads. -/
  entry : ∀ p ∈ s.handles, p.2.Refers → ∀ position, p.2.valueAt? s.store position =
    (p.2.address? s.store position).bind fun a => (s.store.read a.1)[a.2]?
  /-- Reading one entry of a view gives the value that its flat list has there. -/
  get : ∀ p ∈ s.handles, ∀ n, p.2 = .nested n → ∀ index,
    n.get? s.store index = p.2.valueAt? s.store index
  /-- A written entry shows at the positions that lead to the same place, and at no others. -/
  write : ∀ c a x, s.Writes c a x → ∀ names,
    (s.step c names).2 = .ok .done ∧ (s.step c names).1.handles = s.handles ∧
      ∀ p ∈ s.handles, ∀ position,
        p.2.address? (s.step c names).1.store position = p.2.address? s.store position ∧
        p.2.valueAt? (s.step c names).1.store position =
          if p.2.address? s.store position = some a then some x
          else p.2.valueAt? s.store position
  /-- Setting an entry of a view writes it, unless the command is refused. -/
  set : ∀ of i x names answer, (s.step (.nestedSet of i x) names).2 = .ok answer →
    ∃ a, s.Writes (.nestedSet of i x) a x
  /-- What a command offers is taken over where an origin is told, and new everywhere else. -/
  origin : ∀ c o t, (s.outcome c).run s.store = .ok o t →
    List.Forall₂ (fun origins h => Store.Stem s.store t origins h.storages) (s.origins c) o.offers
  /-- A snapshot has the values that the functions had when it was taken, in every later state. -/
  snapshot : ∀ of b name later, s.handles.lookup of = some (.blockFunction b) →
    (∀ call ∈ later, name ∉ call.names) →
    ∃ h, (((s.step (.snapshot of) [name]).1).run later).handles.lookup name = some h ∧
      h.contents (((s.step (.snapshot of) [name]).1).run later).store =
        (Handle.blockFunction b).contents s.store
  /-- Nothing that is written into a block vector put into new storage, now or later, reaches what
  was there before. -/
  toNested : ∀ of view answer n later c names,
    (s.step (.blockVectorToNested of) [view]).2 = .ok answer →
    (s.step (.blockVectorToNested of) [view]).1.handles.lookup view = some (.nested n) →
    let t := (s.step (.blockVectorToNested of) [view]).1.run later
    t.written c ⊆ n.components → ∀ p ∈ s.handles,
      p.2.contents (t.step c names).1.store = p.2.contents t.store

section Sharing
variable [FunctionSpace S] [BEq S] [Zero α] [One α] [Add α] [Mul α] [Neg α] [BEq α]

theorem sharesExactly (hs : s.Valid) : s.SharesExactly where
  entry p hp href position := (hs p hp).valueAt?_eq href position
  get p hp n hn index := by
    have hfits := (hs p hp).fits
    rw [hn] at hfits ⊢
    exact (NestedVector.Fits.getElem?_toFlat hfits index).symm
  write c a x h names := by
    rw [h.step_eq]
    refine ⟨rfl, rfl, fun p hp position => ⟨?_, ?_⟩⟩
    · rw [Handle.address?, Handle.view_setEntry, Handle.address?]
    · exact (hs p hp).valueAt?_setEntry (h.inside hs) x position
  set of i x names answer h := writes_of_nestedSet h
  origin c o t h := by
    have hleaves := leaves_outcome hs c
    rw [h] at hleaves
    cases hleaves with
    | ok kept made => exact made.imp fun _ _ hmade => hmade.stem
  snapshot of b name later hof hname := by
    refine ⟨.blockVector (b.blockVector s.store), ?_, ?_⟩
    · rw [lookup_run hname, step_snapshot hof, lookup_bind_self]
    · rw [(hs.intact hof).contents_eq trivial]
      exact BlockFunction.flatten_blockVector s.store b
  toNested := by
    intro of view answer n later c names hanswer hview t hwritten p hp
    obtain ⟨hu, hsu⟩ := valid_step hs (.blockVectorToNested of) [view]
    obtain ⟨ht, written, hut⟩ := valid_run hu later
    have hintact : p.2.Intact t.store := ((hs p hp).kept hsu).kept hut
    refine hintact.contents_kept (valid_step ht c names).2 fun v hv hmem => ?_
    exact not_holds_of_toNested hs hanswer hview v (hwritten hmem) ((hs p hp).held v hv)

/-- In every state that a session can reach, a written entry shows at exactly its aliases, and
handles share storage exactly as the commands that made them say. -/
theorem run_sharesExactly (calls : List (Call S α)) :
    ((empty : Session S α).run calls).SharesExactly :=
  sharesExactly (valid_run valid_empty calls).1

/-- A vector that stands twice in a view is written at both places at once. -/
theorem run_sharesExactly_repeated :
    let s := (empty : Session NamedSpace Int).run
      [⟨.shared [1, 2], ["v"]⟩, ⟨.shared [3], ["w"]⟩, ⟨.nested ["v", "w", "v"], ["n"]⟩]
    let t := (s.step (.nestedSet "n" 1 7) []).1
    let h : Handle NamedSpace Int := .nested ⟨[⟨0⟩, ⟨1⟩, ⟨0⟩], [0, 2, 3, 5]⟩
    ("n", h) ∈ s.handles ∧ h.valueAt? t.store 1 = some 7 ∧ h.valueAt? t.store 4 = some 7 ∧
      h.valueAt? t.store 2 = h.valueAt? s.store 2 := by
  intro s t h
  have hmem : ("n", h) ∈ s.handles := .head _
  have hwrites : s.Writes (.nestedSet "n" 1 7) (⟨0⟩, 1) 7 := .view rfl rfl
  obtain ⟨_, _, hentries⟩ := (run_sharesExactly _).write _ _ _ hwrites []
  exact ⟨hmem, (hentries _ hmem 1).2, (hentries _ hmem 4).2, (hentries _ hmem 2).2⟩

end Sharing

end Session
end BlockSparse
