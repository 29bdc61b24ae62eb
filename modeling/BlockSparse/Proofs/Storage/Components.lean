import BlockSparse.Proofs.Storage.Session
import Mathlib.Algebra.Ring.Int.Defs

/-! Block functions made of given data. Each space is paired with the source at its place. The first
source that does not suit its space is what the failure is about, and then nothing that was in
storage has changed; if all of them do, the functions share the storage of their sources or hold the
values that were given. -/
namespace BlockSparse
variable {S α : Type} [FunctionSpace S]

namespace ComponentSource
variable {s t : Store α} {written : List SharedVector} {source : ComponentSource S α}

omit [FunctionSpace S] in
/-- The coefficients that a source supplies. -/
def coefficients (s : Store α) : ComponentSource S α → List α
  | function f => s.read f.coefficients
  | vector v => s.read v
  | values x => x

/-- What a source refers to is in storage, and a function has as many coefficients as its space has
dimensions. -/
def Usable (s : Store α) : ComponentSource S α → Prop
  | function f => s.Holds f.coefficients ∧ f.Fits s
  | vector v => s.Holds v
  | values _ => True

lemma Usable.kept (h : source.Usable s) (hkept : Store.KeptBut written s t) : source.Usable t := by
  cases source with
  | function f => exact ⟨hkept.holds h.1, h.2.kept h.1 hkept⟩
  | vector v => exact hkept.holds h
  | values x => trivial

end ComponentSource

namespace BlockFunction
variable {s t u : Store α} {index : Nat} {space : S} {source : ComponentSource S α}
  {v : SharedVector} {e : Error} {f : SpaceFunction S} {pair : S × ComponentSource S α}
  {pairs rest : List (S × ComponentSource S α)}

/-- A source does not suit a space: it is a function of another one, or it has not as many
coefficients as the space has dimensions. The error names the index of the component. -/
inductive Unfit [BEq S] (s : Store α) (index : Nat) : S × ComponentSource S α → Error → Prop
  | space {space : S} {f : SpaceFunction S} (foreign : (f.space == space) = false) :
    Unfit s index (space, .function f) (.foreignComponent index)
  | vector {space : S} {v : SharedVector} (length : s.length v ≠ FunctionSpace.dim space) :
    Unfit s index (space, .vector v)
      (.componentLength index (FunctionSpace.dim space) (s.length v))
  | values {space : S} {x : List α} (length : x.length ≠ FunctionSpace.dim space) :
    Unfit s index (space, .values x) (.componentLength index (FunctionSpace.dim space) x.length)

omit [FunctionSpace S] in
/-- A function in the space with the coefficients of the source. Those of a function or a vector are
shared, and values get storage of their own. -/
inductive MadeOf (s t : Store α) : S × ComponentSource S α → SpaceFunction S → Prop
  | function {space : S} {f : SpaceFunction S} :
    MadeOf s t (space, .function f) ⟨space, f.coefficients⟩
  | vector {space : S} {v : SharedVector} : MadeOf s t (space, .vector v) ⟨space, v⟩
  | values {space : S} {x : List α} {v : SharedVector} (new : ¬ s.Holds v) (held : t.Holds v)
    (holds : t.read v = x) : MadeOf s t (space, .values x) ⟨space, v⟩

section Fitting
variable [BEq S]

lemma Unfit.unique {e' : Error} (h : Unfit s index pair e) (h' : Unfit s index pair e') :
    e = e' := by
  cases h <;> cases h' <;> rfl

lemma Unfit.transfer (h : Unfit s index pair e)
    (hlength : ∀ v, pair.2 = .vector v → t.length v = s.length v) : Unfit t index pair e := by
  cases h with
  | space foreign => exact .space foreign
  | vector length =>
    rw [← hlength _ rfl] at length ⊢
    exact .vector length
  | values length => exact .values length

/-- Whether a source suits a space does not depend on what else is put into storage. -/
lemma unfit_kept_iff (hpair : pair.2.Usable s) (hkept : Store.KeptBut [] s t) :
    Unfit t index pair e ↔ Unfit s index pair e := by
  have hlength : ∀ v, pair.2 = .vector v → t.length v = s.length v := by
    intro v hv
    rw [hv] at hpair
    exact hkept.length hpair
  exact ⟨fun h => h.transfer fun v hv => (hlength v hv).symm, fun h => h.transfer hlength⟩

end Fitting

section Making

omit [FunctionSpace S] in
lemma MadeOf.space_eq (h : MadeOf s t pair f) : f.space = pair.1 := by
  cases h <;> rfl

omit [FunctionSpace S] in
/-- A function stays made of its source when more is put into storage. -/
lemma MadeOf.kept (h : MadeOf s t pair f) (hkept : Store.KeptBut [] t u) : MadeOf s u pair f := by
  cases h with
  | function => exact .function
  | vector => exact .vector
  | values new held holds =>
    exact .values new (hkept.holds held) ((hkept.read held List.not_mem_nil).trans holds)

omit [FunctionSpace S] in
/-- What is new to a later storage is new to an earlier one. -/
lemma MadeOf.earlier (h : MadeOf t u pair f) (hkept : Store.KeptBut [] s t) :
    MadeOf s u pair f := by
  cases h with
  | function => exact .function
  | vector => exact .vector
  | values new held holds => exact .values (fun hv => new (hkept.holds hv)) held holds

/-- A function has the coefficients that its source supplied. -/
lemma MadeOf.read_eq (h : MadeOf s t pair f) (hpair : pair.2.Usable s)
    (hkept : Store.KeptBut [] s t) : t.read f.coefficients = pair.2.coefficients s := by
  cases h with
  | function => exact hkept.read hpair.1 List.not_mem_nil
  | vector => exact hkept.read hpair List.not_mem_nil
  | values new held holds => exact holds

end Making

section Attaching

lemma run_ofCoefficients (h : s.length v = FunctionSpace.dim space) :
    (SpaceFunction.ofCoefficients space v).run s = .ok ⟨space, v⟩ s := by
  change EStateM.run (if s.length v = _ then _ else _) s = _
  rw [if_pos h]
  rfl

lemma run_ofCoefficients_of_ne (h : s.length v ≠ FunctionSpace.dim space) :
    (SpaceFunction.ofCoefficients space v).run s =
      .error (.componentLength 0 (FunctionSpace.dim space) (s.length v)) s := by
  change EStateM.run (if s.length v = _ then _ else _) s = _
  rw [if_neg h]
  rfl

variable [BEq S]

/-- The first function is made, and then the others. -/
lemma run_attach_of_supply (hv : (source.supply index space).run s = .ok v t)
    (hlength : t.length v = FunctionSpace.dim space) :
    (attach index ((space, source) :: rest)).run s =
      (attach (index + 1) rest >>= fun fs => pure (⟨space, v⟩ :: fs)).run t := by
  rw [attach, Store.run_bind_of_ok hv,
    Store.run_bind_of_ok (Store.run_adaptExcept_of_ok (run_ofCoefficients hlength))]

/-- The length of the coefficients is wrong, and the index is that of the component. -/
lemma run_attach_of_length (hv : (source.supply index space).run s = .ok v t)
    (hlength : t.length v ≠ FunctionSpace.dim space) :
    (attach index ((space, source) :: rest)).run s =
      .error (.componentLength index (FunctionSpace.dim space) (t.length v)) t := by
  rw [attach, Store.run_bind_of_ok hv, Store.run_bind_of_error
    (Store.run_adaptExcept_of_error (run_ofCoefficients_of_ne hlength))]
  rfl

lemma run_attach_of_unfit (h : Unfit s index (space, source) e)
    (rest : List (S × ComponentSource S α)) :
    ∃ t, (attach index ((space, source) :: rest)).run s = .error e t ∧
      Store.KeptBut [] s t := by
  cases h with
  | @space _ f foreign =>
    have hsupply : (ComponentSource.supply (α := α) index space (.function f)).run s =
        .error (.foreignComponent index) s := by
      simp only [ComponentSource.supply, foreign]
      rfl
    exact ⟨s, by rw [attach, Store.run_bind_of_error hsupply], .refl [] s⟩
  | vector length => exact ⟨s, run_attach_of_length rfl length, .refl [] s⟩
  | @values _ x length =>
    have hlength : (s.alloc x).1.length (s.alloc x).2 = x.length :=
      congrArg List.length (s.read_alloc_new x)
    rw [← hlength] at length ⊢
    exact ⟨(s.alloc x).1, run_attach_of_length rfl length, .alloc s x⟩

lemma run_attach_of_fit (hdim : ∀ a b : S, (a == b) = true →
      FunctionSpace.dim a = FunctionSpace.dim b) (husable : source.Usable s)
    (h : ∀ e, ¬ Unfit s index (space, source) e) (rest : List (S × ComponentSource S α)) :
    ∃ f t, (attach index ((space, source) :: rest)).run s =
        (attach (index + 1) rest >>= fun fs => pure (f :: fs)).run t ∧
      MadeOf s t (space, source) f ∧ Store.KeptBut [] s t := by
  cases source with
  | function f =>
    have hspace : (f.space == space) = true := by
      by_contra hforeign
      exact h _ (.space (Bool.eq_false_of_not_eq_true hforeign))
    have hsupply : (ComponentSource.supply (α := α) index space (.function f)).run s =
        .ok f.coefficients s := by
      simp only [ComponentSource.supply, hspace]
      rfl
    exact ⟨_, s, run_attach_of_supply hsupply (husable.2.trans (hdim _ _ hspace)), .function,
      .refl [] s⟩
  | vector v =>
    have hlength : s.length v = FunctionSpace.dim space := by
      by_contra hne
      exact h _ (.vector hne)
    exact ⟨_, s, run_attach_of_supply rfl hlength, .vector, .refl [] s⟩
  | values x =>
    have hlength : (s.alloc x).1.length (s.alloc x).2 = FunctionSpace.dim space := by
      by_contra hne
      rw [Store.length, s.read_alloc_new x] at hne
      exact h _ (.values hne)
    refine ⟨_, (s.alloc x).1, run_attach_of_supply rfl hlength, .values (Nat.lt_irrefl _) ?_
      (s.read_alloc_new x), .alloc s x⟩
    simp [Store.Holds, Store.alloc]

/-- How functions are made of pairs of a space and a source, the first of them having the given
index: up to the first source that does not suit its space, or all of them. -/
inductive Attached (s : Store α) (index : Nat) (pairs : List (S × ComponentSource S α)) :
    EStateM.Result Error (Store α) (List (SpaceFunction S)) → Prop
  | stopped {e : Error} {t : Store α}
    (first : First (fun p e => Unfit s p.2 p.1 e) (pairs.zipIdx index) e)
    (kept : Store.KeptBut [] s t) : Attached s index pairs (.error e t)
  | made {fs : List (SpaceFunction S)} {t : Store α}
    (fit : ∀ p ∈ pairs.zipIdx index, ∀ e, ¬ Unfit s p.2 p.1 e)
    (functions : List.Forall₂ (MadeOf s t) pairs fs) (kept : Store.KeptBut [] s t) :
    Attached s index pairs (.ok fs t)

theorem attached (hdim : ∀ a b : S, (a == b) = true → FunctionSpace.dim a = FunctionSpace.dim b)
    (husable : ∀ p ∈ pairs, p.2.Usable s) (index : Nat) :
    Attached s index pairs ((attach index pairs).run s) := by
  induction pairs generalizing s index with
  | nil => exact .made (fun p hp => absurd hp List.not_mem_nil) .nil (.refl [] s)
  | cons pair pairs ih =>
    obtain ⟨space, source⟩ := pair
    obtain ⟨hfirst, hrest⟩ := List.forall_mem_cons.1 husable
    by_cases hunfit : ∃ e, Unfit s index (space, source) e
    · obtain ⟨e, he⟩ := hunfit
      obtain ⟨t, hrun, hkept⟩ := run_attach_of_unfit he pairs
      rw [hrun]
      exact .stopped (.here (x := ((space, source), index)) he) hkept
    · have hfit : ∀ e, ¬ Unfit s index (space, source) e := fun e he => hunfit ⟨e, he⟩
      obtain ⟨f, t, hrun, hmade, hst⟩ := run_attach_of_fit hdim hfirst hfit pairs
      have hsame : ∀ p ∈ pairs.zipIdx (index + 1), ∀ e,
          Unfit t p.2 p.1 e ↔ Unfit s p.2 p.1 e := fun p hp e =>
        unfit_kept_iff (hrest p.1 (List.fst_mem_of_mem_zipIdx hp)) hst
      have hlater := ih (fun p hp => (hrest p hp).kept hst) (index + 1)
      rw [hrun]
      cases hresult : (attach (index + 1) pairs).run t with
      | error e u =>
        rw [hresult] at hlater
        rw [Store.run_bind_of_error hresult]
        cases hlater with
        | stopped first kept =>
          refine .stopped ?_ (hst.trans kept)
          exact .later (x := ((space, source), index)) hfit ((First.congr hsame).1 first)
      | ok fs u =>
        rw [hresult] at hlater
        rw [Store.run_bind_of_ok hresult]
        cases hlater with
        | made fit functions kept =>
          refine .made (List.forall_mem_cons.2 ⟨hfit, fun p hp e he => ?_⟩) (.cons (hmade.kept kept)
            (functions.imp fun _ _ h => h.earlier hst)) (hst.trans kept)
          exact fit p hp e ((hsame p hp e).2 he)

end Attaching

omit [FunctionSpace S] in
lemma map_space {fs : List (SpaceFunction S)} (h : List.Forall₂ (MadeOf s t) pairs fs) :
    fs.map SpaceFunction.space = pairs.map Prod.fst := by
  induction h with
  | nil => rfl
  | cons hmade _ ih => rw [List.map_cons, List.map_cons, ih, hmade.space_eq]

/-- Functions that are made of their sources have the coefficients that these supplied. -/
lemma flatMap_read {fs : List (SpaceFunction S)} (h : List.Forall₂ (MadeOf s t) pairs fs)
    (husable : ∀ p ∈ pairs, p.2.Usable s) (hkept : Store.KeptBut [] s t) :
    (fs.map SpaceFunction.coefficients).flatMap t.read = pairs.flatMap (·.2.coefficients s) := by
  induction h with
  | nil => rfl
  | cons hmade _ ih =>
    obtain ⟨hfirst, hrest⟩ := List.forall_mem_cons.1 husable
    rw [List.map_cons, List.flatMap_cons, List.flatMap_cons, hmade.read_eq hfirst hkept, ih hrest]

section Building
variable [BEq S] {spaces : List S} {sources : List (ComponentSource S α)}
  {result : EStateM.Result Error (Store α) (BlockFunction S)}

/-- How a block function is made of one source for each space. -/
inductive Built (s : Store α) (spaces : List S) (sources : List (ComponentSource S α)) :
    EStateM.Result Error (Store α) (BlockFunction S) → Prop
  | miscounted (count : spaces.length ≠ sources.length) :
    Built s spaces sources (.error (.componentCount spaces.length sources.length) s)
  | stopped {e : Error} {t : Store α} (count : spaces.length = sources.length)
    (first : First (fun p e => Unfit s p.2 p.1 e) (spaces.zip sources).zipIdx e)
    (kept : Store.KeptBut [] s t) : Built s spaces sources (.error e t)
  | made {fs : List (SpaceFunction S)} {t : Store α} (count : spaces.length = sources.length)
    (fit : ∀ p ∈ (spaces.zip sources).zipIdx, ∀ e, ¬ Unfit s p.2 p.1 e)
    (functions : List.Forall₂ (MadeOf s t) (spaces.zip sources) fs)
    (kept : Store.KeptBut [] s t) : Built s spaces sources (.ok ⟨fs⟩ t)

theorem built (hdim : ∀ a b : S, (a == b) = true → FunctionSpace.dim a = FunctionSpace.dim b)
    (husable : ∀ source ∈ sources, source.Usable s) :
    Built s spaces sources ((ofComponents spaces sources).run s) := by
  by_cases hcount : spaces.length = sources.length
  · have hattached : Attached s 0 (spaces.zip sources) _ :=
      attached hdim (fun p hp => husable p.2 (List.of_mem_zip hp).2) 0
    have hrun : (ofComponents spaces sources).run s =
        (attach 0 (spaces.zip sources) >>= fun fs => pure (mk fs)).run s := by
      simp only [ofComponents, if_pos hcount]
      rfl
    rw [hrun]
    cases hresult : (attach 0 (spaces.zip sources)).run s with
    | error e t =>
      rw [hresult] at hattached
      rw [Store.run_bind_of_error hresult]
      cases hattached with
      | stopped first kept => exact .stopped hcount first kept
    | ok fs t =>
      rw [hresult] at hattached
      rw [Store.run_bind_of_ok hresult]
      cases hattached with
      | made fit functions kept => exact .made hcount fit functions kept
  · simp only [ofComponents, if_neg hcount]
    exact .miscounted hcount

namespace Built

lemma error_iff (h : Built s spaces sources result) (e : Error) :
    (∃ t, result = .error e t) ↔
      spaces.length ≠ sources.length ∧ e = .componentCount spaces.length sources.length ∨
      spaces.length = sources.length ∧
        First (fun p e => Unfit s p.2 p.1 e) (spaces.zip sources).zipIdx e := by
  constructor
  · rintro ⟨t, rfl⟩
    cases h with
    | miscounted count => exact .inl ⟨count, rfl⟩
    | stopped count first kept => exact .inr ⟨count, first⟩
  · rintro (⟨hcount, rfl⟩ | ⟨hcount, hfirst⟩)
    · cases h with
      | miscounted count => exact ⟨s, rfl⟩
      | stopped count first kept => exact absurd count hcount
      | made count fit functions kept => exact absurd count hcount
    · cases h with
      | miscounted count => exact absurd hcount count
      | @stopped e' t count first kept =>
        have he : e' = e := First.unique (fun _ _ _ h h' => h.unique h') first hfirst
        exact ⟨t, by rw [he]⟩
      | made count fit functions kept =>
        obtain ⟨p, hp, he⟩ := hfirst.mem
        exact absurd he (fit p hp e)

lemma kept_of_error (h : Built s spaces sources (.error e t)) : Store.KeptBut [] s t := by
  cases h with
  | miscounted count => exact .refl [] s
  | stopped count first kept => exact kept

end Built
end Building

section Sessions
variable [BEq S] [Zero α] [One α] [Add α] [Mul α] [Neg α] [BEq α]
  {calls : List (Session.Call S α)}

/-- A source made of handles of a session, or of plain values. -/
def Supplied (calls : List (Session.Call S α)) : ComponentSource S α → Prop
  | .function f => Session.Bound calls (.function f)
  | .vector v => Session.Bound calls (.vector v)
  | .values _ => True

lemma Supplied.usable (h : Supplied calls source) :
    source.Usable ((Session.empty : Session S α).run calls).store := by
  cases source with
  | function f =>
    obtain ⟨held, fits⟩ := Session.Bound.intact h
    exact ⟨held _ List.mem_cons_self, fits⟩
  | vector v => exact (Session.Bound.intact h).held v List.mem_cons_self
  | values x => trivial

/-- In every state of a session: functions are made of sources exactly if there is one source for
each space and each of them suits its space, and otherwise the first one that does not is reported.
A failure leaves all vectors as they were. The functions that are made live in the given spaces,
share the storage of the functions and vectors among their sources, and read as what the sources
supplied. -/
theorem ofComponents_outcome
    (hdim : ∀ a b : S, (a == b) = true → FunctionSpace.dim a = FunctionSpace.dim b)
    (spaces : List S) {sources : List (ComponentSource S α)}
    (hsupplied : ∀ source ∈ sources, Supplied calls source) :
    let s := ((Session.empty : Session S α).run calls).store
    (∀ e, (∃ t, (ofComponents spaces sources).run s = .error e t) ↔
      spaces.length ≠ sources.length ∧ e = .componentCount spaces.length sources.length ∨
      spaces.length = sources.length ∧
        First (fun p e => Unfit s p.2 p.1 e) (spaces.zip sources).zipIdx e) ∧
    (∀ e t, (ofComponents spaces sources).run s = .error e t →
      ∀ v, s.Holds v → t.Holds v ∧ t.read v = s.read v) ∧
    ∀ b t, (ofComponents spaces sources).run s = .ok b t →
      List.Forall₂ (MadeOf s t) (spaces.zip sources) b.functions ∧
      b.functions.map SpaceFunction.space = spaces ∧
      (b.vector t).toFlat t = sources.flatMap (·.coefficients s) ∧
      ∀ v, s.Holds v → t.Holds v ∧ t.read v = s.read v := by
  intro s
  have husable : ∀ source ∈ sources, source.Usable s := fun source hsource =>
    (hsupplied source hsource).usable
  have hbuilt : Built s spaces sources ((ofComponents spaces sources).run s) :=
    built hdim husable
  refine ⟨hbuilt.error_iff, fun e t hrun v hv => ?_, fun b t hrun => ?_⟩
  · rw [hrun] at hbuilt
    have hkept := hbuilt.kept_of_error
    exact ⟨hkept.holds hv, hkept.read hv List.not_mem_nil⟩
  · rw [hrun] at hbuilt
    cases hbuilt with
    | @made fs _ count fit functions kept =>
      have hfst : (spaces.zip sources).map Prod.fst = spaces :=
        List.map_fst_zip (Nat.le_of_eq count)
      have hsnd : (spaces.zip sources).map Prod.snd = sources :=
        List.map_snd_zip (Nat.le_of_eq count.symm)
      have hread := flatMap_read functions (fun p hp => husable p.2 (List.of_mem_zip hp).2) kept
      refine ⟨functions, (map_space functions).trans hfst, ?_,
        fun v hv => ⟨kept.holds hv, kept.read hv List.not_mem_nil⟩⟩
      rw [← hsnd, List.flatMap_map]
      exact (NestedVector.fits_ofComponents t _).toFlat_eq.trans hread

/-- Of two sources that do not suit their spaces the first one is reported, with its index. -/
theorem ofComponents_outcome_secondUnfit :
    let calls : List (Session.Call NamedSpace Int) := [⟨.functionZeros ⟨"u", 2⟩, ["f"]⟩]
    let f : SpaceFunction NamedSpace := ⟨⟨"u", 2⟩, ⟨0⟩⟩
    let sources : List (ComponentSource NamedSpace Int) :=
      [.function f, .values [4, 5], .function f]
    let s := ((Session.empty : Session NamedSpace Int).run calls).store
    (∀ source ∈ sources, Supplied calls source) ∧
      ∃ t, (ofComponents [⟨"u", 2⟩, ⟨"p", 1⟩, ⟨"q", 2⟩] sources).run s =
        .error (.componentLength 1 1 2) t := by
  intro calls f sources s
  have hbound : Session.Bound calls (.function f) := ⟨calls, [], "f", rfl, .head _⟩
  have hsupplied : ∀ source ∈ sources, Supplied calls source :=
    List.forall_mem_cons.2 ⟨hbound, List.forall_mem_cons.2
      ⟨trivial, List.forall_mem_singleton.2 hbound⟩⟩
  have hdim : ∀ a b : NamedSpace, (a == b) = true →
      FunctionSpace.dim a = FunctionSpace.dim b := fun a b h => by rw [eq_of_beq h]
  have houtcome := ofComponents_outcome hdim [⟨"u", 2⟩, ⟨"p", 1⟩, ⟨"q", 2⟩] hsupplied
  refine ⟨hsupplied, (houtcome.1 _).2 (.inr ⟨rfl, .later (fun d hd => ?_) (.here ?_)⟩)⟩
  · cases hd with
    | space foreign => exact absurd foreign (by decide)
  · exact .values (by decide)

end Sessions
end BlockFunction
end BlockSparse
