import BlockSparse.Proofs.Storage.NestedVector
import BlockSparse.Storage.BlockFunction

/-! The storage of functions. A function that is made has one coefficient for each dimension of its
space. Its coefficients are shared with the source that was given for it, or new if the source was
zero or plain values. -/
namespace BlockSparse
variable {S α : Type} [FunctionSpace S] {s t : Store α} {written : List SharedVector}

/-- A function has one coefficient for each dimension of its space. -/
def SpaceFunction.Fits (t : Store α) (f : SpaceFunction S) : Prop :=
  t.length f.coefficients = FunctionSpace.dim f.space

/-- The storage that a source shares with the function made of it. -/
def ComponentSource.origin : ComponentSource S α → Option SharedVector
  | function f => some f.coefficients
  | vector v => some v
  | values _ => none

lemma SpaceFunction.Fits.kept {f : SpaceFunction S} (h : f.Fits s) (hheld : s.Holds f.coefficients)
    (hkept : Store.KeptBut written s t) : f.Fits t :=
  (hkept.length hheld).trans h

/-- A zero function has new coefficients, as many as its space has dimensions. -/
lemma SpaceFunction.zeros_spec [Zero α] (s : Store α) (space : S) :
    Store.KeptBut [] s (zeros s space).1 ∧
      Store.Stem s (zeros s space).1 [none] [(zeros s space).2.coefficients] ∧
      (zeros s space).2.Fits (zeros s space).1 := by
  refine ⟨.alloc s _, .alloc s _, ?_⟩
  simp [SpaceFunction.Fits, zeros, Store.length, Store.read_alloc_new]

namespace BlockFunction
section Get
variable {b : BlockFunction S} {f : SpaceFunction S} {index : Nat}

omit [FunctionSpace S] in
lemma get_eq_ok_iff : b.get index = .ok f ↔ b.functions[index]? = some f := by
  cases hf : b.functions[index]? <;> simp [get, hf]

omit [FunctionSpace S] in
lemma leaves_get (b : BlockFunction S) (index : Nat) (s : Store α) :
    Store.Leaves [] s (fun f t => b.functions[index]? = some f ∧ t = s)
      ((MonadExcept.ofExcept (b.get index) : EStateM Error (Store α) _).run s) :=
  .lookup fun _ hf => ⟨get_eq_ok_iff.1 hf, rfl⟩

end Get

/-- Zero functions have new coefficients, as many as their spaces have dimensions. -/
lemma zeros_spec [Zero α] (s : Store α) (spaces : List S) :
    Store.KeptBut [] s (zeros s spaces).1 ∧
      Store.Stem s (zeros s spaces).1 (spaces.map fun _ => none) (zeros s spaces).2.vectors ∧
      ∀ f ∈ (zeros s spaces).2.functions, f.Fits (zeros s spaces).1 := by
  induction spaces generalizing s with
  | nil => exact ⟨.refl [] s, .nil, fun f hf => absurd hf List.not_mem_nil⟩
  | cons space spaces ih =>
    obtain ⟨hkept, hnew, hfirst⟩ := SpaceFunction.zeros_spec s space
    obtain ⟨hrest, hstem, hfits⟩ := ih (SpaceFunction.zeros s space).1
    have hheld := hnew.holds hkept (by simp) _ List.mem_cons_self
    refine ⟨hkept.trans hrest, hstem.cons_alloc hrest (by simp), fun f hf => ?_⟩
    rcases List.mem_cons.1 hf with rfl | hf
    · exact hfirst.kept hheld hrest
    · exact hfits f hf

section Supply
variable [BEq S]

omit [FunctionSpace S] in
/-- A source supplies the storage that it shares, or else storage that is new. -/
lemma leaves_supply (index : Nat) (space : S) (source : ComponentSource S α) (s : Store α) :
    Store.Leaves [] s (fun v t => source.origin = some v ∧ t = s ∨
      source.origin = none ∧ ∃ values, (t, v) = s.alloc values)
      ((source.supply index space).run s) := by
  cases source with
  | function f =>
    by_cases hspace : f.space == space
    · simp only [ComponentSource.supply, if_pos hspace]
      exact .pure (.inl ⟨rfl, rfl⟩)
    · simp only [ComponentSource.supply, if_neg hspace]
      exact .error (.refl [] s)
  | vector v => exact .pure (.inl ⟨rfl, rfl⟩)
  | values x => exact .ok (.alloc s x) (.inr ⟨rfl, x, rfl⟩)

end Supply

lemma leaves_ofCoefficients (space : S) (v : SharedVector) (s : Store α) :
    Store.Leaves [] s (fun f t => t = s ∧ f.coefficients = v ∧ f.Fits s)
      ((SpaceFunction.ofCoefficients space v).run s) := by
  refine .get ?_
  by_cases hlength : s.length v = FunctionSpace.dim space
  · rw [if_pos hlength]
    exact .pure ⟨rfl, rfl, hlength⟩
  · rw [if_neg hlength]
    exact .error (.refl [] s)

section Components
variable [BEq S]

/-- Functions made of sources share what the sources share. -/
lemma leaves_attach (index : Nat) (pairs : List (S × ComponentSource S α)) (s : Store α)
    (hheld : ∀ v, some v ∈ pairs.map (·.2.origin) → s.Holds v) :
    Store.Leaves [] s (fun fs t =>
      Store.Stem s t (pairs.map (·.2.origin)) (fs.map SpaceFunction.coefficients) ∧
        ∀ f ∈ fs, f.Fits t) ((attach index pairs).run s) := by
  induction pairs generalizing index s with
  | nil => exact .pure ⟨.nil, fun f hf => absurd hf List.not_mem_nil⟩
  | cons pair pairs ih =>
    refine .bind (leaves_supply index pair.1 pair.2 s) fun v t hst hv => ?_
    refine .bind (.adaptExcept (leaves_ofCoefficients pair.1 v t)) fun f t' _ hf => ?_
    obtain ⟨rfl, rfl, hfits⟩ := hf
    have hrest := ih (index + 1) t' fun w hw => hst.holds (hheld w (List.mem_cons_of_mem _ hw))
    refine .map hrest fun fs u htu hfs => ?_
    obtain ⟨hstem, hall⟩ := hfs
    rw [List.map_cons, List.map_cons]
    rcases hv with ⟨horigin, rfl⟩ | ⟨horigin, values, hnew⟩
    · have hcoefficients : t'.Holds f.coefficients := hheld _ (by simp [horigin])
      rw [horigin]
      exact ⟨.shared hstem, List.forall_mem_cons.2 ⟨hfits.kept hcoefficients htu, hall⟩⟩
    · obtain ⟨rfl, hv⟩ := Prod.mk.inj hnew
      have hcoefficients : (s.alloc values).1.Holds f.coefficients := by
        rw [hv]
        simp [Store.Holds, Store.alloc]
      rw [horigin, hv]
      exact ⟨hstem.cons_alloc htu fun w hw => hheld w (List.mem_cons_of_mem _ hw),
        List.forall_mem_cons.2 ⟨hfits.kept hcoefficients htu, hall⟩⟩

lemma leaves_ofComponents (spaces : List S) (sources : List (ComponentSource S α)) (s : Store α)
    (hheld : ∀ v, some v ∈ sources.map ComponentSource.origin → s.Holds v) :
    Store.Leaves [] s (fun b t =>
      Store.Stem s t (sources.map ComponentSource.origin) b.vectors ∧ ∀ f ∈ b.functions, f.Fits t)
      ((ofComponents spaces sources).run s) := by
  by_cases hcount : spaces.length = sources.length
  · have horigins : (spaces.zip sources).map (·.2.origin) =
        sources.map ComponentSource.origin := by
      have hsources := List.map_snd_zip (Nat.le_of_eq hcount.symm)
      exact List.map_map.symm.trans (congrArg (List.map ComponentSource.origin) hsources)
    have hattach := leaves_attach 0 (spaces.zip sources) s (by rwa [horigins])
    rw [horigins] at hattach
    simp only [ofComponents, if_pos hcount]
    exact .map hattach fun fs t _ hfs => hfs
  · simp only [ofComponents, if_neg hcount]
    exact .error (.refl [] s)

end Components

end BlockFunction
end BlockSparse
