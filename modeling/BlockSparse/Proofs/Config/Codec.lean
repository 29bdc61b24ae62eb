import BlockSparse.Config.Codec
import BlockSparse.Proofs.Config.Reader
import BlockSparse.Proofs.Traversal

/-! Values as configuration text. The natural numbers of a configuration have one spelling each. A
codec is faithful when it reads what it writes, and this comes down to its values as JSON: shapes
and strategies are written as they are read. -/
namespace BlockSparse
namespace Json
variable {j : Json} {n : Nat} {ns : List Nat}

section Naturals

/-- A number below the bound is read from its numeral and from nothing else. -/
lemma natural?_eq_some_iff (h : j.WellFormed) :
    j.natural? = some n ↔ j = ofNatural n ∧ n < naturalBound := by
  constructor
  · intro hn
    cases h with
    | number hliteral =>
      rw [natural?] at hn
      split at hn
      · rename_i hdigits
        cases hn
        have heq := eq_toDigits hliteral (List.all_eq_true.1 hdigits.1)
        exact ⟨congrArg number heq, hdigits.2⟩
      · cases hn
    | _ => cases hn
  · rintro ⟨rfl, hn⟩
    exact natural?_ofNatural hn

/-- Likewise lists of numbers. -/
lemma naturals?_eq_some_iff (h : j.WellFormed) :
    j.naturals? = some ns ↔ j = ofNaturals ns ∧ ∀ n ∈ ns, n < naturalBound := by
  cases h with
  | @array items h =>
    rw [naturals?, Traversal.mapM_eq_some_iff, ofNaturals, array.injEq]
    induction items generalizing ns with
    | nil => cases ns <;> simp
    | cons item items ih =>
      rw [List.forall_mem_cons] at h
      cases ns with
      | nil => simp
      | cons n ns =>
        rw [List.forall₂_cons, natural?_eq_some_iff h.1, ih h.2]
        simp only [List.map_cons, List.cons.injEq, List.forall_mem_cons]
        tauto
  | _ => exact iff_of_false (fun h => by cases h) (fun h => by cases h.1)

lemma wellFormed_ofNatural (n : Nat) : (ofNatural n).WellFormed :=
  .number (numberLiteral_toDigits n)

lemma wellFormed_ofNaturals (ns : List Nat) : (ofNaturals ns).WellFormed :=
  .array (List.forall_mem_map.2 fun n _ => wellFormed_ofNatural n)

lemma naturals?_ofNaturals (h : ∀ n ∈ ns, n < naturalBound) :
    (ofNaturals ns).naturals? = some ns :=
  (naturals?_eq_some_iff (wellFormed_ofNaturals ns)).2 ⟨rfl, h⟩

end Naturals

end Json

namespace Codec
variable {τ : Type} {c : Codec τ} {InRange : τ → Prop} {text : List Char} {x : τ}

/-- A codec that loses nothing. What it writes is compact, and it reads it back; whatever it reads
lies in the range, so that it can be written and read again; behind the value only blanks may
stand. -/
structure Faithful (c : Codec τ) (InRange : τ → Prop) : Prop where
  compact : ∀ x, c.write x = (c.encode x).tokens.flatten
  read_write : ∀ x, InRange x → c.read? (c.write x) = some x
  inRange_of_read : ∀ text x, c.read? text = some x → InRange x
  read_write_of_read : ∀ text x, c.read? text = some x → c.read? (c.write x) = some x
  read_append : ∀ text j more, Json.Spells text j → ¬ Json.Blank more →
    c.read? (text ++ more) = none

lemma read?_eq_some_iff : c.read? text = some x ↔ ∃ j, Json.Spells text j ∧ c.decode? j = some x :=
  Option.bind_eq_some_iff.trans (exists_congr fun _ => and_congr_left' Json.ofText?_eq_some_iff)

lemma read?_of_spells {j : Json} (h : Json.Spells text j) : c.read? text = c.decode? j := by
  rw [read?, Json.ofText?_eq_some_iff.2 h, Option.bind_some]

/-- A codec is faithful when its JSON values are: what it encodes is well-formed and decodes, and
what it decodes is in range and no number. -/
theorem Faithful.of_decode (hwf : ∀ x, (c.encode x).WellFormed)
    (hdecode : ∀ x, InRange x → c.decode? (c.encode x) = some x)
    (hrange : ∀ j x, j.WellFormed → c.decode? j = some x → InRange x)
    (hnumber : ∀ literal, c.decode? (.number literal) = none) : c.Faithful InRange := by
  have hread : ∀ x, InRange x → c.read? (c.write x) = some x := fun x hx =>
    (read?_of_spells (Json.spells_text (hwf x))).trans (hdecode x hx)
  have hinrange : ∀ text x, c.read? text = some x → InRange x := by
    intro text x h
    obtain ⟨j, hj, hdecode⟩ := read?_eq_some_iff.1 h
    exact hrange j x hj.1 hdecode
  refine ⟨fun x => Json.text_eq_flatten _, hread, hinrange,
    fun text x h => hread x (hinrange text x h), ?_⟩
  intro text j more hspells hmore
  rcases hspells.append_eq_none_or hmore with h | ⟨literal, h⟩
  · rw [read?, h, Option.bind_none]
  · rw [read?, h, Option.bind_some, hnumber]

end Codec

namespace Config
variable {j : Json}

section Shapes

/-- The dimensions lie below the bound. -/
def ShapeInRange : Shape → Prop
  | .vector n => n < Json.naturalBound
  | .matrix r c => r < Json.naturalBound ∧ c < Json.naturalBound

lemma wellFormed_of_tagged? {t : List Char × Json} (h : j.WellFormed) (ht : tagged? j = some t) :
    t.2.WellFormed := by
  cases h with
  | @object fields _ hvalue =>
    unfold tagged? at ht
    split at ht
    · rename_i name content heq
      cases heq
      obtain ⟨_, _, rfl⟩ := Option.map_eq_some_iff.1 ht
      exact hvalue (name, content) List.mem_cons_self
    · cases ht
  | _ => cases ht

lemma shapeInRange_of_decode {s : Shape} (h : j.WellFormed) (hs : decodeShape j = some s) :
    ShapeInRange s := by
  obtain ⟨⟨tag, content⟩, htag, hs⟩ := Option.bind_eq_some_iff.1 hs
  have hcontent := wellFormed_of_tagged? h htag
  simp only at hs
  split at hs
  · obtain ⟨n, hn, heq⟩ := Option.bind_eq_some_iff.1 hs
    cases heq
    exact ((Json.natural?_eq_some_iff hcontent).1 hn).2
  · split at hs
    · obtain ⟨ns, hns, hs⟩ := Option.bind_eq_some_iff.1 hs
      have hrange := ((Json.naturals?_eq_some_iff hcontent).1 hns).2
      split at hs
      · cases hs
        simpa [ShapeInRange] using hrange
      · cases hs
    · cases hs

lemma stringLiteral_vectorTag : Json.StringLiteral vectorTag :=
  Json.stringLiteral_of_plain (by simp [vectorTag])

lemma stringLiteral_matrixTag : Json.StringLiteral matrixTag :=
  Json.stringLiteral_of_plain (by simp [matrixTag])

lemma tagged?_vectorTag (content : Json) :
    tagged? (.object [(vectorTag, content)]) = some (vectorTag, content) := rfl

lemma tagged?_matrixTag (content : Json) :
    tagged? (.object [(matrixTag, content)]) = some (matrixTag, content) := rfl

lemma matrixTag_ne_vectorTag : matrixTag ≠ vectorTag := by decide

/-- Shapes are read as they are written. -/
theorem faithful_shapes : shapes.Faithful ShapeInRange := by
  refine .of_decode ?_ ?_ (fun j s => shapeInRange_of_decode) (fun _ => rfl)
  · intro s
    cases s with
    | vector n =>
      exact .object (by simpa using stringLiteral_vectorTag)
        (by simpa using Json.wellFormed_ofNatural n)
    | matrix r c =>
      exact .object (by simpa using stringLiteral_matrixTag)
        (by simpa using Json.wellFormed_ofNaturals [r, c])
  · intro s hs
    cases s with
    | vector n =>
      change decodeShape (.object [(vectorTag, _)]) = _
      rw [decodeShape, tagged?_vectorTag, Option.bind_eq_bind, Option.bind_some]
      simp [Json.natural?_ofNatural hs]
    | matrix r c =>
      have hrc : (Json.ofNaturals [r, c]).naturals? = some [r, c] :=
        Json.naturals?_ofNaturals (by simpa [ShapeInRange] using hs)
      change decodeShape (.object [(matrixTag, _)]) = _
      rw [decodeShape, tagged?_matrixTag, Option.bind_eq_bind, Option.bind_some]
      simp [matrixTag_ne_vectorTag, hrc]

end Shapes

section Strategies

/-- Strategies are read as they are written. -/
theorem faithful_strategies : strategies.Faithful fun _ => True := by
  refine .of_decode ?_ ?_ (fun _ _ _ _ => trivial) (fun _ => rfl)
  · intro s
    cases s <;> exact .string (Json.stringLiteral_of_plain (by simp [Strategy.name]))
  · intro s _
    have hname : Json.unescape s.name.toList = some s.name.toList := by cases s <;> decide
    change (Json.unescape s.name.toList).bind
      (fun name => Strategy.ofName? (String.ofList name)) = _
    rw [hname, Option.bind_some, String.ofList_toList, Strategy.ofName?_name]

end Strategies

end Config
end BlockSparse
