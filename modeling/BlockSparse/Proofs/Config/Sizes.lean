import BlockSparse.Proofs.Config.Codec

/-! Block sizes as configuration text. Their two lists are given under their names, in either order
and among other fields, or as the two items of an array, and this is all that is read: the texts of
block sizes are the texts of these values, with the numbers in range. -/
namespace BlockSparse.Config
open Json (ofNaturals naturalBound)
variable {j : Json} {fields named : List (List Char × Json)} {s : BlockSizes} {name : List Char}
  {content : Json}

section Fields

/-- Fields with the names for which their literals stand. -/
def Named (fields named : List (List Char × Json)) : Prop :=
  List.Forall₂ (fun f g => Json.unescape f.1 = some g.1 ∧ f.2 = g.2) fields named

/-- The content of a field is found when no other field has its name. -/
lemma field?_eq_some_iff : field? fields name = some content ↔
    ∃ others, fields.Perm ((name, content) :: others) ∧ ∀ f ∈ others, f.1 ≠ name := by
  have hfilter : field? fields name = some content ↔
      fields.filter (·.1 == name) = [(name, content)] := by
    unfold field?
    split
    · rename_i n c heq
      have hmem : (n, c) ∈ fields.filter (·.1 == name) := heq ▸ List.mem_cons_self
      have hn : n = name := by simpa using (List.mem_filter.1 hmem).2
      simp [heq, hn]
    · rename_i hne
      exact iff_of_false (fun h => by cases h) fun h => hne _ _ h
  rw [hfilter]
  constructor
  · intro h
    refine ⟨fields.filter fun f => !(f.1 == name), ?_, fun f hf => ?_⟩
    · have hperm := List.filter_append_perm (fun f : List Char × Json => f.1 == name) fields
      rw [h] at hperm
      exact hperm.symm
    · simpa using (List.mem_filter.1 hf).2
  · rintro ⟨others, hperm, hothers⟩
    have hnone : others.filter (·.1 == name) = [] :=
      List.filter_eq_nil_iff.2 fun f hf => by simpa using hothers f hf
    have hfiltered := hperm.filter (·.1 == name)
    rw [List.filter_cons_of_pos (by simp), hnone] at hfiltered
    exact List.perm_singleton.1 hfiltered

lemma field?_perm {fields' : List (List Char × Json)} (h : fields.Perm fields') :
    field? fields name = field? fields' name := by
  have hiff : ∀ content, field? fields name = some content ↔
      field? fields' name = some content := by
    intro content
    rw [field?_eq_some_iff, field?_eq_some_iff]
    exact exists_congr fun others => and_congr_left' ⟨h.symm.trans, h.trans⟩
  exact Option.ext hiff

lemma field?_cons_of_ne {f : List Char × Json} (h : f.1 ≠ name) :
    field? (f :: fields) name = field? fields name := by
  rw [field?, field?, List.filter_cons_of_neg (by simpa using h)]

end Fields

section Forms

/-- The sizes lie below the bound. -/
def SizesInRange (s : BlockSizes) : Prop :=
  (∀ n ∈ s.rowSizes, n < naturalBound) ∧ ∀ n ∈ s.colSizes, n < naturalBound

/-- The values that stand for block sizes: an object with the two lists under their names, in
either order and among any other fields, and an array of the two lists. -/
inductive SizesForm (s : BlockSizes) : Json → Prop
  | object {fields named others : List (List Char × Json)} (hnamed : Named fields named)
      (hperm : named.Perm ((rowSizesField, ofNaturals s.rowSizes) ::
        (colSizesField, ofNaturals s.colSizes) :: others))
      (hothers : ∀ f ∈ others, f.1 ≠ rowSizesField ∧ f.1 ≠ colSizesField) :
    SizesForm s (.object fields)
  | array : SizesForm s (.array [ofNaturals s.rowSizes, ofNaturals s.colSizes])

lemma rowSizesField_ne_colSizesField : rowSizesField ≠ colSizesField := by decide

/-- Both fields are found when the remaining ones have neither name. -/
lemma fields?_eq_some_iff {rows cols : Json} :
    field? named rowSizesField = some rows ∧ field? named colSizesField = some cols ↔
      ∃ others, named.Perm ((rowSizesField, rows) :: (colSizesField, cols) :: others) ∧
        ∀ f ∈ others, f.1 ≠ rowSizesField ∧ f.1 ≠ colSizesField := by
  constructor
  · rintro ⟨hrows, hcols⟩
    obtain ⟨behind, hperm, hbehind⟩ := field?_eq_some_iff.1 hrows
    rw [field?_perm hperm, field?_cons_of_ne rowSizesField_ne_colSizesField] at hcols
    obtain ⟨others, hperm', hothers⟩ := field?_eq_some_iff.1 hcols
    exact ⟨others, hperm.trans (hperm'.cons _), fun f hf =>
      ⟨hbehind f (hperm'.mem_iff.2 (List.mem_cons_of_mem _ hf)), hothers f hf⟩⟩
  · rintro ⟨others, hperm, hothers⟩
    rw [field?_eq_some_iff, field?_eq_some_iff]
    refine ⟨⟨_, hperm, ?_⟩, _, hperm.trans (.swap _ _ _), ?_⟩
    · exact List.forall_mem_cons.2
        ⟨rowSizesField_ne_colSizesField.symm, fun f hf => (hothers f hf).1⟩
    · exact List.forall_mem_cons.2 ⟨rowSizesField_ne_colSizesField, fun f hf => (hothers f hf).2⟩

lemma decodeSizes_object_eq_some_iff : decodeSizes (.object fields) = some s ↔
    ∃ named rows cols, Named fields named ∧
      (field? named rowSizesField = some rows ∧ field? named colSizesField = some cols) ∧
      rows.naturals? = some s.rowSizes ∧ cols.naturals? = some s.colSizes := by
  rw [decodeSizes]
  simp only [Option.bind_eq_bind, Option.bind_eq_some_iff, Option.pure_def, Option.some.injEq,
    Traversal.mapM_eq_some_iff]
  constructor
  · rintro ⟨named, hnamed, rows, hrows, rowSizes, hrowSizes, cols, hcols, colSizes, hcolSizes, rfl⟩
    refine ⟨named, rows, cols, hnamed.imp fun f g hfg => ?_, ⟨hrows, hcols⟩, hrowSizes, hcolSizes⟩
    obtain ⟨n, hn, rfl⟩ := Option.map_eq_some_iff.1 hfg
    exact ⟨hn, rfl⟩
  · rintro ⟨named, rows, cols, hnamed, ⟨hrows, hcols⟩, hrowSizes, hcolSizes⟩
    refine ⟨named, hnamed.imp fun f g hfg => ?_, rows, hrows, _, hrowSizes, cols, hcols, _,
      hcolSizes, rfl⟩
    exact Option.map_eq_some_iff.2 ⟨g.1, hfg.1, Prod.ext rfl hfg.2⟩

lemma decodeSizes_array_eq_some_iff {items : List Json} : decodeSizes (.array items) = some s ↔
    ∃ rows cols, items = [rows, cols] ∧ rows.naturals? = some s.rowSizes ∧
      cols.naturals? = some s.colSizes := by
  constructor
  · intro h
    rcases items with _ | ⟨rows, _ | ⟨cols, _ | ⟨next, items⟩⟩⟩
    · cases h
    · cases h
    · obtain ⟨rowSizes, hrows, h⟩ := Option.bind_eq_some_iff.1 h
      obtain ⟨colSizes, hcols, h⟩ := Option.bind_eq_some_iff.1 h
      cases h
      exact ⟨rows, cols, rfl, hrows, hcols⟩
    · cases h
  · rintro ⟨rows, cols, rfl, hrows, hcols⟩
    rw [decodeSizes, hrows, hcols]
    rfl

lemma Named.wellFormed (h : Named fields named) (hvalue : ∀ f ∈ fields, f.2.WellFormed) :
    ∀ f ∈ named, f.2.WellFormed := by
  induction h with
  | nil => exact hvalue
  | cons hf _ ih =>
    obtain ⟨hvalue, hvalues⟩ := List.forall_mem_cons.1 hvalue
    exact List.forall_mem_cons.2 ⟨hf.2 ▸ hvalue, ih hvalues⟩

/-- Block sizes are read from their forms, with the numbers in range, and from nothing else. -/
theorem decodeSizes_eq_some_iff (h : j.WellFormed) :
    decodeSizes j = some s ↔ SizesForm s j ∧ SizesInRange s := by
  cases h with
  | object hname hvalue =>
    rw [decodeSizes_object_eq_some_iff]
    constructor
    · rintro ⟨named, rows, cols, hnamed, hfields, hrows, hcols⟩
      have hwf := hnamed.wellFormed hvalue
      obtain ⟨others, hperm, hothers⟩ := fields?_eq_some_iff.1 hfields
      have hrowsmem : (rowSizesField, rows) ∈ named := hperm.mem_iff.2 (by simp)
      have hcolsmem : (colSizesField, cols) ∈ named := hperm.mem_iff.2 (by simp)
      obtain ⟨rfl, hrowRange⟩ := (Json.naturals?_eq_some_iff (hwf _ hrowsmem)).1 hrows
      obtain ⟨rfl, hcolRange⟩ := (Json.naturals?_eq_some_iff (hwf _ hcolsmem)).1 hcols
      exact ⟨.object hnamed hperm hothers, hrowRange, hcolRange⟩
    · rintro ⟨hform, hrows, hcols⟩
      cases hform with
      | object hnamed hperm hothers =>
        exact ⟨_, _, _, hnamed, fields?_eq_some_iff.2 ⟨_, hperm, hothers⟩,
          Json.naturals?_ofNaturals hrows, Json.naturals?_ofNaturals hcols⟩
  | @array items hitems =>
    rw [decodeSizes_array_eq_some_iff]
    constructor
    · rintro ⟨rows, cols, rfl, hrows, hcols⟩
      obtain ⟨rfl, hrowRange⟩ := (Json.naturals?_eq_some_iff (hitems rows (by simp))).1 hrows
      obtain ⟨rfl, hcolRange⟩ := (Json.naturals?_eq_some_iff (hitems cols (by simp))).1 hcols
      exact ⟨.array, hrowRange, hcolRange⟩
    · rintro ⟨hform, hrows, hcols⟩
      cases hform with
      | array =>
        exact ⟨_, _, rfl, Json.naturals?_ofNaturals hrows, Json.naturals?_ofNaturals hcols⟩
  | _ => exact iff_of_false (fun h => by cases h) (fun h => by cases h.1)

end Forms

section Faithful

/-- Block sizes are read as they are written. -/
theorem faithful_sizes : sizes.Faithful SizesInRange := by
  have hrow : Json.StringLiteral rowSizesField :=
    Json.stringLiteral_of_plain (by simp [rowSizesField])
  have hcol : Json.StringLiteral colSizesField :=
    Json.stringLiteral_of_plain (by simp [colSizesField])
  have hwf : ∀ s, (encodeSizes s).WellFormed := fun s => .object (by simpa using ⟨hrow, hcol⟩)
    (by simpa using ⟨Json.wellFormed_ofNaturals s.rowSizes, Json.wellFormed_ofNaturals s.colSizes⟩)
  refine .of_decode hwf (fun s hs => (decodeSizes_eq_some_iff (hwf s)).2 ⟨?_, hs⟩)
    (fun j s hj hs => ((decodeSizes_eq_some_iff hj).1 hs).2) (fun _ => rfl)
  exact .object (.cons ⟨rfl, rfl⟩ (.cons ⟨rfl, rfl⟩ .nil)) (.refl _) (by simp)

/-- The texts of block sizes are the texts of their forms. -/
theorem read?_sizes_eq_some_iff {text : List Char} : sizes.read? text = some s ↔
    ∃ j, Json.Spells text j ∧ SizesForm s j ∧ SizesInRange s :=
  Codec.read?_eq_some_iff.trans (exists_congr fun _ =>
    and_congr_right fun h => decodeSizes_eq_some_iff h.1)

end Faithful

section Faults

/-- The literals of numbers that are negative, have a fraction or an exponent, or are too large. -/
inductive NoNatural : List Char → Prop
  | negative (literal : List Char) : NoNatural ('-' :: literal)
  | fraction {literal : List Char} (h : '.' ∈ literal) : NoNatural literal
  | exponent {literal : List Char} (h : 'e' ∈ literal ∨ 'E' ∈ literal) : NoNatural literal
  | tooLarge {n : Nat} (h : naturalBound ≤ n) : NoNatural (Nat.toDigits 10 n)

lemma NoNatural.ne_toDigits {literal : List Char} {n : Nat} (h : NoNatural literal)
    (hn : n < naturalBound) : literal ≠ Nat.toDigits 10 n := by
  intro heq
  have hdigit : ∀ c ∈ literal, c.isDigit = true := fun c hc =>
    Nat.isDigit_of_mem_toDigits (by decide) (by decide) (heq ▸ hc)
  cases h with
  | negative => cases hdigit '-' List.mem_cons_self
  | fraction h => cases hdigit '.' h
  | exponent h =>
    rcases h with h | h
    · cases hdigit 'e' h
    · cases hdigit 'E' h
  | @tooLarge m h =>
    have hvalue : m = n := by
      calc m = Nat.ofDigitChars 10 (Nat.toDigits 10 m) 0 := Nat.ofDigitChars_ten_toDigits.symm
        _ = Nat.ofDigitChars 10 (Nat.toDigits 10 n) 0 := by rw [heq]
        _ = n := Nat.ofDigitChars_ten_toDigits
    exact absurd (hvalue ▸ h) (Nat.not_le.2 hn)

/-- What stands in the place of a list of sizes: a field of that name, or an item of the array. -/
inductive SizesPart : Json → Json → Prop
  | field {fields : List (List Char × Json)} {f : List Char × Json} (hf : f ∈ fields)
      (hname : Json.unescape f.1 = some rowSizesField ∨ Json.unescape f.1 = some colSizesField) :
    SizesPart (.object fields) f.2
  | item {items : List Json} {item : Json} (h : item ∈ items) : SizesPart (.array items) item

/-- What may be wrong with block sizes: a field is missing or repeated, the array has not two
items, or a size is no natural number or too large. -/
inductive Faulty : Json → Prop
  | field {fields : List (List Char × Json)} {name : List Char}
      (hname : name = rowSizesField ∨ name = colSizesField)
      (hcount : fields.countP (Json.unescape ·.1 == some name) ≠ 1) : Faulty (.object fields)
  | length {items : List Json} (h : items.length ≠ 2) : Faulty (.array items)
  | number {j : Json} {items : List Json} {literal : List Char} (hpart : SizesPart j (.array items))
      (hmem : .number literal ∈ items) (h : NoNatural literal) : Faulty j

lemma Named.countP_eq (h : Named fields named) (name : List Char) :
    fields.countP (Json.unescape ·.1 == some name) = named.countP (·.1 == name) := by
  induction h with
  | nil => rfl
  | cons hf _ ih =>
    rw [List.countP_cons, List.countP_cons, ih, hf.1]
    simp

lemma SizesForm.countP_eq_one (h : SizesForm s (.object fields))
    (hname : name = rowSizesField ∨ name = colSizesField) :
    fields.countP (Json.unescape ·.1 == some name) = 1 := by
  cases h with
  | @object _ _ others hnamed hperm hothers =>
    rw [hnamed.countP_eq, hperm.countP_eq, List.countP_cons, List.countP_cons]
    have hnone : others.countP (·.1 == name) = 0 := by
      refine List.countP_eq_zero.2 fun f hf => ?_
      rcases hname with rfl | rfl
      · simpa using (hothers f hf).1
      · simpa using (hothers f hf).2
    rw [hnone]
    rcases hname with rfl | rfl <;> rfl

lemma SizesForm.of_part {part : Json} (h : SizesForm s j) (hpart : SizesPart j part) :
    part = ofNaturals s.rowSizes ∨ part = ofNaturals s.colSizes := by
  cases hpart with
  | field hf hname =>
    cases h with
    | object hnamed hperm hothers =>
      obtain ⟨g, hg, heq⟩ := Traversal.exists_of_forall₂ hnamed hf
      rw [heq.1, Option.some.injEq, Option.some.injEq] at hname
      rw [heq.2]
      rcases List.mem_cons.1 (hperm.mem_iff.1 hg) with rfl | hg
      · exact .inl rfl
      rcases List.mem_cons.1 hg with rfl | hg
      · exact .inr rfl
      · exact absurd hname (not_or.2 (hothers g hg))
  | item hitem =>
    cases h with
    | array => simpa using hitem

/-- A faulty value is no form of block sizes in range. -/
lemma Faulty.not_form (h : Faulty j) (hform : SizesForm s j) : ¬ SizesInRange s := by
  rintro ⟨hrows, hcols⟩
  cases h with
  | field hname hcount => exact hcount (hform.countP_eq_one hname)
  | length hlength =>
    cases hform with
    | array => exact hlength rfl
  | @number _ items literal hpart hmem h =>
    have hlist : ∀ ns : List Nat, (∀ n ∈ ns, n < naturalBound) →
        Json.array items ≠ ofNaturals ns := by
      intro ns hns heq
      rw [Json.array.inj heq] at hmem
      obtain ⟨n, hn, hnumber⟩ := List.mem_map.1 hmem
      exact h.ne_toDigits (hns n hn) (Json.number.inj hnumber).symm
    rcases hform.of_part hpart with heq | heq
    · exact hlist _ hrows heq
    · exact hlist _ hcols heq

end Faults

/-- Shapes, block sizes and strategies are read as they are written, and what is read can be written
and read again; behind a value only blanks may stand. Block sizes are read from an object with their
two lists under their names, in either order and among any other fields, and from an array of the
two lists, and from nothing else. A text in which a field is missing or repeated, or a size is
negative, fractional or too large, is refused. -/
theorem configuration_outcome :
    shapes.Faithful ShapeInRange ∧ sizes.Faithful SizesInRange ∧
    (strategies.Faithful fun _ => True) ∧
    (∀ text s, sizes.read? text = some s ↔
      ∃ j, Json.Spells text j ∧ SizesForm s j ∧ SizesInRange s) ∧
    ∀ text j, Json.Spells text j → Faulty j → sizes.read? text = none := by
  refine ⟨faithful_shapes, faithful_sizes, faithful_strategies,
    fun _ _ => read?_sizes_eq_some_iff, fun text j hspells hfaulty => ?_⟩
  rw [Option.eq_none_iff_forall_ne_some]
  intro s hs
  obtain ⟨j', hspells', hform, hrange⟩ := read?_sizes_eq_some_iff.1 hs
  rw [← hspells.unique hspells'] at hform
  exact hfaulty.not_form hform hrange

/-- The widths before the heights, with a field between them that block sizes do not have. -/
def widthsFirst : Json := .object
  [(colSizesField, ofNaturals [3]), (['u', 'n', 'i', 't'], .string ['m']),
    (rowSizesField, ofNaturals [1, 2])]

lemma wellFormed_widthsFirst : widthsFirst.WellFormed := by
  have hstring : ∀ cs ∈ [rowSizesField, colSizesField, ['u', 'n', 'i', 't'], ['m']],
      Json.StringLiteral cs := by
    intro cs hcs
    refine Json.stringLiteral_of_plain ?_
    simp only [List.mem_cons, List.not_mem_nil, or_false] at hcs
    rcases hcs with rfl | rfl | rfl | rfl <;> simp [rowSizesField, colSizesField]
  simp only [List.forall_mem_cons] at hstring
  obtain ⟨hrow, hcol, hunit, hmeter, _⟩ := hstring
  exact .object (by simpa using ⟨hcol, hunit, hrow⟩) (by
    simpa using ⟨Json.wellFormed_ofNaturals [3], .string hmeter, Json.wellFormed_ofNaturals [1, 2]⟩)

/-- The compact text of `widthsFirst`. -/
def widthsFirstText : List Char :=
  "\x7b\"col_sizes\":[3],\"unit\":\"m\",\"row_sizes\":[1,2]\x7d".toList

theorem configuration_outcome_widthsFirst :
    sizes.read? widthsFirstText = some ⟨[1, 2], [3]⟩ ∧
    sizes.read? (sizes.write ⟨[1, 2], [3]⟩) = some ⟨[1, 2], [3]⟩ ∧
    sizes.read? "[[1,2],[18446744073709551616]]".toList = none ∧
    sizes.read? (widthsFirstText ++ [',']) = none := by
  obtain ⟨_, hsizes, _, hread, hrefuse⟩ := configuration_outcome
  have hrange : SizesInRange ⟨[1, 2], [3]⟩ := by
    constructor <;> decide
  have hspells : Json.Spells widthsFirstText widthsFirst := by
    rw [show widthsFirstText = widthsFirst.text by decide]
    exact Json.spells_text wellFormed_widthsFirst
  have htooLarge : Json.Spells "[[1,2],[18446744073709551616]]".toList
      (.array [ofNaturals [1, 2], ofNaturals [naturalBound]]) := by
    rw [show "[[1,2],[18446744073709551616]]".toList =
      (Json.array [ofNaturals [1, 2], ofNaturals [naturalBound]]).text by decide]
    exact Json.spells_text (.array (by simp [Json.wellFormed_ofNaturals]))
  have hcomma : ¬ Json.Blank [','] := fun h => absurd (h ',' List.mem_cons_self) (by decide)
  refine ⟨(hread _ _).2 ⟨_, hspells, ?_, hrange⟩, hsizes.read_write _ hrange,
    hrefuse _ _ htooLarge ?_, hsizes.read_append _ _ _ hspells hcomma⟩
  · -- the heights change places with the field behind the widths, and then with the widths
    exact .object (.cons ⟨rfl, rfl⟩ (.cons ⟨rfl, rfl⟩ (.cons ⟨rfl, rfl⟩ .nil)))
      (((List.Perm.swap _ _ _).cons _).trans (.swap _ _ _)) (by decide)
  · exact .number (.item (List.mem_cons_of_mem _ List.mem_cons_self)) List.mem_cons_self
      (.tooLarge (Nat.le_refl _))

end BlockSparse.Config
