import BlockSparse.Proofs.Config.Literal

/-! The grammar of JSON text. A value is a sequence of tokens, and its texts are those tokens with
blanks before, between and after them; the compact text is the one without blanks. -/
namespace BlockSparse.Json
variable {cs rest mid : List Char} {j : Json} {items : List Json}
  {fields : List (List Char × Json)} {token : List Char} {ts us : List (List Char)}

section Blanks

/-- A text of blanks alone. -/
def Blank (cs : List Char) : Prop := ∀ c ∈ cs, isBlank c = true

lemma blank_nil : Blank [] := fun _ h => absurd h List.not_mem_nil

lemma isBlank_iff {c : Char} : isBlank c = true ↔ c = ' ' ∨ c = '\n' ∨ c = '\t' ∨ c = '\x0d' := by
  simp [isBlank, or_assoc]

lemma exists_skipBlanks (cs : List Char) : ∃ blanks, Blank blanks ∧ cs = blanks ++ skipBlanks cs :=
  ⟨cs.takeWhile isBlank, fun _ hc => List.mem_takeWhile_imp hc,
    List.takeWhile_append_dropWhile.symm⟩

lemma skipBlanks_append {blanks : List Char} (h : Blank blanks) (cs : List Char) :
    skipBlanks (blanks ++ cs) = skipBlanks cs := List.dropWhile_append_of_pos h

lemma skipBlanks_cons {c : Char} (h : isBlank c = false) (cs : List Char) :
    skipBlanks (c :: cs) = c :: cs := List.dropWhile_cons_of_neg (by simp [h])

lemma skipBlanks_eq_nil_iff : skipBlanks cs = [] ↔ Blank cs := List.dropWhile_eq_nil_iff

lemma skipBlanks_skipBlanks (cs : List Char) : skipBlanks (skipBlanks cs) = skipBlanks cs := by
  obtain ⟨blanks, hblanks, heq⟩ := exists_skipBlanks cs
  rw [← skipBlanks_append hblanks (skipBlanks cs), ← heq]

lemma length_skipBlanks_le (cs : List Char) : (skipBlanks cs).length ≤ cs.length :=
  (List.dropWhile_sublist _).length_le

end Blanks

section Spacing

/-- A text that starts with the tokens, each with blanks before it, and what is left behind them. -/
inductive Spaced : List (List Char) → List Char → List Char → Prop
  | done (rest : List Char) : Spaced [] rest rest
  | token {blanks token cs rest : List Char} {ts : List (List Char)} (hblanks : Blank blanks)
      (h : Spaced ts cs rest) : Spaced (token :: ts) (blanks ++ (token ++ cs)) rest

lemma Spaced.append (h : Spaced ts cs mid) (h' : Spaced us mid rest) :
    Spaced (ts ++ us) cs rest := by
  induction h with
  | done => exact h'
  | token hblanks _ ih => exact .token hblanks (ih h')

lemma Spaced.split (h : Spaced (ts ++ us) cs rest) :
    ∃ mid, Spaced ts cs mid ∧ Spaced us mid rest := by
  induction ts generalizing cs with
  | nil => exact ⟨cs, .done cs, h⟩
  | cons token ts ih =>
    cases h with
    | token hblanks h =>
      obtain ⟨mid, hmid, hrest⟩ := ih h
      exact ⟨mid, .token hblanks hmid, hrest⟩

/-- What follows the text follows what is left of it. -/
lemma Spaced.extend (h : Spaced ts cs rest) (more : List Char) :
    Spaced ts (cs ++ more) (rest ++ more) := by
  induction h with
  | done => exact .done _
  | token hblanks _ ih =>
    rw [List.append_assoc, List.append_assoc]
    exact .token hblanks ih

lemma Spaced.length_le (h : Spaced ts cs rest) : rest.length ≤ cs.length := by
  induction h with
  | done => exact Nat.le_refl _
  | token _ _ ih =>
    rw [List.length_append, List.length_append]
    omega

/-- The first token follows the blanks. -/
lemma Spaced.skip {c : Char} (h : Spaced ((c :: token) :: ts) cs rest)
    (hc : isBlank c = false) :
    ∃ mid, skipBlanks cs = c :: (token ++ mid) ∧ Spaced ts mid rest := by
  cases h with
  | token hblanks h =>
    refine ⟨_, ?_, h⟩
    rw [skipBlanks_append hblanks, List.cons_append, skipBlanks_cons hc]

/-- Behind the only token stands what is left. -/
lemma Spaced.skip_last {c : Char} (h : Spaced [c :: token] cs rest) (hc : isBlank c = false) :
    skipBlanks cs = c :: (token ++ rest) := by
  obtain ⟨mid, hcs, hdone⟩ := h.skip hc
  cases hdone
  exact hcs

/-- The blanks before the first token do not matter. -/
lemma Spaced.of_skip (hcs : skipBlanks cs = token ++ mid) (h : Spaced ts mid rest) :
    Spaced (token :: ts) cs rest := by
  obtain ⟨blanks, hblanks, heq⟩ := exists_skipBlanks cs
  rw [heq, hcs]
  exact .token hblanks h

end Spacing

section Tokens

mutual

/-- The tokens of a value. -/
def tokens : Json → List (List Char)
  | null => [['n', 'u', 'l', 'l']]
  | bool true => [['t', 'r', 'u', 'e']]
  | bool false => [['f', 'a', 'l', 's', 'e']]
  | number literal => [literal]
  | string literal => ['"' :: (literal ++ ['"'])]
  | array items => ['['] :: itemsTokens items
  | object fields => ['\x7b'] :: fieldsTokens fields

/-- The tokens of the items of an array and its closing bracket. -/
def itemsTokens : List Json → List (List Char)
  | [] => [[']']]
  | [item] => tokens item ++ [[']']]
  | item :: next :: items => tokens item ++ [','] :: itemsTokens (next :: items)

/-- The tokens of the fields of an object and its closing brace. -/
def fieldsTokens : List (List Char × Json) → List (List Char)
  | [] => [['\x7d']]
  | [(name, value)] => ('"' :: (name ++ ['"'])) :: [':'] :: (tokens value ++ [['\x7d']])
  | (name, value) :: next :: fields =>
    ('"' :: (name ++ ['"'])) :: [':'] :: (tokens value ++ [','] :: fieldsTokens (next :: fields))

end

lemma exists_itemsTokens (item : Json) (items : List Json) :
    ∃ us, itemsTokens (item :: items) = tokens item ++ us ∧
      (items = [] ∧ us = [[']']] ∨ items ≠ [] ∧ us = [','] :: itemsTokens items) := by
  cases items with
  | nil => exact ⟨_, rfl, .inl ⟨rfl, rfl⟩⟩
  | cons next items => exact ⟨_, rfl, .inr ⟨List.cons_ne_nil _ _, rfl⟩⟩

lemma exists_fieldsTokens (f : List Char × Json) (fields : List (List Char × Json)) :
    ∃ us, fieldsTokens (f :: fields) = ('"' :: (f.1 ++ ['"'])) :: [':'] :: (tokens f.2 ++ us) ∧
      (fields = [] ∧ us = [['\x7d']] ∨ fields ≠ [] ∧ us = [','] :: fieldsTokens fields) := by
  cases fields with
  | nil => exact ⟨_, rfl, .inl ⟨rfl, rfl⟩⟩
  | cons next fields => exact ⟨_, rfl, .inr ⟨List.cons_ne_nil _ _, rfl⟩⟩

lemma itemsTokens_cons (item : Json) (h : items ≠ []) :
    itemsTokens (item :: items) = tokens item ++ [','] :: itemsTokens items := by
  cases items with
  | nil => exact absurd rfl h
  | cons next items => rw [itemsTokens]

lemma fieldsTokens_cons (f : List Char × Json) (h : fields ≠ []) :
    fieldsTokens (f :: fields) =
      ('"' :: (f.1 ++ ['"'])) :: [':'] :: (tokens f.2 ++ [','] :: fieldsTokens fields) := by
  cases fields with
  | nil => exact absurd rfl h
  | cons next fields => rw [fieldsTokens]

/-- A value whose numbers and strings are written as such. -/
inductive WellFormed : Json → Prop
  | null : WellFormed null
  | bool (b : Bool) : WellFormed (bool b)
  | number {literal : List Char} (h : NumberLiteral literal) : WellFormed (number literal)
  | string {literal : List Char} (h : StringLiteral literal) : WellFormed (string literal)
  | array {items : List Json} (h : ∀ item ∈ items, WellFormed item) : WellFormed (array items)
  | object {fields : List (List Char × Json)}
      (hname : ∀ f ∈ fields, StringLiteral f.1) (hvalue : ∀ f ∈ fields, WellFormed f.2) :
    WellFormed (object fields)

/-- A text of a value: its tokens with blanks before, between and after them. -/
def Spells (cs : List Char) (j : Json) : Prop :=
  j.WellFormed ∧ ∃ rest, Spaced j.tokens cs rest ∧ Blank rest

end Tokens

section Compact

mutual

lemma text_eq_flatten : (j : Json) → j.text = j.tokens.flatten
  | null => rfl
  | bool true => rfl
  | bool false => rfl
  | number literal => by simp [text, tokens]
  | string literal => by simp [text, tokens]
  | array items => by simp [text, tokens, itemsText_eq_flatten items]
  | object fields => by simp [text, tokens, fieldsText_eq_flatten fields]

lemma itemsText_eq_flatten : (items : List Json) →
    itemsText items ++ [']'] = (itemsTokens items).flatten
  | [] => rfl
  | [item] => by simp [itemsText, itemsTokens, text_eq_flatten item]
  | item :: next :: items => by
    simp [itemsText, itemsTokens, text_eq_flatten item, itemsText_eq_flatten (next :: items)]

lemma fieldsText_eq_flatten : (fields : List (List Char × Json)) →
    fieldsText fields ++ ['\x7d'] = (fieldsTokens fields).flatten
  | [] => rfl
  | [(name, value)] => by simp [fieldsText, fieldsTokens, text_eq_flatten value]
  | (name, value) :: next :: fields => by
    simp [fieldsText, fieldsTokens, text_eq_flatten value, fieldsText_eq_flatten (next :: fields)]

end

lemma spaced_flatten (ts : List (List Char)) : Spaced ts ts.flatten [] := by
  induction ts with
  | nil => exact .done []
  | cons token ts ih => exact .token blank_nil ih

/-- The compact text of a value is one of its texts. -/
theorem spells_text (h : j.WellFormed) : Spells j.text j := by
  rw [text_eq_flatten]
  exact ⟨h, [], spaced_flatten _, blank_nil⟩

end Compact

end BlockSparse.Json
