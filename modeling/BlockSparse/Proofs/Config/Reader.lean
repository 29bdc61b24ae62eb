import BlockSparse.Proofs.Config.Grammar

/-! Reading JSON text. Exactly the tokens of one value are taken from the front of a text, and the
bound on the number of steps is never reached, so the values that are read are those of the grammar:
a text has at most one. -/
namespace BlockSparse.Json
variable {cs rest mid : List Char} {j : Json} {token : List Char}

section Blanks
variable (fuel : Nat) (cs : List Char)

/-! Blanks before a value, an item or a field are passed over. -/

lemma readValue_skipBlanks : readValue fuel (skipBlanks cs) = readValue fuel cs := by
  cases fuel with
  | zero => rfl
  | succ fuel => rw [readValue, readValue, skipBlanks_skipBlanks]

lemma readItems_skipBlanks : readItems fuel (skipBlanks cs) = readItems fuel cs := by
  cases fuel with
  | zero => rfl
  | succ fuel => rw [readItems, readItems, readValue_skipBlanks]

lemma readFields_skipBlanks : readFields fuel (skipBlanks cs) = readFields fuel cs := by
  cases fuel with
  | zero => rfl
  | succ fuel => rw [readFields, readFields, skipBlanks_skipBlanks]

end Blanks

section Sound

/-- Whatever is read as a value starts with the tokens of that value. -/
def ReadsValues (fuel : Nat) : Prop := ∀ cs j rest, readValue fuel cs = some (j, rest) →
  j.WellFormed ∧ Spaced j.tokens cs rest

/-- Whatever is read as items starts with the tokens of those items. -/
def ReadsItems (fuel : Nat) : Prop := ∀ cs items rest, readItems fuel cs = some (items, rest) →
  items ≠ [] ∧ (∀ item ∈ items, item.WellFormed) ∧ Spaced (itemsTokens items) cs rest

/-- Whatever is read as fields starts with the tokens of those fields. -/
def ReadsFields (fuel : Nat) : Prop := ∀ cs fields rest, readFields fuel cs = some (fields, rest) →
  fields ≠ [] ∧ (∀ f ∈ fields, StringLiteral f.1) ∧ (∀ f ∈ fields, f.2.WellFormed) ∧
    Spaced (fieldsTokens fields) cs rest

lemma of_expect {word : List Char} (h : expect word cs = some rest) : cs = word ++ rest := by
  induction word generalizing cs with
  | nil => exact Option.some.inj h
  | cons c word ih =>
    cases cs with
    | nil => cases h
    | cons d cs =>
      rw [expect] at h
      split at h
      · rename_i hcd
        rw [hcd, ih h, List.cons_append]
      · cases h

/-- What starts as a word is read to its end. -/
lemma of_word {c : Char} {word r : List Char} {value : Json} (hcs : skipBlanks cs = c :: r)
    (h : (expect word r).map (fun r => (value, r)) = some (j, rest)) :
    j = value ∧ Spaced [c :: word] cs rest := by
  obtain ⟨r', hr, heq⟩ := Option.map_eq_some_iff.1 h
  cases heq
  rw [of_expect hr] at hcs
  exact ⟨rfl, .of_skip hcs (.done rest)⟩

variable {fuel : Nat}

lemma readsValues_succ (hitems : ReadsItems fuel) (hfields : ReadsFields fuel) :
    ReadsValues (fuel + 1) := by
  intro cs j rest h
  rw [readValue] at h
  split at h
  · cases h
  · rename_i r hcs
    obtain ⟨rfl, hspaced⟩ := of_word hcs h
    exact ⟨.null, hspaced⟩
  · rename_i r hcs
    obtain ⟨rfl, hspaced⟩ := of_word hcs h
    exact ⟨.bool true, hspaced⟩
  · rename_i r hcs
    obtain ⟨rfl, hspaced⟩ := of_word hcs h
    exact ⟨.bool false, hspaced⟩
  · rename_i r hcs
    obtain ⟨⟨literal, r'⟩, hr, heq⟩ := Option.map_eq_some_iff.1 h
    cases heq
    obtain ⟨hliteral, rfl⟩ := readString_eq_some_iff.1 hr
    exact ⟨.string hliteral, .of_skip (by simp [hcs]) (.done rest)⟩
  · rename_i r hcs
    split at h
    · rename_i r' hclose
      cases h
      exact ⟨.array (by simp), .of_skip hcs (.of_skip hclose (.done rest))⟩
    · obtain ⟨⟨items, r'⟩, hr, heq⟩ := Option.map_eq_some_iff.1 h
      cases heq
      rw [readItems_skipBlanks] at hr
      obtain ⟨_, hwf, hspaced⟩ := hitems _ _ _ hr
      exact ⟨.array hwf, .of_skip hcs hspaced⟩
  · rename_i r hcs
    split at h
    · rename_i r' hclose
      cases h
      exact ⟨.object (by simp) (by simp), .of_skip hcs (.of_skip hclose (.done rest))⟩
    · obtain ⟨⟨fields, r'⟩, hr, heq⟩ := Option.map_eq_some_iff.1 h
      cases heq
      rw [readFields_skipBlanks] at hr
      obtain ⟨_, hname, hwf, hspaced⟩ := hfields _ _ _ hr
      exact ⟨.object hname hwf, .of_skip hcs hspaced⟩
  · obtain ⟨⟨literal, r⟩, hr, heq⟩ := Option.map_eq_some_iff.1 h
    cases heq
    obtain ⟨hliteral, hcs⟩ := of_readNumber hr
    exact ⟨.number hliteral, .of_skip hcs (.done rest)⟩

lemma readsItems_succ (hvalue : ReadsValues fuel) (hitems : ReadsItems fuel) :
    ReadsItems (fuel + 1) := by
  intro cs items rest h
  rw [readItems] at h
  obtain ⟨⟨item, r⟩, hr, h⟩ := Option.bind_eq_some_iff.1 h
  obtain ⟨hwf, hspaced⟩ := hvalue _ _ _ hr
  simp only at h
  split at h
  · rename_i r' hclose
    cases h
    exact ⟨List.cons_ne_nil _ _, by simpa using hwf,
      hspaced.append (.of_skip hclose (.done rest))⟩
  · rename_i r' hcomma
    obtain ⟨⟨items, r''⟩, hrest, heq⟩ := Option.map_eq_some_iff.1 h
    cases heq
    obtain ⟨hne, hwfs, hspaceds⟩ := hitems _ _ _ hrest
    refine ⟨List.cons_ne_nil _ _, List.forall_mem_cons.2 ⟨hwf, hwfs⟩, ?_⟩
    rw [itemsTokens_cons item hne]
    exact hspaced.append (.of_skip hcomma hspaceds)
  · cases h

lemma readsFields_succ (hvalue : ReadsValues fuel) (hfields : ReadsFields fuel) :
    ReadsFields (fuel + 1) := by
  intro cs fields rest h
  rw [readFields] at h
  split at h
  · rename_i r hquote
    obtain ⟨⟨name, r₁⟩, hname, h₁⟩ := Option.bind_eq_some_iff.1 h
    obtain ⟨r₂, hcolon, h₂⟩ := Option.bind_eq_some_iff.1 h₁
    obtain ⟨⟨value, r₃⟩, hr, h₃⟩ := Option.bind_eq_some_iff.1 h₂
    obtain ⟨hliteral, rfl⟩ := readString_eq_some_iff.1 hname
    obtain ⟨hwf, hspaced⟩ := hvalue _ _ _ hr
    -- the tokens of the field, with whatever tokens are left behind its value
    have hfield : ∀ {us}, Spaced us r₃ rest →
        Spaced (('"' :: (name ++ ['"'])) :: [':'] :: (tokens value ++ us)) cs rest := fun hus =>
      .of_skip (by simp [hquote]) (.of_skip (of_expect hcolon) (hspaced.append hus))
    simp only at h₃
    split at h₃
    · rename_i r' hclose
      cases h₃
      exact ⟨List.cons_ne_nil _ _, by simpa using hliteral, by simpa using hwf,
        hfield (.of_skip hclose (.done rest))⟩
    · rename_i r' hcomma
      obtain ⟨⟨fields, r''⟩, hrest, heq⟩ := Option.map_eq_some_iff.1 h₃
      cases heq
      obtain ⟨hne, hnames, hwfs, hspaceds⟩ := hfields _ _ _ hrest
      refine ⟨List.cons_ne_nil _ _, List.forall_mem_cons.2 ⟨hliteral, hnames⟩,
        List.forall_mem_cons.2 ⟨hwf, hwfs⟩, ?_⟩
      rw [fieldsTokens_cons _ hne]
      exact hfield (.of_skip hcomma hspaceds)
    · cases h₃
  · cases h

/-- Reading takes the tokens of the value it gives. -/
theorem reads_sound (fuel : Nat) : ReadsValues fuel ∧ ReadsItems fuel ∧ ReadsFields fuel := by
  -- on the number of steps, since the three readers call each other
  induction fuel with
  | zero => refine ⟨?_, ?_, ?_⟩ <;> intro _ _ _ h <;> cases h
  | succ fuel ih =>
    obtain ⟨hvalue, hitems, hfields⟩ := ih
    exact ⟨readsValues_succ hitems hfields, readsItems_succ hvalue hitems,
      readsFields_succ hvalue hfields⟩

end Sound

section Complete
variable {fuel : Nat}

lemma expect_append (word rest : List Char) : expect word (word ++ rest) = some rest := by
  induction word with
  | nil => rfl
  | cons c word ih => rw [List.cons_append, expect, if_pos rfl, ih]

/-- A number stops before blanks and before a token that cannot belong to it. -/
lemma stopsNumber_of_skipBlanks (h : StopsNumber (skipBlanks cs)) : StopsNumber cs := by
  obtain ⟨blanks, hblanks, heq⟩ := exists_skipBlanks cs
  intro c t hc
  cases blanks with
  | nil => exact h c t (by rw [← hc]; exact heq.symm)
  | cons d blanks =>
    rw [hc] at heq
    have hd : isBlank c = true := by
      rw [(List.cons.inj heq).1]
      exact hblanks d List.mem_cons_self
    rcases isBlank_iff.1 hd with rfl | rfl | rfl | rfl <;> decide

lemma isBlank_of_number {c : Char} (hc : c = '-' ∨ c.isDigit = true) : isBlank c = false := by
  refine Bool.eq_false_iff.2 fun hblank => ?_
  rcases isBlank_iff.1 hblank with rfl | rfl | rfl | rfl <;> simp at hc

/-- The tokens of a value start with a character that is no blank and closes no array. -/
lemma WellFormed.exists_tokens (h : j.WellFormed) :
    ∃ c token ts, j.tokens = (c :: token) :: ts ∧ isBlank c = false ∧ c ≠ ']' := by
  cases h with
  | null => exact ⟨_, _, _, rfl, by decide, by decide⟩
  | bool b => cases b <;> exact ⟨_, _, _, rfl, by decide, by decide⟩
  | number h =>
    obtain ⟨c, t, rfl, hc⟩ := h.head
    refine ⟨c, t, _, rfl, isBlank_of_number hc, ?_⟩
    rintro rfl
    simp at hc
  | string h => exact ⟨_, _, _, rfl, by decide, by decide⟩
  | array h => exact ⟨_, _, _, rfl, by decide, by decide⟩
  | object hname hvalue => exact ⟨_, _, _, rfl, by decide, by decide⟩

/-! One step of reading a value, by its first character. -/

lemma readValue_number {c : Char} {t : List Char} (h : skipBlanks cs = c :: t)
    (hc : c = '-' ∨ c.isDigit = true) :
    readValue (fuel + 1) cs =
      (readNumber (c :: t)).map fun (literal, r) => (number literal, r) := by
  rw [readValue, h]
  split
  case h_8 => rfl
  -- neither a sign nor a digit starts any other value
  all_goals
    rename_i heq
    cases heq
  all_goals simp at hc

lemma readValue_items (h : skipBlanks cs = '[' :: mid) (hclose : ∀ r, skipBlanks mid ≠ ']' :: r) :
    readValue (fuel + 1) cs = (readItems fuel mid).map fun (items, r) => (array items, r) := by
  rw [readValue, h]
  simp only [readItems_skipBlanks]

lemma readValue_fields (h : skipBlanks cs = '\x7b' :: mid)
    (hclose : ∀ r, skipBlanks mid ≠ '\x7d' :: r) :
    readValue (fuel + 1) cs = (readFields fuel mid).map fun (fields, r) => (object fields, r) := by
  rw [readValue, h]
  simp only [readFields_skipBlanks]

/-- With steps enough, the tokens of a value are read as that value, provided that a number does not
seem to go on. Items and fields need one step more than a value that starts at the same place. -/
def TakesValues (fuel : Nat) : Prop := ∀ cs j rest, j.WellFormed → Spaced j.tokens cs rest →
  (∀ literal, j = number literal → StopsNumber rest) → 2 * cs.length < fuel →
    readValue fuel cs = some (j, rest)

/-- With steps enough, the tokens of items are read as those items. -/
def TakesItems (fuel : Nat) : Prop := ∀ cs items rest, items ≠ [] →
  (∀ item ∈ items, item.WellFormed) → Spaced (itemsTokens items) cs rest →
    2 * cs.length + 1 < fuel → readItems fuel cs = some (items, rest)

/-- With steps enough, the tokens of fields are read as those fields. -/
def TakesFields (fuel : Nat) : Prop := ∀ cs fields rest, fields ≠ [] →
  (∀ f ∈ fields, StringLiteral f.1) → (∀ f ∈ fields, f.2.WellFormed) →
    Spaced (fieldsTokens fields) cs rest → 2 * cs.length + 1 < fuel →
      readFields fuel cs = some (fields, rest)

lemma length_of_skipBlanks {c : Char} (h : skipBlanks cs = c :: (token ++ mid)) :
    mid.length < cs.length := by
  have hle := length_skipBlanks_le cs
  rw [h, List.length_cons, List.length_append] at hle
  omega

/-- What closes or separates items and fields stops a number. -/
lemma stopsNumber_of_separator {c : Char} {t : List Char} (h : skipBlanks cs = c :: t)
    (hc : c = ',' ∨ c = ']' ∨ c = '\x7d') : StopsNumber cs := by
  refine stopsNumber_of_skipBlanks fun d u hd => ?_
  rw [h] at hd
  rw [← (List.cons.inj hd).1]
  rcases hc with rfl | rfl | rfl <;> decide

lemma takesValues_succ (hitems : TakesItems fuel) (hfields : TakesFields fuel) :
    TakesValues (fuel + 1) := by
  intro cs j rest hwf hspaced hstops hfuel
  cases hwf with
  | null =>
    rw [readValue, hspaced.skip_last (by decide)]
    rfl
  | bool b =>
    cases b with
    | false =>
      rw [readValue, hspaced.skip_last (by decide)]
      rfl
    | true =>
      rw [readValue, hspaced.skip_last (by decide)]
      rfl
  | number h =>
    obtain ⟨c, t, rfl, hc⟩ := h.head
    have hcs := hspaced.skip_last (isBlank_of_number hc)
    have hread := readNumber_append h (hstops _ rfl)
    rw [List.cons_append] at hread
    rw [readValue_number hcs hc, hread]
    rfl
  | @string literal h =>
    have hread : readString (literal ++ ['"'] ++ rest) = some (literal, rest) :=
      readString_eq_some_iff.2 ⟨h, by simp⟩
    rw [readValue, hspaced.skip_last (by decide)]
    simp only [hread, Option.map_some]
  | @array items h =>
    obtain ⟨mid, hcs, hmid⟩ := hspaced.skip (by decide)
    have hlen := length_of_skipBlanks hcs
    rw [List.nil_append] at hcs
    cases items with
    | nil =>
      have hclose := hmid.skip_last (by decide)
      rw [readValue, hcs]
      simp only [hclose, List.nil_append]
    | cons item items =>
      have hread := hitems mid _ rest (List.cons_ne_nil item items) h hmid (by omega)
      obtain ⟨us, hus, _⟩ := exists_itemsTokens item items
      obtain ⟨c, token, ts, htokens, hblank, hclose⟩ :=
        (h item List.mem_cons_self).exists_tokens
      -- the first item does not look like the end of the array
      rw [hus, htokens] at hmid
      obtain ⟨mid', hmid', _⟩ := hmid.skip hblank
      rw [readValue_items hcs fun r hr => hclose (List.cons.inj (hmid'.symm.trans hr)).1, hread]
      rfl
  | @object fields hname hvalue =>
    obtain ⟨mid, hcs, hmid⟩ := hspaced.skip (by decide)
    have hlen := length_of_skipBlanks hcs
    rw [List.nil_append] at hcs
    cases fields with
    | nil =>
      have hclose := hmid.skip_last (by decide)
      rw [readValue, hcs]
      simp only [hclose, List.nil_append]
    | cons f fields =>
      have hread := hfields mid _ rest (List.cons_ne_nil f fields) hname hvalue hmid (by omega)
      obtain ⟨us, hus, _⟩ := exists_fieldsTokens f fields
      rw [hus] at hmid
      obtain ⟨mid', hmid', _⟩ := hmid.skip (by decide)
      rw [readValue_fields hcs fun r hr => by simp [hmid'] at hr, hread]
      rfl

lemma takesItems_succ (hvalue : TakesValues fuel) (hitems : TakesItems fuel) :
    TakesItems (fuel + 1) := by
  intro cs items rest hne hwf hspaced hfuel
  cases items with
  | nil => exact absurd rfl hne
  | cons item items =>
    obtain ⟨us, hus, hbehind⟩ := exists_itemsTokens item items
    rw [hus] at hspaced
    obtain ⟨mid, hitem, hmid⟩ := hspaced.split
    have hread := fun hstops =>
      hvalue cs item mid (hwf item List.mem_cons_self) hitem (fun _ _ => hstops) (by omega)
    rcases hbehind with ⟨rfl, rfl⟩ | ⟨hne, rfl⟩
    · have hclose := hmid.skip_last (by decide)
      rw [readItems, hread (stopsNumber_of_separator hclose (by simp))]
      simp only [Option.bind_eq_bind, Option.bind_some, hclose, List.nil_append]
    · obtain ⟨r, hcomma, hrest⟩ := hmid.skip (by decide)
      have hlen : r.length < cs.length :=
        (length_of_skipBlanks hcomma).trans_le hitem.length_le
      have hreads := hitems r items rest hne (fun i hi => hwf i (List.mem_cons_of_mem _ hi)) hrest
        (by omega)
      rw [readItems, hread (stopsNumber_of_separator hcomma (by simp))]
      simp only [Option.bind_eq_bind, Option.bind_some, hcomma, List.nil_append, hreads,
        Option.map_some]

lemma takesFields_succ (hvalue : TakesValues fuel) (hfields : TakesFields fuel) :
    TakesFields (fuel + 1) := by
  intro cs fields rest hne hname hwf hspaced hfuel
  cases fields with
  | nil => exact absurd rfl hne
  | cons f fields =>
    obtain ⟨name, value⟩ := f
    obtain ⟨us, hus, hbehind⟩ := exists_fieldsTokens (name, value) fields
    rw [hus] at hspaced
    obtain ⟨r₁, hquote, h₁⟩ := hspaced.skip (by decide)
    obtain ⟨r₂, hcolon, h₂⟩ := h₁.skip (by decide)
    obtain ⟨mid, hval, hmid⟩ := h₂.split
    have hstring : readString (name ++ ['"'] ++ r₁) = some (name, r₁) :=
      readString_eq_some_iff.2 ⟨hname _ List.mem_cons_self, by simp⟩
    have hexpect : expect [':'] (skipBlanks r₁) = some r₂ := by
      rw [hcolon]
      exact expect_append [':'] r₂
    have hlen : r₂.length < cs.length :=
      (length_of_skipBlanks hcolon).trans (length_of_skipBlanks hquote)
    have hread := fun hstops =>
      hvalue r₂ value mid (hwf _ List.mem_cons_self) hval (fun _ _ => hstops) (by omega)
    rcases hbehind with ⟨rfl, rfl⟩ | ⟨hne, rfl⟩
    · have hclose := hmid.skip_last (by decide)
      have hread := hread (stopsNumber_of_separator hclose (by simp))
      rw [readFields, hquote]
      simp only [hstring, hexpect, hread, Option.bind_eq_bind, Option.bind_some, hclose,
        List.nil_append]
    · obtain ⟨r, hcomma, hrest⟩ := hmid.skip (by decide)
      have hread := hread (stopsNumber_of_separator hcomma (by simp))
      have hreads := hfields r fields rest hne (fun f hf => hname f (List.mem_cons_of_mem _ hf))
        (fun f hf => hwf f (List.mem_cons_of_mem _ hf)) hrest (by
          have hle := hval.length_le
          have hlt := length_of_skipBlanks hcomma
          omega)
      rw [readFields, hquote]
      simp only [hstring, hexpect, hread, Option.bind_eq_bind, Option.bind_some, hcomma,
        List.nil_append, hreads, Option.map_some]

/-- The tokens of a value are read as that value. -/
theorem reads_complete (fuel : Nat) : TakesValues fuel ∧ TakesItems fuel ∧ TakesFields fuel := by
  induction fuel with
  | zero =>
    refine ⟨?_, ?_, ?_⟩
    · intro _ _ _ _ _ _ hfuel
      omega
    · intro _ _ _ _ _ _ hfuel
      omega
    · intro _ _ _ _ _ _ _ hfuel
      omega
  | succ fuel ih =>
    obtain ⟨hvalue, hitems, hfields⟩ := ih
    exact ⟨takesValues_succ hitems hfields, takesItems_succ hvalue hitems,
      takesFields_succ hvalue hfields⟩

end Complete

section Texts

/-- The values of a text are its readings. -/
theorem ofText?_eq_some_iff : ofText? cs = some j ↔ Spells cs j := by
  unfold ofText?
  constructor
  · intro h
    split at h
    · rename_i value rest hread
      split at h
      · rename_i hblank
        cases h
        obtain ⟨hwf, hspaced⟩ := (reads_sound _).1 _ _ _ hread
        exact ⟨hwf, rest, hspaced, skipBlanks_eq_nil_iff.1 (List.isEmpty_iff.1 hblank)⟩
      · cases h
    · cases h
  · rintro ⟨hwf, rest, hspaced, hblank⟩
    have hnil := skipBlanks_eq_nil_iff.2 hblank
    have hstops : StopsNumber rest := stopsNumber_of_skipBlanks (by
      rw [hnil]
      intro c t h
      cases h)
    rw [(reads_complete _).1 cs j rest hwf hspaced (fun _ _ => hstops) (by omega)]
    simp [hnil]

/-- A text has at most one value. -/
lemma Spells.unique {j' : Json} (h : Spells cs j) (h' : Spells cs j') : j = j' :=
  Option.some.inj ((ofText?_eq_some_iff.2 h).symm.trans (ofText?_eq_some_iff.2 h'))

/-- Behind a value only blanks may stand. A number may go on, but it stays a number. -/
theorem Spells.append_eq_none_or {more : List Char} (h : Spells cs j) (hmore : ¬ Blank more) :
    ofText? (cs ++ more) = none ∨ ∃ literal, ofText? (cs ++ more) = some (number literal) := by
  obtain ⟨hwf, rest, hspaced, hrest⟩ := h
  have hspaced := hspaced.extend more
  unfold ofText?
  by_cases hnumber : ∃ literal, j = number literal
  · obtain ⟨literal, rfl⟩ := hnumber
    cases hwf with
    | number hliteral =>
      obtain ⟨c, t, rfl, hc⟩ := hliteral.head
      obtain ⟨mid, hcs, _⟩ := hspaced.skip (isBlank_of_number hc)
      rw [readValue_number hcs hc]
      cases readNumber (c :: (t ++ mid)) with
      | none => exact .inl rfl
      | some r =>
        rw [Option.map_some]
        simp only
        split
        · exact .inr ⟨r.1, rfl⟩
        · exact .inl rfl
  · rw [(reads_complete (2 * (cs ++ more).length + 2)).1 _ j _ hwf hspaced
      (fun literal hj => absurd ⟨literal, hj⟩ hnumber) (by omega)]
    exact .inl (by simp [skipBlanks_append hrest, skipBlanks_eq_nil_iff, hmore])

end Texts

end BlockSparse.Json
