import BlockSparse.Config.Json
import Mathlib.Data.List.Induction
import Mathlib.Data.List.TakeWhile

/-! Literals of numbers and strings in JSON text. What the readers take from the front of a text is
given by a grammar, and they take as much as the grammar allows. A number that consists of digits
alone is the decimal numeral of its value. -/
namespace BlockSparse.Json
variable {cs ds literal rest : List Char} {c : Char}

section Digits

/-- A run of digits that is not empty. -/
def Digits (ds : List Char) : Prop := ds ≠ [] ∧ ∀ c ∈ ds, c.isDigit = true

/-- A text that does not go on with a digit. -/
def StopsDigits (cs : List Char) : Prop := ∀ c t, cs = c :: t → c.isDigit = false

lemma of_readDigits (h : readDigits cs = some (ds, rest)) : Digits ds ∧ cs = ds ++ rest := by
  unfold readDigits at h
  split at h
  · cases h
  · rename_i hne
    cases h
    exact ⟨⟨fun hnil => hne hnil, fun c hc => List.mem_takeWhile_imp hc⟩,
      List.takeWhile_append_dropWhile.symm⟩

lemma readDigits_append (h : Digits ds) (hrest : StopsDigits rest) :
    readDigits (ds ++ rest) = some (ds, rest) := by
  have htake : (ds ++ rest).takeWhile Char.isDigit = ds := by
    rw [List.takeWhile_append_of_pos h.2]
    cases rest with
    | nil => simp
    | cons c t => simp [hrest c t rfl]
  have hdrop : (ds ++ rest).dropWhile Char.isDigit = rest := by
    rw [List.dropWhile_append_of_pos h.2]
    cases rest with
    | nil => rfl
    | cons c t => simp [hrest c t rfl]
  unfold readDigits
  rw [htake, hdrop]
  cases ds with
  | nil => exact absurd rfl h.1
  | cons d ds => rfl

end Digits

section Numbers

/-- A zero alone, or digits that do not start with zero. -/
inductive Whole : List Char → Prop
  | zero : Whole ['0']
  | digits {c : Char} {ds : List Char} (hc : c ≠ '0') (h : Digits (c :: ds)) : Whole (c :: ds)

/-- A point with digits after it, or nothing. -/
inductive Fraction : List Char → Prop
  | absent : Fraction []
  | point {ds : List Char} (h : Digits ds) : Fraction ('.' :: ds)

/-- The mark of an exponent with an optional sign and digits, or nothing. -/
inductive Exponent : List Char → Prop
  | absent : Exponent []
  | mark {c : Char} (hc : c = 'e' ∨ c = 'E') {sign ds : List Char}
      (hsign : sign = [] ∨ sign = ['+'] ∨ sign = ['-']) (h : Digits ds) :
    Exponent (c :: (sign ++ ds))

/-- The literal of a number. -/
inductive NumberLiteral : List Char → Prop
  | parts {sign whole fraction exponent : List Char} (hsign : sign = [] ∨ sign = ['-'])
      (hwhole : Whole whole) (hfraction : Fraction fraction) (hexponent : Exponent exponent) :
    NumberLiteral (sign ++ (whole ++ fraction ++ exponent))

/-- A text that does not go on as a number might. -/
def StopsNumber (cs : List Char) : Prop :=
  ∀ c t, cs = c :: t → c.isDigit = false ∧ c ≠ '.' ∧ c ≠ 'e' ∧ c ≠ 'E'

lemma of_readInteger (h : readInteger cs = some (literal, rest)) :
    Whole literal ∧ cs = literal ++ rest := by
  unfold readInteger at h
  split at h
  · cases h
    exact ⟨.zero, rfl⟩
  · rename_i hzero
    obtain ⟨hdigits, rfl⟩ := of_readDigits h
    cases literal with
    | nil => exact absurd rfl hdigits.1
    | cons c ds => exact ⟨.digits (fun hc => hzero (ds ++ rest) (by rw [hc]; rfl)) hdigits, rfl⟩

lemma readInteger_append (h : Whole literal) (hrest : StopsDigits rest) :
    readInteger (literal ++ rest) = some (literal, rest) := by
  cases h with
  | zero => rfl
  | digits hc h =>
    rw [← readDigits_append h hrest, List.cons_append, readInteger]
    exact fun _ ht => hc (List.cons.inj ht).1

lemma of_readFraction (h : readFraction cs = some (literal, rest)) :
    Fraction literal ∧ cs = literal ++ rest := by
  unfold readFraction at h
  split at h
  · obtain ⟨⟨ds, r⟩, hdigits, heq⟩ := Option.bind_eq_some_iff.1 h
    cases heq
    obtain ⟨hds, rfl⟩ := of_readDigits hdigits
    exact ⟨.point hds, rfl⟩
  · cases h
    exact ⟨.absent, rfl⟩

lemma readFraction_append (h : Fraction literal) (hrest : StopsDigits rest)
    (hpoint : ∀ t, rest ≠ '.' :: t) : readFraction (literal ++ rest) = some (literal, rest) := by
  cases h with
  | absent =>
    rw [List.nil_append, readFraction]
    exact hpoint
  | point h =>
    rw [List.cons_append, readFraction, readDigits_append h hrest]
    rfl

lemma of_readSign (h : readSign cs = (literal, rest)) :
    (literal = [] ∨ literal = ['+'] ∨ literal = ['-']) ∧ cs = literal ++ rest := by
  unfold readSign at h
  split at h <;> cases h <;> simp

lemma readSign_append {sign : List Char} (hsign : sign = [] ∨ sign = ['+'] ∨ sign = ['-'])
    (h : Digits ds) : readSign (sign ++ (ds ++ rest)) = (sign, ds ++ rest) := by
  rcases hsign with rfl | rfl | rfl
  · cases ds with
    | nil => exact absurd rfl h.1
    | cons c ds =>
      have hc := h.2 c List.mem_cons_self
      rw [List.nil_append, List.cons_append, readSign]
      · intro _ ht
        rw [(List.cons.inj ht).1] at hc
        cases hc
      · intro _ ht
        rw [(List.cons.inj ht).1] at hc
        cases hc
  · rfl
  · rfl

lemma of_readExponent (h : readExponent cs = some (literal, rest)) :
    Exponent literal ∧ cs = literal ++ rest := by
  unfold readExponent at h
  split at h
  · rename_i c t
    split at h
    · rename_i hmark
      cases hsign : readSign t with
      | mk sign r =>
        rw [hsign] at h
        obtain ⟨⟨ds, r'⟩, hdigits, heq⟩ := Option.bind_eq_some_iff.1 h
        cases heq
        obtain ⟨hs, rfl⟩ := of_readSign hsign
        obtain ⟨hds, rfl⟩ := of_readDigits hdigits
        exact ⟨.mark hmark hs hds, by simp⟩
    · cases h
      exact ⟨.absent, rfl⟩
  · cases h
    exact ⟨.absent, rfl⟩

lemma readExponent_append (h : Exponent literal) (hrest : StopsNumber rest) :
    readExponent (literal ++ rest) = some (literal, rest) := by
  cases h with
  | absent =>
    cases rest with
    | nil => rfl
    | cons c t =>
      obtain ⟨_, _, he, hE⟩ := hrest c t rfl
      simp [readExponent, he, hE]
  | mark hc hsign h =>
    have hdigits := readDigits_append h fun c t ht => (hrest c t ht).1
    rw [List.cons_append, readExponent, if_pos hc, List.append_assoc, readSign_append hsign h]
    simp [hdigits]

lemma of_readUnsigned (h : readUnsigned cs = some (literal, rest)) :
    ∃ whole fraction exponent, Whole whole ∧ Fraction fraction ∧ Exponent exponent ∧
      literal = whole ++ fraction ++ exponent ∧ cs = literal ++ rest := by
  obtain ⟨⟨whole, r⟩, hwhole, h⟩ := Option.bind_eq_some_iff.1 h
  obtain ⟨⟨fraction, r'⟩, hfraction, h⟩ := Option.bind_eq_some_iff.1 h
  obtain ⟨⟨exponent, r''⟩, hexponent, h⟩ := Option.bind_eq_some_iff.1 h
  cases h
  obtain ⟨hw, rfl⟩ := of_readInteger hwhole
  obtain ⟨hf, rfl⟩ := of_readFraction hfraction
  obtain ⟨he, rfl⟩ := of_readExponent hexponent
  exact ⟨whole, fraction, exponent, hw, hf, he, rfl, by simp⟩

lemma readUnsigned_append {whole fraction exponent : List Char} (hwhole : Whole whole)
    (hfraction : Fraction fraction) (hexponent : Exponent exponent) (hrest : StopsNumber rest) :
    readUnsigned (whole ++ fraction ++ exponent ++ rest) =
      some (whole ++ fraction ++ exponent, rest) := by
  -- behind the fraction stands the exponent or what stops the number
  have hbehind : ∀ c t, exponent ++ rest = c :: t → c.isDigit = false ∧ c ≠ '.' := by
    intro c t ht
    cases hexponent with
    | absent => exact ⟨(hrest c t ht).1, (hrest c t ht).2.1⟩
    | mark hc =>
      rw [← (List.cons.inj ht).1]
      rcases hc with rfl | rfl <;> decide
  have hdigits : StopsDigits (fraction ++ (exponent ++ rest)) := by
    intro c t ht
    cases hfraction with
    | absent => exact (hbehind c t ht).1
    | point =>
      rw [← (List.cons.inj ht).1]
      rfl
  have hpoint : ∀ t, exponent ++ rest ≠ '.' :: t := fun t ht => (hbehind _ t ht).2 rfl
  have hread := readFraction_append hfraction (fun c t ht => (hbehind c t ht).1) hpoint
  simp only [readUnsigned, List.append_assoc, readInteger_append hwhole hdigits, hread,
    readExponent_append hexponent hrest, Option.bind_eq_bind, Option.bind_some, Option.pure_def]

/-- What is read as a number is one. -/
lemma of_readNumber (h : readNumber cs = some (literal, rest)) :
    NumberLiteral literal ∧ cs = literal ++ rest := by
  unfold readNumber at h
  split at h
  · obtain ⟨⟨l, r⟩, hunsigned, heq⟩ := Option.bind_eq_some_iff.1 h
    cases heq
    obtain ⟨whole, fraction, exponent, hw, hf, he, rfl, rfl⟩ := of_readUnsigned hunsigned
    exact ⟨.parts (.inr rfl) hw hf he, rfl⟩
  · obtain ⟨whole, fraction, exponent, hw, hf, he, rfl, rfl⟩ := of_readUnsigned h
    exact ⟨.parts (.inl rfl) hw hf he, rfl⟩

lemma Whole.head_isDigit (h : Whole literal) : ∃ c ds, literal = c :: ds ∧ c.isDigit = true := by
  cases h with
  | zero => exact ⟨'0', [], rfl, rfl⟩
  | digits _ h => exact ⟨_, _, rfl, h.2 _ List.mem_cons_self⟩

/-- A number is read to its end. -/
lemma readNumber_append (h : NumberLiteral literal) (hrest : StopsNumber rest) :
    readNumber (literal ++ rest) = some (literal, rest) := by
  obtain ⟨hsign, hwhole, hfraction, hexponent⟩ := h
  have hunsigned := readUnsigned_append hwhole hfraction hexponent hrest
  rcases hsign with rfl | rfl
  · obtain ⟨c, ds, rfl, hc⟩ := hwhole.head_isDigit
    rw [List.nil_append]
    simp only [List.cons_append] at hunsigned ⊢
    rw [readNumber, hunsigned]
    intro _ ht
    rw [(List.cons.inj ht).1] at hc
    cases hc
  · rw [List.append_assoc, List.singleton_append, readNumber, hunsigned]
    rfl

/-- A number starts with a digit or with its sign. -/
lemma NumberLiteral.head (h : NumberLiteral literal) :
    ∃ c t, literal = c :: t ∧ (c = '-' ∨ c.isDigit = true) := by
  obtain ⟨hsign, hwhole, _, _⟩ := h
  obtain ⟨c, ds, rfl, hc⟩ := hwhole.head_isDigit
  rcases hsign with rfl | rfl
  · exact ⟨c, _, rfl, .inr hc⟩
  · exact ⟨'-', _, rfl, .inl rfl⟩

end Numbers

section Numerals

lemma exists_digitChar (h : c.isDigit = true) : ∃ n < 10, c = Nat.digitChar n := by
  have hchar : ∀ n < 10, Char.ofNat (48 + n) = Nat.digitChar n := by decide
  have hrange : 48 ≤ c.toNat ∧ c.toNat ≤ 57 := by
    simpa [Char.isDigit, UInt32.le_iff_toNat_le] using h
  refine ⟨c.toNat - 48, by omega, ?_⟩
  rw [← hchar _ (by omega), Nat.add_sub_cancel' hrange.1, Char.ofNat_toNat]

/-- Digits that do not start with zero are the numeral of their value, which is positive. -/
lemma toDigits_ofDigitChars (hc : c ≠ '0') (h : Digits (c :: ds)) :
    0 < Nat.ofDigitChars 10 (c :: ds) 0 ∧
      Nat.toDigits 10 (Nat.ofDigitChars 10 (c :: ds) 0) = c :: ds := by
  -- by induction on the digits behind the first one, the last of them first
  induction ds using List.reverseRecOn with
  | nil =>
    obtain ⟨n, hn, rfl⟩ := exists_digitChar (h.2 c List.mem_cons_self)
    have hpos : n ≠ 0 := by
      rintro rfl
      exact hc rfl
    rw [Nat.ofDigitChars_cons_digitChar_of_lt_ten hn, Nat.ofDigitChars_nil]
    exact ⟨by omega, by simpa using Nat.toDigits_of_lt_base hn⟩
  | append_singleton ds d ih =>
    have hd : d.isDigit = true := h.2 d (by simp)
    obtain ⟨n, hn, rfl⟩ := exists_digitChar hd
    obtain ⟨hpos, hnumeral⟩ := ih ⟨List.cons_ne_nil c ds, fun x hx => h.2 x (by
      rw [← List.cons_append]
      exact List.mem_append_left _ hx)⟩
    rw [← List.cons_append, Nat.ofDigitChars_append, Nat.ofDigitChars_cons_digitChar_of_lt_ten hn,
      Nat.ofDigitChars_nil, ← Nat.toDigits_append_toDigits (by decide) hpos hn, hnumeral,
      Nat.toDigits_of_lt_base hn]
    exact ⟨by omega, rfl⟩

/-- A number of digits alone is the numeral of its value. -/
theorem eq_toDigits (h : NumberLiteral literal) (hdigits : ∀ c ∈ literal, c.isDigit = true) :
    literal = Nat.toDigits 10 (Nat.ofDigitChars 10 literal 0) := by
  obtain ⟨hsign, hwhole, hfraction, hexponent⟩ := h
  rcases hsign with rfl | rfl
  · cases hfraction with
    | absent =>
      cases hexponent with
      | absent =>
        rw [List.nil_append, List.append_nil, List.append_nil]
        cases hwhole with
        | zero => rfl
        | digits hc h => exact (toDigits_ofDigitChars hc h).2.symm
      | @mark c hc =>
        have hmark := hdigits c (by simp)
        rcases hc with rfl | rfl <;> cases hmark
    | point =>
      have hpoint := hdigits '.' (by simp)
      cases hpoint
  · have hminus := hdigits '-' (by simp)
    cases hminus

/-- The numeral of a positive number does not start with zero. -/
lemma exists_toDigits {n : Nat} (hn : n ≠ 0) : ∃ c ds, Nat.toDigits 10 n = c :: ds ∧ c ≠ '0' := by
  have hchar : ∀ k < 10, k ≠ 0 → Nat.digitChar k ≠ '0' := by decide
  induction n using Nat.strongRecOn with
  | ind n ih =>
    rw [Nat.toDigits_eq_if (by decide)]
    by_cases hlt : n < 10
    · rw [if_pos hlt]
      exact ⟨_, [], rfl, hchar n hlt hn⟩
    · obtain ⟨c, ds, hds, hc⟩ := ih (n / 10) (by omega) (by omega)
      rw [if_neg hlt, hds]
      exact ⟨c, _, rfl, hc⟩

/-- Numerals are numbers. -/
lemma numberLiteral_toDigits (n : Nat) : NumberLiteral (Nat.toDigits 10 n) := by
  have hdigits : Digits (Nat.toDigits 10 n) := ⟨Nat.toDigits_ne_nil, fun c hc =>
    Nat.isDigit_of_mem_toDigits (by decide) (by decide) hc⟩
  have hwhole : Whole (Nat.toDigits 10 n) := by
    by_cases hn : n = 0
    · subst hn
      exact .zero
    · obtain ⟨c, ds, hds, hc⟩ := exists_toDigits hn
      rw [hds] at hdigits ⊢
      exact .digits hc hdigits
  simpa using NumberLiteral.parts (.inl rfl) hwhole .absent .absent

end Numerals

section Strings

/-- The literal of a string, its escapes being checked for form only. -/
inductive StringLiteral : List Char → Prop
  | empty : StringLiteral []
  | unit {a b c d : Char} {literal : List Char} (h : (hexUnit? a b c d).isSome)
      (rest : StringLiteral literal) : StringLiteral ('\\' :: 'u' :: a :: b :: c :: d :: literal)
  | escape {c : Char} {literal : List Char} (h : (escaped? c).isSome)
      (rest : StringLiteral literal) : StringLiteral ('\\' :: c :: literal)
  | plain {c : Char} {literal : List Char} (hquote : c ≠ '"') (hbackslash : c ≠ '\\')
      (hcontrol : 0x20 ≤ c.toNat) (rest : StringLiteral literal) : StringLiteral (c :: literal)

lemma stringLiteral_of_plain (h : ∀ c ∈ cs, c ≠ '"' ∧ c ≠ '\\' ∧ 0x20 ≤ c.toNat) :
    StringLiteral cs := by
  induction cs with
  | nil => exact .empty
  | cons c cs ih =>
    obtain ⟨⟨hquote, hbackslash, hcontrol⟩, hcs⟩ := List.forall_mem_cons.1 h
    exact .plain hquote hbackslash hcontrol (ih hcs)

/-- A string is read up to its closing quote. -/
theorem readString_eq_some_iff :
    readString cs = some (literal, rest) ↔ StringLiteral literal ∧ cs = literal ++ '"' :: rest := by
  constructor
  · intro h
    fun_induction readString cs generalizing literal rest with
    | case1 => cases h
    | case2 tail =>
      cases h
      exact ⟨.empty, rfl⟩
    | case3 => cases h
    | case4 a b c d tail unit hunit ih =>
      obtain ⟨⟨s, r⟩, hread, heq⟩ := Option.map_eq_some_iff.1 h
      cases heq
      obtain ⟨hs, rfl⟩ := ih hread
      exact ⟨.unit (Option.isSome_of_eq_some hunit) hs, rfl⟩
    | case5 => cases h
    | case6 c tail _ d hescape ih =>
      obtain ⟨⟨s, r⟩, hread, heq⟩ := Option.map_eq_some_iff.1 h
      cases heq
      obtain ⟨hs, rfl⟩ := ih hread
      exact ⟨.escape (Option.isSome_of_eq_some hescape) hs, rfl⟩
    | case7 => cases h
    | case8 c tail hquote _ hbackslash hcontrol ih =>
      obtain ⟨⟨s, r⟩, hread, heq⟩ := Option.map_eq_some_iff.1 h
      cases heq
      -- a backslash at the very end is not followed by a closing quote
      have hne : c ≠ '\\' := by
        intro hc
        cases tail with
        | nil => cases hread
        | cons d tail => exact hbackslash d tail hc rfl
      obtain ⟨hs, rfl⟩ := ih hread
      exact ⟨.plain hquote hne (Nat.not_lt.1 hcontrol) hs, rfl⟩
  · rintro ⟨h, rfl⟩
    induction h with
    | empty => rfl
    | unit h _ ih =>
      obtain ⟨n, hn⟩ := Option.isSome_iff_exists.1 h
      simp [readString, hn, ih]
    | @escape c literal h _ ih =>
      obtain ⟨d, hd⟩ := Option.isSome_iff_exists.1 h
      have hu : c ≠ 'u' := by
        rintro rfl
        cases hd
      simp [readString, hd, ih, hu]
    | plain hquote hbackslash hcontrol _ ih =>
      simp [readString, hbackslash, ih, Nat.not_lt.2 hcontrol]

end Strings

end BlockSparse.Json
