import BlockSparse.Size

/-! JSON text. A reading keeps numbers and strings as they are written; what they mean is `natural?`
and `unescape`. Strings are read with their escapes checked for form only, so that an unpaired
surrogate is found when the string is unescaped. -/
namespace BlockSparse

/-- A JSON value. Numbers and strings are kept as written, strings without their quotes. -/
inductive Json where
  | null
  | bool (b : Bool)
  | number (literal : List Char)
  | string (literal : List Char)
  | array (items : List Json)
  | object (fields : List (List Char × Json))

namespace Json

/-- The blanks that may stand between tokens. -/
def isBlank (c : Char) : Bool := c = ' ' || c = '\n' || c = '\t' || c = '\x0d'

/-- The text after the blanks at its front. -/
def skipBlanks (cs : List Char) : List Char := cs.dropWhile isBlank

/-! Numbers -/

/-- The longest run of digits at the front, which must not be empty, and the rest. -/
def readDigits (cs : List Char) : Option (List Char × List Char) :=
  match cs.takeWhile Char.isDigit with
  | [] => none
  | ds => some (ds, cs.dropWhile Char.isDigit)

/-- A zero alone, or digits that do not start with zero. -/
def readInteger : List Char → Option (List Char × List Char)
  | '0' :: rest => some (['0'], rest)
  | cs => readDigits cs

/-- A point with digits after it, or nothing. -/
def readFraction : List Char → Option (List Char × List Char)
  | '.' :: rest => do
    let (ds, rest) ← readDigits rest
    pure ('.' :: ds, rest)
  | cs => some ([], cs)

/-- The sign of an exponent, which may be missing. -/
def readSign : List Char → List Char × List Char
  | '+' :: rest => (['+'], rest)
  | '-' :: rest => (['-'], rest)
  | cs => ([], cs)

/-- An exponent with its mark, or nothing. -/
def readExponent : List Char → Option (List Char × List Char)
  | c :: rest =>
    if c = 'e' ∨ c = 'E' then do
      let (sign, rest) := readSign rest
      let (ds, rest) ← readDigits rest
      pure (c :: sign ++ ds, rest)
    else some ([], c :: rest)
  | [] => some ([], [])

/-- A number without its sign. -/
def readUnsigned (cs : List Char) : Option (List Char × List Char) := do
  let (whole, cs) ← readInteger cs
  let (fraction, cs) ← readFraction cs
  let (exponent, cs) ← readExponent cs
  pure (whole ++ fraction ++ exponent, cs)

/-- The literal of a number at the front of a text, and the rest. -/
def readNumber : List Char → Option (List Char × List Char)
  | '-' :: rest => do
    let (literal, rest) ← readUnsigned rest
    pure ('-' :: literal, rest)
  | cs => readUnsigned cs

/-! Strings -/

/-- The value of a hexadecimal digit of either case. -/
def hexDigit? (c : Char) : Option Nat :=
  if '0' ≤ c ∧ c ≤ '9' then some (c.toNat - '0'.toNat)
  else if 'a' ≤ c ∧ c ≤ 'f' then some (c.toNat - 'a'.toNat + 10)
  else if 'A' ≤ c ∧ c ≤ 'F' then some (c.toNat - 'A'.toNat + 10)
  else none

/-- The number written by four hexadecimal digits. -/
def hexUnit? (a b c d : Char) : Option Nat := do
  let a ← hexDigit? a
  let b ← hexDigit? b
  let c ← hexDigit? c
  let d ← hexDigit? d
  pure (((a * 16 + b) * 16 + c) * 16 + d)

/-- The character for which a backslash and a letter stand. -/
def escaped? : Char → Option Char
  | '"' => some '"'
  | '\\' => some '\\'
  | '/' => some '/'
  | 'b' => some '\x08'
  | 'f' => some '\x0c'
  | 'n' => some '\n'
  | 'r' => some '\x0d'
  | 't' => some '\t'
  | _ => none

/-- The literal of a string whose opening quote has been read, and the rest after its closing
quote. -/
def readString : List Char → Option (List Char × List Char)
  | [] => none
  | '"' :: rest => some ([], rest)
  | '\\' :: 'u' :: a :: b :: c :: d :: rest =>
    match hexUnit? a b c d with
    | none => none
    | some _ => (readString rest).map fun (s, r) => ('\\' :: 'u' :: a :: b :: c :: d :: s, r)
  | '\\' :: c :: rest =>
    match escaped? c with
    | none => none
    | some _ => (readString rest).map fun (s, r) => ('\\' :: c :: s, r)
  | c :: rest =>
    if c.toNat < 0x20 then none else (readString rest).map fun (s, r) => (c :: s, r)

/-- The text for which the literal of a string stands. Surrogates have to come in pairs. -/
def unescape : List Char → Option (List Char)
  | [] => some []
  | '\\' :: 'u' :: a :: b :: c :: d :: rest =>
    match hexUnit? a b c d with
    | none => none
    | some unit =>
      if unit < 0xD800 ∨ 0xDFFF < unit then (unescape rest).map (Char.ofNat unit :: ·)
      else if 0xDBFF < unit then none
      else match rest with
        | '\\' :: 'u' :: e :: f :: g :: h :: rest =>
          match hexUnit? e f g h with
          | none => none
          | some low =>
            if 0xDC00 ≤ low ∧ low ≤ 0xDFFF then
              (unescape rest).map
                (Char.ofNat (0x10000 + (unit - 0xD800) * 0x400 + (low - 0xDC00)) :: ·)
            else none
        | _ => none
  | '\\' :: c :: rest =>
    match escaped? c with
    | none => none
    | some c => (unescape rest).map (c :: ·)
  | c :: rest => (unescape rest).map (c :: ·)

/-! Values -/

/-- What is left after the given characters at the front. -/
def expect : List Char → List Char → Option (List Char)
  | [], cs => some cs
  | c :: word, d :: cs => if c = d then expect word cs else none
  | _ :: _, [] => none

mutual

/-- A value at the front of a text, and the rest. The first argument bounds the number of steps. -/
def readValue : Nat → List Char → Option (Json × List Char)
  | 0, _ => none
  | fuel + 1, cs =>
    match skipBlanks cs with
    | [] => none
    | 'n' :: rest => (expect ['u', 'l', 'l'] rest).map fun r => (null, r)
    | 't' :: rest => (expect ['r', 'u', 'e'] rest).map fun r => (bool true, r)
    | 'f' :: rest => (expect ['a', 'l', 's', 'e'] rest).map fun r => (bool false, r)
    | '"' :: rest => (readString rest).map fun (s, r) => (string s, r)
    | '[' :: rest =>
      match skipBlanks rest with
      | ']' :: r => some (array [], r)
      | r => (readItems fuel r).map fun (items, r) => (array items, r)
    | '\x7b' :: rest =>
      match skipBlanks rest with
      | '\x7d' :: r => some (object [], r)
      | r => (readFields fuel r).map fun (fields, r) => (object fields, r)
    | cs => (readNumber cs).map fun (literal, r) => (number literal, r)

/-- The items of an array, of which there is at least one, and the rest after the closing
bracket. -/
def readItems : Nat → List Char → Option (List Json × List Char)
  | 0, _ => none
  | fuel + 1, cs => do
    let (item, cs) ← readValue fuel cs
    match skipBlanks cs with
    | ']' :: r => some ([item], r)
    | ',' :: r => (readItems fuel r).map fun (items, r) => (item :: items, r)
    | _ => none

/-- The fields of an object, of which there is at least one, and the rest after the closing
brace. -/
def readFields : Nat → List Char → Option (List (List Char × Json) × List Char)
  | 0, _ => none
  | fuel + 1, cs =>
    match skipBlanks cs with
    | '"' :: r => do
      let (name, r) ← readString r
      let r ← expect [':'] (skipBlanks r)
      let (value, r) ← readValue fuel r
      match skipBlanks r with
      | '\x7d' :: r => some ([(name, value)], r)
      | ',' :: r => (readFields fuel r).map fun (fields, r) => ((name, value) :: fields, r)
      | _ => none
    | _ => none

end

/-- Reads a text that holds one value and nothing else but blanks. Of two steps in a row at least
one takes a character, so twice the length bounds the number of steps. -/
def ofText? (cs : List Char) : Option Json :=
  match readValue (2 * cs.length + 2) cs with
  | some (value, rest) => if (skipBlanks rest).isEmpty then some value else none
  | none => none

mutual

/-- The compact text of a value, without blanks. -/
def text : Json → List Char
  | null => ['n', 'u', 'l', 'l']
  | bool true => ['t', 'r', 'u', 'e']
  | bool false => ['f', 'a', 'l', 's', 'e']
  | number literal => literal
  | string literal => '"' :: literal ++ ['"']
  | array items => '[' :: itemsText items ++ [']']
  | object fields => '\x7b' :: fieldsText fields ++ ['\x7d']

/-- The texts of items, separated by commas. -/
def itemsText : List Json → List Char
  | [] => []
  | [item] => text item
  | item :: next :: items => text item ++ ',' :: itemsText (next :: items)

/-- The texts of fields, separated by commas. -/
def fieldsText : List (List Char × Json) → List Char
  | [] => []
  | [(name, value)] => '"' :: name ++ '"' :: ':' :: text value
  | (name, value) :: next :: fields =>
    '"' :: name ++ '"' :: ':' :: text value ++ ',' :: fieldsText (next :: fields)

end

/-! Meaning of values -/

/-- The bound below which the natural numbers of a configuration lie: they are sizes. -/
def naturalBound : Nat := Size.bound

/-- The number of a literal that consists of digits alone and lies below the bound. -/
def natural? : Json → Option Nat
  | number literal =>
    if literal.all Char.isDigit ∧ Nat.ofDigitChars 10 literal 0 < naturalBound then
      some (Nat.ofDigitChars 10 literal 0)
    else none
  | _ => none

/-- The numbers of an array of natural numbers. -/
def naturals? : Json → Option (List Nat)
  | array items => items.mapM natural?
  | _ => none

/-- A natural number as a value. -/
def ofNatural (n : Nat) : Json := number (Nat.toDigits 10 n)

/-- A list of natural numbers as a value. -/
def ofNaturals (ns : List Nat) : Json := array (ns.map ofNatural)

/-- What is written for a number below the bound reads as that number. -/
theorem natural?_ofNatural {n : Nat} (h : n < naturalBound) : (ofNatural n).natural? = some n := by
  have hd : (Nat.toDigits 10 n).all Char.isDigit = true :=
    List.all_eq_true.2 fun c hc => Nat.isDigit_of_mem_toDigits (by decide) (by decide) hc
  simp [natural?, ofNatural, hd, Nat.ofDigitChars_toDigits, h]

example : (ofText? ['[', '1', ',', ' ', '2', ']']).bind naturals? = some [1, 2] := by decide
example : ofText? ['[', '1', ',', ']'] = none := by decide
example : unescape ['a', '\\', 'u', '0', '0', '4', '2'] = some ['a', 'B'] := by decide

end Json
end BlockSparse
