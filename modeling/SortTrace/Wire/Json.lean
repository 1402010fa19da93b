import SortTrace.Numeral.Shortest

/-!
JSON values, how they are written and how they are read. Whole numbers and other numbers are told
apart by their spelling: `1.0`, `1e2` and `-0` are no whole numbers. Objects keep their fields in
order, repeated names included.
-/

namespace SortTrace.Wire

open Numeral

inductive Json where
  | null
  | bool (value : Bool)
  /-- A whole number that fits 64 bits, with or without a sign. -/
  | int (value : Int)
  | real (value : Signed)
  | str (value : String)
  | list (items : List Json)
  | object (fields : List (String × Json))

/-- One character of a written string. Only the quote, the backslash and control characters are
escaped. -/
def escapeChar (c : Char) : List Char :=
  if c = '\x22' then ['\\', '\x22']
  else if c = '\\' then ['\\', '\\']
  else if c = '\x08' then ['\\', 'b']
  else if c = '\x0c' then ['\\', 'f']
  else if c = '\n' then ['\\', 'n']
  else if c = '\r' then ['\\', 'r']
  else if c = '\t' then ['\\', 't']
  else if c.toNat < 0x20 then
    ['\\', 'u', '0', '0', Nat.digitChar (c.toNat / 16), Nat.digitChar (c.toNat % 16)]
  else [c]

def stringChars (s : String) : List Char :=
  '\x22' :: (s.toList.flatMap escapeChar ++ ['\x22'])

def intChars : Int → List Char
  | .ofNat n => Nat.toDigits 10 n
  | .negSucc n => '-' :: Nat.toDigits 10 (n + 1)

/-- A number that is not whole always has a point. -/
def realChars (x : Signed) : List Char :=
  let digits := x.magnitude.text.toList
  (if x.negative then ['-'] else []) ++ digits ++ if digits.contains '.' then [] else ['.', '0']

namespace Json

mutual

def compactChars : Json → List Char
  | null => "null".toList
  | bool b => (if b then "true" else "false").toList
  | int n => intChars n
  | real x => realChars x
  | str s => stringChars s
  | list [] => ['[', ']']
  | list (x :: rest) => '[' :: (compactChars x ++ compactItems rest)
  | object [] => ['\x7b', '\x7d']
  | object ((name, x) :: rest) =>
    '\x7b' :: (stringChars name ++ ':' :: (compactChars x ++ compactFields rest))

def compactItems : List Json → List Char
  | [] => [']']
  | x :: rest => ',' :: (compactChars x ++ compactItems rest)

def compactFields : List (String × Json) → List Char
  | [] => ['\x7d']
  | (name, x) :: rest => ',' :: (stringChars name ++ ':' :: (compactChars x ++ compactFields rest))

end

def lineStart (indent : Nat) : List Char := '\n' :: List.replicate indent ' '

mutual

/-- One element on each line, two blanks further in than what holds it. -/
def prettyChars (indent : Nat) : Json → List Char
  | null => "null".toList
  | bool b => (if b then "true" else "false").toList
  | int n => intChars n
  | real x => realChars x
  | str s => stringChars s
  | list [] => ['[', ']']
  | list (x :: rest) =>
    '[' :: (lineStart (indent + 2) ++ prettyChars (indent + 2) x ++ prettyItems indent rest)
  | object [] => ['\x7b', '\x7d']
  | object ((name, x) :: rest) =>
    '\x7b' :: (lineStart (indent + 2) ++ stringChars name ++ ':' :: ' ' ::
      (prettyChars (indent + 2) x ++ prettyFields indent rest))

def prettyItems (indent : Nat) : List Json → List Char
  | [] => lineStart indent ++ [']']
  | x :: rest =>
    ',' :: (lineStart (indent + 2) ++ prettyChars (indent + 2) x ++ prettyItems indent rest)

def prettyFields (indent : Nat) : List (String × Json) → List Char
  | [] => lineStart indent ++ ['\x7d']
  | (name, x) :: rest =>
    ',' :: (lineStart (indent + 2) ++ stringChars name ++ ':' :: ' ' ::
      (prettyChars (indent + 2) x ++ prettyFields indent rest))

end

def compact (x : Json) : String := String.ofList x.compactChars

def pretty (x : Json) : String := String.ofList (x.prettyChars 0)

end Json

def isSpace (c : Char) : Bool := c = ' ' || c = '\n' || c = '\t' || c = '\r'

def skipSpace (text : List Char) : List Char := text.dropWhile isSpace

def hexValue? (c : Char) : Option Nat :=
  if c.isDigit then some (c.toNat - '0'.toNat)
  else if 'a' ≤ c ∧ c ≤ 'f' then some (c.toNat - 'a'.toNat + 10)
  else if 'A' ≤ c ∧ c ≤ 'F' then some (c.toNat - 'A'.toNat + 10)
  else none

def hexUnit? : List Char → Option (Nat × List Char)
  | a :: b :: c :: d :: rest => do
    let a ← hexValue? a
    let b ← hexValue? b
    let c ← hexValue? c
    let d ← hexValue? d
    return (((a * 16 + b) * 16 + c) * 16 + d, rest)
  | _ => none

/-- The character of a `\u` escape. A code point above ffff is written as two units; one half of
such a pair alone is refused. -/
def unicodeEscape? (text : List Char) : Option (Char × List Char) := do
  let (high, rest) ← hexUnit? text
  if 0xd800 ≤ high && high < 0xdc00 then
    match rest with
    | '\\' :: 'u' :: rest =>
      let (low, rest) ← hexUnit? rest
      if 0xdc00 ≤ low && low < 0xe000 then
        return (Char.ofNat (0x10000 + (high - 0xd800) * 0x400 + (low - 0xdc00)), rest)
      else none
    | _ => none
  else if 0xdc00 ≤ high && high < 0xe000 then none
  else return (Char.ofNat high, rest)

def escape? : List Char → Option (Char × List Char)
  | '\x22' :: rest => some ('\x22', rest)
  | '\\' :: rest => some ('\\', rest)
  | '/' :: rest => some ('/', rest)
  | 'b' :: rest => some ('\x08', rest)
  | 'f' :: rest => some ('\x0c', rest)
  | 'n' :: rest => some ('\n', rest)
  | 'r' :: rest => some ('\r', rest)
  | 't' :: rest => some ('\t', rest)
  | 'u' :: rest => unicodeEscape? rest
  | _ => none

/-- The content of a string up to its closing quote. Control characters must be escaped. -/
def stringBody? : Nat → List Char → Option (List Char × List Char)
  | 0, _ => none
  | _ + 1, [] => none
  | fuel + 1, c :: rest =>
    if c = '\x22' then some ([], rest)
    else if c = '\\' then do
      let (c, rest) ← escape? rest
      let (more, rest) ← stringBody? fuel rest
      return (c :: more, rest)
    else if c.toNat < 0x20 then none
    else do
      let (more, rest) ← stringBody? fuel rest
      return (c :: more, rest)

def string? (text : List Char) : Option (String × List Char) :=
  (stringBody? (text.length + 1) text).map fun (body, rest) => (String.ofList body, rest)

/-- The whole digits of a number: no zero in front of another digit. -/
def wholeDigits? (text : List Char) : Option (List Char × List Char) :=
  match text with
  | '0' :: c :: rest => if c.isDigit then none else some (['0'], c :: rest)
  | _ =>
    match text.takeWhile Char.isDigit with
    | [] => none
    | digits => some (digits, text.dropWhile Char.isDigit)

def fractionPart? : List Char → Option (List Char × List Char)
  | '.' :: rest =>
    match rest.takeWhile Char.isDigit with
    | [] => none
    | digits => some ('.' :: digits, rest.dropWhile Char.isDigit)
  | text => some ([], text)

def exponentPart? : List Char → Option (List Char × List Char)
  | mark :: rest =>
    if mark = 'e' || mark = 'E' then
      let (sign, rest) := match rest with
        | '+' :: r => ([], r)
        | '-' :: r => (['-'], r)
        | r => ([], r)
      match rest.takeWhile Char.isDigit with
      | [] => none
      | digits => some ('e' :: (sign ++ digits), rest.dropWhile Char.isDigit)
    else some ([], mark :: rest)
  | [] => some ([], [])

/-- A number without its sign. Whole numbers too large for 64 bits count as other numbers, and so
does zero with a minus; a number beyond the finite ones is refused. -/
def unsigned? (negative : Bool) (text : List Char) : Option (Json × List Char) := do
  let (whole, rest) ← wholeDigits? text
  let (fraction, rest) ← fractionPart? rest
  let (exponent, rest) ← exponentPart? rest
  let n := digitsValue whole
  if fraction.isEmpty && exponent.isEmpty && negative && 0 < n && n ≤ 2 ^ 63 then
    return (.int (-n), rest)
  else if fraction.isEmpty && exponent.isEmpty && !negative && n < 2 ^ 64 then
    return (.int n, rest)
  else
    let value ← Magnitude.ofText? (whole ++ fraction ++ exponent)
    if value.isInfinite then none else return (.real ⟨negative, value⟩, rest)

def number? : List Char → Option (Json × List Char)
  | '-' :: rest => unsigned? true rest
  | text => unsigned? false text

def word? (word : List Char) (value : Json) (text : List Char) : Option (Json × List Char) :=
  if word.isPrefixOf text then some (value, text.drop word.length) else none

def maxDepth : Nat := 127

mutual

/-- The value at the front of a text. `depth` further levels may be opened. -/
def value? : Nat → (depth : Nat) → List Char → Option (Json × List Char)
  | 0, _, _ => none
  | fuel + 1, depth, text =>
    match skipSpace text with
    | 'n' :: rest => word? "ull".toList .null rest
    | 't' :: rest => word? "rue".toList (.bool true) rest
    | 'f' :: rest => word? "alse".toList (.bool false) rest
    | '\x22' :: rest => (string? rest).map fun (s, rest) => (.str s, rest)
    | '[' :: rest =>
      match depth with
      | 0 => none
      | depth + 1 =>
        match skipSpace rest with
        | ']' :: rest => some (.list [], rest)
        | rest => (items? fuel depth rest).map fun (xs, rest) => (.list xs, rest)
    | '\x7b' :: rest =>
      match depth with
      | 0 => none
      | depth + 1 =>
        match skipSpace rest with
        | '\x7d' :: rest => some (.object [], rest)
        | rest => (fields? fuel depth rest).map fun (fs, rest) => (.object fs, rest)
    | rest => number? rest

def items? : Nat → (depth : Nat) → List Char → Option (List Json × List Char)
  | 0, _, _ => none
  | fuel + 1, depth, text => do
    let (x, rest) ← value? fuel depth text
    match skipSpace rest with
    | ']' :: rest => return ([x], rest)
    | ',' :: rest =>
      let (xs, rest) ← items? fuel depth rest
      return (x :: xs, rest)
    | _ => none

def fields? : Nat → (depth : Nat) → List Char → Option (List (String × Json) × List Char)
  | 0, _, _ => none
  | fuel + 1, depth, text => do
    match skipSpace text with
    | '\x22' :: rest =>
      let (name, rest) ← string? rest
      match skipSpace rest with
      | ':' :: rest =>
        let (x, rest) ← value? fuel depth rest
        match skipSpace rest with
        | '\x7d' :: rest => return ([(name, x)], rest)
        | ',' :: rest =>
          let (fs, rest) ← fields? fuel depth rest
          return ((name, x) :: fs, rest)
        | _ => none
      | _ => none
    | _ => none

end

def Json.ofText? (text : String) : Option Json :=
  let chars := text.toList
  match value? (chars.length + 1) maxDepth chars with
  | some (x, rest) => if (skipSpace rest).isEmpty then some x else none
  | none => none

end SortTrace.Wire
