import SortTrace.Proofs.Numeral.Positional
import SortTrace.Script.Scan

/-!
Spelling: the tokens that a text spells, one lexeme after the other. Where a text stands in a script
does not matter.
-/

namespace SortTrace.Script

open Numeral Text

def Spells (cs : List Char) (ks : List TokenKind) : Prop :=
  ∀ p, ∃ tokens, scanFrom cs 0 p = .ok tokens ∧ tokens.map Token.kind = ks

namespace Spells

variable {rest : List Char} {ks : List TokenKind}

theorem scanFrom_skip (xs rest : List Char) (p : Position) :
    ∃ q, scanFrom (xs ++ rest) xs.length p = scanFrom rest 0 q := by
  induction xs generalizing p with
  | nil => exact ⟨p, rfl⟩
  | cons c xs ih => exact ih (p.after c)

theorem nil : Spells [] [.eof] := fun _ => ⟨_, rfl, rfl⟩

theorem gap {c : Char} {xs : List Char} (front : lexemeAt c (xs ++ rest) = .gap xs.length)
    (behind : Spells rest ks) : Spells (c :: (xs ++ rest)) ks := by
  intro p
  obtain ⟨q, skipped⟩ := scanFrom_skip xs rest (p.after c)
  obtain ⟨tokens, scanned, kinds⟩ := behind q
  refine ⟨tokens, ?_, kinds⟩
  simp only [scanFrom, front]
  rw [skipped, scanned]

theorem token {c : Char} {xs : List Char} {k : TokenKind}
    (front : lexemeAt c (xs ++ rest) = .token k xs.length) (behind : Spells rest ks) :
    Spells (c :: (xs ++ rest)) (k :: ks) := by
  intro p
  obtain ⟨q, skipped⟩ := scanFrom_skip xs rest (p.after c)
  obtain ⟨tokens, scanned, kinds⟩ := behind q
  refine ⟨⟨k, .ofLength p (xs.length + 1)⟩ :: tokens, ?_, by simp [kinds]⟩
  simp only [scanFrom, front]
  rw [skipped, scanned]

theorem single {c : Char} {k : TokenKind} (front : lexemeAt c rest = .token k 0)
    (behind : Spells rest ks) : Spells (c :: rest) (k :: ks) :=
  @token rest ks c [] k front behind

theorem blank {c : Char} (white : isBlank c = true) (behind : Spells rest ks) :
    Spells (c :: rest) ks := by
  have front : lexemeAt c rest = .gap 0 := by simp [lexemeAt, white]
  exact @gap rest ks c [] front behind

end Spells

/-- Spelled like a name, reserved or not. -/
def isWord (name : String) : Bool :=
  match name.toList with
  | first :: rest => isNameStart first && rest.all isNamePart
  | [] => false

def isIdentifier (name : String) : Bool :=
  match name.toList with
  | first :: rest => isNameStart first && rest.all isNamePart && (Keyword.ofText? name).isNone
  | [] => false

structure Identifier where
  name : String
  valid : isIdentifier name = true

theorem code_of_isAlpha {c : Char} (letter : c.isAlpha = true) :
    (65 ≤ c.toNat ∧ c.toNat ≤ 90) ∨ (97 ≤ c.toNat ∧ c.toNat ≤ 122) := by
  have cases : (decide (65 ≤ c.val ∧ c.val ≤ 90) ||
      (decide (97 ≤ c.val) && decide (c.val ≤ 122))) = true := letter
  simp only [Bool.or_eq_true, Bool.and_eq_true, decide_eq_true_eq, UInt32.le_iff_toNat_le] at cases
  exact cases

theorem code_of_isNamePart {c : Char} (part : isNamePart c = true) :
    (48 ≤ c.toNat ∧ c.toNat ≤ 57) ∨ (65 ≤ c.toNat ∧ c.toNat ≤ 90) ∨
      (97 ≤ c.toNat ∧ c.toNat ≤ 122) ∨ c.toNat = 95 ∨ c.toNat = 36 := by
  simp only [isNamePart, Char.isAlphanum, Bool.or_eq_true, decide_eq_true_eq] at part
  rcases part with ((letter | digit) | rfl) | rfl
  · rcases code_of_isAlpha letter with upper | lower
    · exact .inr (.inl upper)
    · exact .inr (.inr (.inl lower))
  · exact .inl (Char.isDigit_iff_toNat.mp digit)
  · exact .inr (.inr (.inr (.inl rfl)))
  · exact .inr (.inr (.inr (.inr rfl)))

theorem isNamePart_of_isNameStart {c : Char} (start : isNameStart c = true) :
    isNamePart c = true := by
  simp only [isNameStart, isNamePart, Char.isAlphanum, Bool.or_eq_true, decide_eq_true_eq]
    at start ⊢
  rcases start with (letter | rfl) | rfl
  · exact .inl (.inl (.inl letter))
  · exact .inl (.inr rfl)
  · exact .inr rfl

theorem isDigit_of_isNameStart {c : Char} (start : isNameStart c = true) : c.isDigit = false := by
  simp only [isNameStart, Bool.or_eq_true, decide_eq_true_eq] at start
  rcases start with (letter | rfl) | rfl
  · refine Bool.eq_false_iff.mpr fun digit => ?_
    have high : c.toNat ≤ 57 := (Char.isDigit_iff_toNat.mp digit).2
    rcases code_of_isAlpha letter with upper | lower <;> omega
  · rfl
  · rfl

theorem isNamePart_of_isDigit {c : Char} (digit : c.isDigit = true) : isNamePart c = true := by
  simp [isNamePart, Char.isAlphanum, digit]

theorem isBlank_isNamePart {c : Char} (part : isNamePart c = true) : isBlank c = false := by
  have code := code_of_isNamePart part
  simp only [isBlank, blankRanges, List.any_cons, List.any_nil, Bool.or_eq_false_iff,
    Bool.and_eq_false_iff, decide_eq_false_iff_not, and_true]
  omega

theorem ne_of_isNamePart {c d : Char} (part : isNamePart c = true) (other : isNamePart d = false) :
    c ≠ d := by
  rintro rfl
  rw [part] at other
  cases other

def NameEnds (rest : List Char) : Prop := ∀ c, rest.head? = some c → isNamePart c = false

theorem NameEnds.takeWhile {rest : List Char} (ends : NameEnds rest) :
    rest.takeWhile isNamePart = [] := by
  rcases rest with _ | ⟨c, rest⟩
  · rfl
  · simp [ends c rfl]

theorem NameEnds.cons {c : Char} (other : isNamePart c = false) (rest : List Char) :
    NameEnds (c :: rest) := by
  intro d head
  cases head
  exact other

def wordToken (name : String) : TokenKind :=
  match Keyword.ofText? name with
  | some w => .word w
  | none => .ident name

theorem Spells.word {name : String} {first : Char} {tail rest : List Char} {ks : List TokenKind}
    (text : name.toList = first :: tail) (start : isNameStart first = true)
    (parts : ∀ c ∈ tail, isNamePart c = true) (ends : NameEnds rest) (behind : Spells rest ks) :
    Spells (name.toList ++ rest) (wordToken name :: ks) := by
  have part := isNamePart_of_isNameStart start
  have whole : (tail ++ rest).takeWhile isNamePart = tail := by
    rw [List.takeWhile_append_of_pos parts, ends.takeWhile, List.append_nil]
  have same : String.ofList (first :: tail) = name := by
    rw [← text, String.ofList_toList]
  have lexeme : nameLexeme first (tail ++ rest) = .token (wordToken name) tail.length := by
    simp only [nameLexeme, whole, same]
    rfl
  have front : lexemeAt first (tail ++ rest) = .token (wordToken name) tail.length := by
    simp [lexemeAt, isBlank_isNamePart part, isDigit_of_isNameStart start,
      ne_of_isNamePart part (d := '/') rfl, ne_of_isNamePart part (d := '.') rfl,
      ne_of_isNamePart part (d := '\x22') rfl, ne_of_isNamePart part (d := '\x27') rfl,
      ne_of_isNamePart part (d := '\x60') rfl, start, lexeme]
  rw [text]
  exact .token front behind

theorem Identifier.chars (id : Identifier) :
    ∃ first tail, id.name.toList = first :: tail ∧ isNameStart first = true ∧
      (∀ c ∈ tail, isNamePart c = true) ∧ wordToken id.name = .ident id.name := by
  have valid := id.valid
  unfold isIdentifier at valid
  split at valid
  · rename_i first tail text
    simp only [Bool.and_eq_true, List.all_eq_true, Option.isNone_iff_eq_none] at valid
    obtain ⟨⟨start, parts⟩, free⟩ := valid
    exact ⟨first, tail, text, start, parts, by simp only [wordToken, free]⟩
  · cases valid

theorem Spells.name (id : Identifier) {rest : List Char} {ks : List TokenKind}
    (ends : NameEnds rest) (behind : Spells rest ks) :
    Spells (id.name.toList ++ rest) (.ident id.name :: ks) := by
  obtain ⟨first, tail, text, start, parts, token⟩ := id.chars
  rw [← token]
  exact .word text start parts ends behind

theorem isWord_of_isIdentifier {name : String} (identifier : isIdentifier name = true) :
    isWord name = true := by
  unfold isIdentifier at identifier
  unfold isWord
  split at identifier
  · rw [Bool.and_eq_true] at identifier
    exact identifier.1
  · cases identifier

theorem isWord_text (w : Keyword) : isWord w.text = true := by
  cases w <;> decide

theorem isWord_chars {name : String} (word : isWord name = true) :
    ∃ first tail, name.toList = first :: tail ∧ isNameStart first = true ∧
      ∀ c ∈ tail, isNamePart c = true := by
  unfold isWord at word
  split at word
  · rename_i first tail text
    simp only [Bool.and_eq_true, List.all_eq_true] at word
    exact ⟨first, tail, text, word.1, word.2⟩
  · cases word

theorem Spells.keyword (w : Keyword) {rest : List Char} {ks : List TokenKind}
    (ends : NameEnds rest) (behind : Spells rest ks) :
    Spells (w.text.toList ++ rest) (.word w :: ks) := by
  obtain ⟨first, tail, text, start, parts⟩ := isWord_chars (isWord_text w)
  have token : wordToken w.text = .word w := by
    simp only [wordToken, Keyword.ofText?_text]
  rw [← token]
  exact .word text start parts ends behind

theorem startsWithDigit_word {name : String} (word : isWord name = true) (rest : List Char) :
    startsWithDigit (name.toList ++ rest) = false := by
  obtain ⟨first, tail, text, start, -⟩ := isWord_chars word
  rw [text]
  exact isDigit_of_isNameStart start

theorem Spells.dot {cs : List Char} {ks : List TokenKind} (point : startsWithDigit cs = false)
    (behind : Spells cs ks) : Spells ('.' :: cs) (.mark .dot :: ks) := by
  have blank : isBlank '.' = false := rfl
  have other : isNameStart '.' = false := rfl
  have digit : '.'.isDigit = false := rfl
  have mark : markAt? '.' cs = some (.dot, 0) := rfl
  have front : lexemeAt '.' cs = .token (.mark .dot) 0 := by
    simp [lexemeAt, blank, digit, point, other, mark]
  exact .single front behind

/-- No number goes on here: a point may follow, but not with a digit behind it. -/
def NumberEnds (rest : List Char) : Prop := NameEnds rest ∧ fractionLength rest = 0

theorem NumberEnds.nil : NumberEnds [] := ⟨fun _ impossible => (by cases impossible), rfl⟩

theorem NumberEnds.cons {c : Char} (other : isNamePart c = false) (point : c ≠ '.')
    (rest : List Char) : NumberEnds (c :: rest) := by
  refine ⟨.cons other rest, ?_⟩
  unfold fractionLength
  split
  · rename_i same
    exact absurd (List.cons.inj same).1 point
  · rfl

theorem NumberEnds.point {cs : List Char} (point : startsWithDigit cs = false) :
    NumberEnds ('.' :: cs) := by
  refine ⟨.cons rfl cs, ?_⟩
  have none : cs.takeWhile Char.isDigit = [] := by
    rcases cs with _ | ⟨c, cs⟩
    · rfl
    · exact List.takeWhile_cons_of_neg (by simpa [startsWithDigit] using point)
  simp only [fractionLength, none, List.length_nil]

theorem exponentLength_ends {rest : List Char} (ends : NumberEnds rest) :
    exponentLength rest = 0 := by
  rcases rest with _ | ⟨c, rest⟩
  · rfl
  · have other := ends.1 c rfl
    have small : c ≠ 'e' := by
      rintro rfl
      cases other
    have large : c ≠ 'E' := by
      rintro rfl
      cases other
    simp [exponentLength, small, large]

theorem takeWhile_run {digits rest : List Char} (all : ∀ c ∈ digits, c.isDigit = true)
    (ends : NameEnds rest) :
    (digits ++ rest).takeWhile (fun c => c.isDigit || c = '_') = digits ∧
      (digits ++ rest).takeWhile Char.isDigit = digits := by
  rw [List.takeWhile_append_of_pos fun c member => by simp [all c member],
    List.takeWhile_append_of_pos all]
  rcases rest with _ | ⟨c, rest⟩
  · simp
  · have other := ends c rfl
    simp only [isNamePart, Char.isAlphanum, Bool.or_eq_false_iff] at other
    simp [other]

theorem numberLength_digits {first : Char} {digits rest : List Char}
    (all : ∀ c ∈ digits, c.isDigit = true) (ends : NumberEnds rest) :
    numberLength first (digits ++ rest) = digits.length := by
  simp only [numberLength, (takeWhile_run all ends.1).1, List.drop_left, ends.2, ite_self,
    List.drop_zero, exponentLength_ends ends, Nat.add_zero]

theorem numberLength_fraction {first : Char} {digits places rest : List Char}
    (digit : first.isDigit = true) (all : ∀ c ∈ digits, c.isDigit = true) (nonempty : places ≠ [])
    (allPlaces : ∀ c ∈ places, c.isDigit = true) (ends : NumberEnds rest) :
    numberLength first (digits ++ '.' :: (places ++ rest)) =
      digits.length + (places.length + 1) := by
  have notPoint : first ≠ '.' := by
    rintro rfl
    cases digit
  obtain ⟨n, length⟩ : ∃ n, places.length = n + 1 :=
    ⟨places.length - 1, by have positive := List.length_pos_iff.mpr nonempty; omega⟩
  have fraction : fractionLength ('.' :: (places ++ rest)) = places.length + 1 := by
    simp only [fractionLength, (takeWhile_run allPlaces ends.1).2, length]
  have behind : ('.' :: (places ++ rest)).drop (places.length + 1) = rest := by
    rw [List.drop_succ_cons, List.drop_left]
  have point : NameEnds ('.' :: (places ++ rest)) := .cons (by decide) _
  have run := (takeWhile_run all point).1
  simp only [numberLength, run, List.drop_left, if_neg notPoint, fraction, behind,
    exponentLength_ends ends, Nat.add_zero]

theorem numberLength_positional {first : Char} {tail rest : List Char}
    (shape : IsPositional (first :: tail)) (ends : NumberEnds rest) :
    first.isDigit = true ∧ numberLength first (tail ++ rest) = tail.length ∧
      ∀ c ∈ first :: tail, c ≠ '_' := by
  have notUnderscore {c : Char} (digit : c.isDigit = true) : c ≠ '_' := by
    rintro rfl
    cases digit
  generalize text : first :: tail = cs at shape ⊢
  cases shape with
  | whole nonempty all =>
    subst text
    have digit := all first (by simp)
    exact ⟨digit, numberLength_digits (fun c member => all c (by simp [member])) ends,
      fun c member => notUnderscore (all c member)⟩
  | @fraction digits places nonempty all nonemptyPlaces allPlaces =>
    obtain ⟨other, digits, rfl⟩ := List.exists_cons_of_ne_nil nonempty
    rw [List.cons_append] at text
    obtain ⟨rfl, rfl⟩ := List.cons.inj text
    have digit := all first (by simp)
    have length := numberLength_fraction digit
      (fun c member => all c (List.mem_cons_of_mem first member)) nonemptyPlaces allPlaces ends
    refine ⟨digit, ?_, ?_⟩
    · rw [List.append_assoc, List.cons_append, length]
      simp
    · refine List.forall_mem_append.mpr ⟨fun c member => notUnderscore (all c member), ?_⟩
      exact List.forall_mem_cons.mpr
        ⟨by decide, fun c member => notUnderscore (allPlaces c member)⟩

theorem Spells.number {cs : List Char} {v : Magnitude} (shape : IsPositional cs)
    (value : Magnitude.ofText? cs = some v) {rest : List Char} {ks : List TokenKind}
    (ends : NumberEnds rest) (behind : Spells rest ks) : Spells (cs ++ rest) (.number v :: ks) := by
  rcases cs with _ | ⟨first, tail⟩
  · cases value
  obtain ⟨digit, length, plain⟩ := numberLength_positional shape ends
  have part := isNamePart_of_isDigit digit
  have kept : (first :: (tail ++ rest).take tail.length).filter (fun c => c ≠ '_') =
      first :: tail := by
    rw [List.take_left, List.filter_eq_self]
    exact fun c member => decide_eq_true (plain c member)
  have number : numberLexeme first (tail ++ rest) = .token (.number v) tail.length := by
    simp only [numberLexeme, length, kept, value]
  have front : lexemeAt first (tail ++ rest) = .token (.number v) tail.length := by
    simp [lexemeAt, isBlank_isNamePart part, ne_of_isNamePart part (d := '/') rfl, digit, number]
  exact .token front behind

theorem Spells.whole (n : Nat) {rest : List Char} {ks : List TokenKind} (ends : NumberEnds rest)
    (behind : Spells rest ks) :
    Spells (Nat.toDigits 10 n ++ rest) (.number (.ofWhole n) :: ks) :=
  .number (.whole Nat.toDigits_ne_nil isDigit_toDigits) (Magnitude.ofText?_toDigits n) ends behind

end SortTrace.Script
