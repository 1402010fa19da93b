import Mathlib.Data.List.Infix
import SortTrace.Proofs.Script.Lexemes

/-!
Numerals: what a number in a script looks like. A number is scanned to the end of the longest numeral at
its place, and without its underscores every numeral is read as a number.
-/

namespace SortTrace.Script

open Numeral Text

def IsFraction (cs : List Char) : Prop :=
  ∃ places, cs = '.' :: places ∧ places ≠ [] ∧ ∀ c ∈ places, c.isDigit = true

/-- Digits with a fraction and an exponent, or a point and digits with an exponent; both parts may be
missing. In the first run of digits some further characters may stand, but not at its start. -/
inductive IsNumeral (inRun : Char → Bool) : List Char → Prop
  | whole {d : Char} {more fraction exponent : List Char} : d.isDigit = true →
      (∀ c ∈ more, inRun c = true) → (fraction = [] ∨ IsFraction fraction) →
      (exponent = [] ∨ IsExponent exponent) → IsNumeral inRun (d :: (more ++ (fraction ++ exponent)))
  | point {d : Char} {more exponent : List Char} : d.isDigit = true →
      (∀ c ∈ more, inRun c = true) → (exponent = [] ∨ IsExponent exponent) →
      IsNumeral inRun ('.' :: d :: (more ++ exponent))

def isRunChar (c : Char) : Bool := c.isDigit || c = '_'

theorem IsFraction.head {fraction : List Char} (shape : IsFraction fraction) (behind : List Char) :
    (fraction ++ behind).head? = some '.' := by
  obtain ⟨places, rfl, -⟩ := shape
  rfl

theorem IsExponent.head {exponent : List Char} (shape : IsExponent exponent) (behind : List Char) :
    ∃ mark, (exponent ++ behind).head? = some mark ∧ (mark = 'e' ∨ mark = 'E') := by
  obtain ⟨mark, sign, run, rfl, marks, -⟩ := shape
  exact ⟨mark, rfl, marks⟩

theorem tail_ends {fraction exponent : List Char} (fractions : fraction = [] ∨ IsFraction fraction)
    (exponents : exponent = [] ∨ IsExponent exponent) :
    ∀ c, (fraction ++ exponent).head? = some c → isRunChar c = false := by
  intro c head
  rcases fractions with rfl | fractions
  · rcases exponents with rfl | exponents
    · cases head
    · obtain ⟨mark, isHead, rfl | rfl⟩ := exponents.head []
      all_goals
        rw [List.append_nil] at isHead
        rw [List.nil_append, isHead] at head
        cases head
        rfl
  · rw [fractions.head] at head
    cases head
    rfl

theorem isDigit_of_isRunChar {c : Char} (outside : isRunChar c = false) : c.isDigit = false := by
  rw [isRunChar, Bool.or_eq_false_iff] at outside
  exact outside.1

theorem exponentOfText?_numeral {exponent : List Char}
    (exponents : exponent = [] ∨ IsExponent exponent) : ∃ n, exponentOfText? exponent = some n := by
  rcases exponents with rfl | ⟨mark, sign, run, rfl, marks, signs, nonempty, digits⟩
  · exact ⟨0, rfl⟩
  have isMark : (mark = 'e' || mark = 'E') = true := by simpa using marks
  have all : run.all Char.isDigit = true := List.all_eq_true.mpr digits
  obtain ⟨digit, others, rfl⟩ := List.exists_cons_of_ne_nil nonempty
  have isDigit := digits digit (by simp)
  rcases signs with rfl | rfl | rfl
  · simp [exponentOfText?, isMark, all]
  · simp [exponentOfText?, isMark, all]
  · have plus := ne_of_isDigit (d := '+') isDigit rfl
    have minus := ne_of_isDigit (d := '-') isDigit rfl
    simp [exponentOfText?, isMark, all, plus, minus]

theorem Magnitude.ofText?_numeral {cs : List Char} (shape : IsNumeral Char.isDigit cs) :
    ∃ value, Magnitude.ofText? cs = some value := by
  cases shape with
  | @whole d more fraction exponent digit digits fractions exponents =>
    obtain ⟨n, power⟩ := exponentOfText?_numeral exponents
    obtain ⟨taken, dropped⟩ := @takeWhile_digits (d :: more) (fraction ++ exponent)
      (List.forall_mem_cons.mpr ⟨digit, digits⟩) fun c head =>
        isDigit_of_isRunChar (tail_ends fractions exponents c head)
    rw [List.cons_append] at taken dropped
    rcases fractions with rfl | ⟨places, rfl, nonempty, allPlaces⟩
    · rw [List.nil_append] at taken dropped
      rcases exponents with rfl | ⟨mark, sign, run, rfl, marks, -⟩
      · rw [List.append_nil] at taken dropped
        simp [Magnitude.ofText?, taken, dropped, power]
      · have other : mark ≠ '.' := by
          rintro rfl
          simp at marks
        simp [Magnitude.ofText?, taken, dropped, power, other]
    · obtain ⟨takenPlaces, droppedPlaces⟩ := @takeWhile_digits places exponent allPlaces
        fun c head => isDigit_of_isRunChar (tail_ends (.inl rfl) exponents c head)
      rw [List.cons_append] at taken dropped
      simp [Magnitude.ofText?, taken, dropped, takenPlaces, droppedPlaces, power]
  | @point d more exponent digit digits exponents =>
    obtain ⟨n, power⟩ := exponentOfText?_numeral exponents
    obtain ⟨taken, dropped⟩ := @takeWhile_digits (d :: more) exponent
      (List.forall_mem_cons.mpr ⟨digit, digits⟩) fun c head =>
        isDigit_of_isRunChar (tail_ends (.inl rfl) exponents c head)
    rw [List.cons_append] at taken dropped
    have point : '.'.isDigit = false := rfl
    simp [Magnitude.ofText?, point, taken, dropped, power]

theorem takeWhile_ended {p : Char → Bool} {run behind : List Char} (inside : ∀ c ∈ run, p c = true)
    (ends : ∃ c, behind.head? = some c ∧ p c = false) : (run ++ behind).takeWhile p = run := by
  obtain ⟨c, head, outside⟩ := ends
  obtain ⟨rest, rfl⟩ := List.head?_eq_some_iff.mp head
  rw [List.takeWhile_append_of_pos inside, List.takeWhile_cons_of_neg (by simp [outside]),
    List.append_nil]

theorem fractionLength_places {places : List Char} (nonempty : places ≠ [])
    (digits : ∀ c ∈ places, c.isDigit = true) (behind : List Char) :
    fractionLength ('.' :: (places ++ behind)) =
      ((places ++ behind).takeWhile Char.isDigit).length + 1 := by
  have bound := length_le_takeWhile digits behind
  have positive := List.length_pos_iff.mpr nonempty
  rcases count : ((places ++ behind).takeWhile Char.isDigit).length with _ | n
  · omega
  · simp only [fractionLength, count]

/-- How far a number goes behind its first run: over a fraction, unless it starts with a point, and an
exponent. -/
def tailLength (first : Char) (cs : List Char) : Nat :=
  let fraction := if first = '.' then 0 else fractionLength cs
  fraction + exponentLength (cs.drop fraction)

theorem numberLength_eq (first : Char) (rest : List Char) : numberLength first rest =
    (rest.takeWhile isRunChar).length +
      tailLength first (rest.drop (rest.takeWhile isRunChar).length) :=
  Nat.add_assoc ..

structure IsTail (first : Char) (fraction exponent : List Char) : Prop where
  fractions : fraction = [] ∨ first ≠ '.' ∧ IsFraction fraction
  exponents : exponent = [] ∨ IsExponent exponent

namespace IsTail

variable {first : Char} {fraction exponent : List Char}

theorem ends (tail : IsTail first fraction exponent) :
    ∀ c, (fraction ++ exponent).head? = some c → isRunChar c = false :=
  tail_ends (tail.fractions.imp_right And.right) tail.exponents

theorem length_le (tail : IsTail first fraction exponent) (behind : List Char) :
    (fraction ++ exponent).length ≤ tailLength first (fraction ++ (exponent ++ behind)) := by
  obtain ⟨rfl | ⟨other, places, rfl, nonempty, digits⟩, exponents⟩ := tail
  · rcases exponents with rfl | shape
    · exact Nat.zero_le _
    obtain ⟨mark, head, marks⟩ := shape.head behind
    obtain ⟨cs, split⟩ := List.head?_eq_some_iff.mp head
    have noPoint : mark ≠ '.' := by
      rintro rfl
      simp at marks
    have none : fractionLength (exponent ++ behind) = 0 := by
      rw [split, fractionLength_other noPoint]
    simpa [tailLength, none] using shape.length_le behind
  · have fraction := fractionLength_places nonempty digits (exponent ++ behind)
    rw [← List.cons_append] at fraction
    simp only [tailLength, if_neg other, fraction]
    rcases exponents with rfl | shape
    · have bound := length_le_takeWhile digits ([] ++ behind)
      simp only [List.append_nil, List.length_cons]
      omega
    · have run : ((places ++ (exponent ++ behind)).takeWhile Char.isDigit) = places := by
        obtain ⟨mark, head, rfl | rfl⟩ := shape.head behind <;>
          exact takeWhile_ended digits ⟨_, head, rfl⟩
      have dropped : ('.' :: places ++ (exponent ++ behind)).drop (places.length + 1) =
          exponent ++ behind := @List.drop_left _ ('.' :: places) _
      rw [run, dropped, List.length_append, List.length_cons]
      exact Nat.add_le_add_left (shape.length_le behind) _

end IsTail

theorem fractionLength_cases (cs : List Char) :
    fractionLength cs = 0 ∨ ∃ fraction behind, cs = fraction ++ behind ∧ IsFraction fraction ∧
      fractionLength cs = fraction.length := by
  rcases cs with _ | ⟨c, cs⟩
  · exact .inl rfl
  by_cases point : c = '.'
  · subst point
    by_cases none : cs.takeWhile Char.isDigit = []
    · exact .inl (by simp [fractionLength, none])
    · have digits : ∀ c ∈ cs.takeWhile Char.isDigit, c.isDigit = true :=
        List.all_eq_true.mp List.all_takeWhile
      have length := fractionLength_places none digits (cs.dropWhile Char.isDigit)
      rw [List.takeWhile_append_dropWhile] at length
      refine .inr ⟨'.' :: cs.takeWhile Char.isDigit, cs.dropWhile Char.isDigit, ?_,
        ⟨_, rfl, none, digits⟩, length⟩
      rw [List.cons_append, List.takeWhile_append_dropWhile]
  · exact .inl (fractionLength_other point cs)

theorem exists_tail (first : Char) (cs : List Char) : ∃ fraction exponent behind,
    cs = fraction ++ (exponent ++ behind) ∧ IsTail first fraction exponent ∧
      tailLength first cs = (fraction ++ exponent).length := by
  obtain ⟨fraction, after, rfl, fractions, length⟩ : ∃ fraction after, cs = fraction ++ after ∧
      (fraction = [] ∨ first ≠ '.' ∧ IsFraction fraction) ∧
      (if first = '.' then 0 else fractionLength cs) = fraction.length := by
    by_cases point : first = '.'
    · exact ⟨[], cs, rfl, .inl rfl, if_pos point⟩
    rcases fractionLength_cases cs with none | ⟨fraction, after, split, shape, length⟩
    · exact ⟨[], cs, rfl, .inl rfl, by rw [if_neg point, none]; rfl⟩
    · exact ⟨fraction, after, split, .inr ⟨point, shape⟩, by rw [if_neg point, length]⟩
  have exponents := exponentLength_cases after
  simp only [tailLength, length, List.drop_left]
  rcases exponents with none | ⟨exponent, behind, rfl, shape, some⟩
  · exact ⟨fraction, [], after, rfl, ⟨fractions, .inl rfl⟩, by simp [none]⟩
  · exact ⟨fraction, exponent, behind, rfl, ⟨fractions, .inr shape⟩, by simp [some]⟩

theorem numberLength_longest {first : Char} {rest more fraction exponent behind : List Char}
    (split : rest = more ++ (fraction ++ (exponent ++ behind)))
    (inside : ∀ c ∈ more, isRunChar c = true) (tail : IsTail first fraction exponent) :
    (more ++ (fraction ++ exponent)).length ≤ numberLength first rest := by
  subst split
  rw [numberLength_eq]
  by_cases bare : fraction ++ exponent = []
  · have bound := length_le_takeWhile inside (fraction ++ (exponent ++ behind))
    rw [bare, List.append_nil]
    exact Nat.le_trans bound (Nat.le_add_right ..)
  · obtain ⟨c, others, shape⟩ := List.exists_cons_of_ne_nil bare
    have outside := tail.ends c (by rw [shape]; rfl)
    have head : (fraction ++ (exponent ++ behind)).head? = some c := by
      rw [← List.append_assoc, shape]
      rfl
    have run := takeWhile_ended inside ⟨c, head, outside⟩
    rw [run, List.drop_left, List.length_append]
    exact Nat.add_le_add_left (tail.length_le behind) _

/-- A number is entered at a digit, or at a point in front of one. -/
def EntersNumber (first : Char) (rest : List Char) : Prop :=
  first.isDigit = true ∨ first = '.' ∧ startsWithDigit rest = true

theorem IsNumeral.length_le {first : Char} {rest front : List Char}
    (shape : IsNumeral isRunChar front) (place : front <+: first :: rest) :
    front.length ≤ numberLength first rest + 1 := by
  obtain ⟨behind, split⟩ := place
  cases shape with
  | @whole d more fraction exponent digit inside fractions exponents =>
    obtain ⟨rfl, rest⟩ := List.cons.inj split
    have tail : IsTail d fraction exponent :=
      ⟨fractions.imp_right fun shape => ⟨ne_of_isDigit digit rfl, shape⟩, exponents⟩
    refine Nat.succ_le_succ (numberLength_longest (show _ = more ++ (fraction ++ (exponent ++ behind))
      from ?_) inside tail)
    simpa using rest.symm
  | @point d more exponent digit inside exponents =>
    obtain ⟨rfl, rest⟩ := List.cons.inj split
    have run : ∀ c ∈ d :: more, isRunChar c = true :=
      List.forall_mem_cons.mpr ⟨by simp [isRunChar, digit], inside⟩
    have tail : IsTail '.' [] exponent := ⟨.inl rfl, exponents⟩
    refine Nat.succ_le_succ (numberLength_longest
      (show _ = d :: more ++ ([] ++ (exponent ++ behind)) from ?_) run tail)
    simpa using rest.symm

theorem EntersNumber.numeral {first : Char} {rest : List Char} (enters : EntersNumber first rest) :
    ∃ taken left, rest = taken ++ left ∧ numberLength first rest = taken.length ∧
      IsNumeral isRunChar (first :: taken) := by
  obtain ⟨fraction, exponent, left, split, ⟨fractions, exponents⟩, length⟩ :=
    exists_tail first (rest.drop (rest.takeWhile isRunChar).length)
  have inside : ∀ c ∈ rest.takeWhile isRunChar, isRunChar c = true :=
    List.all_eq_true.mp List.all_takeWhile
  have whole : rest = rest.takeWhile isRunChar ++ (fraction ++ (exponent ++ left)) := by
    rw [← split]
    exact List.prefix_append_drop (List.takeWhile_prefix isRunChar)
  refine ⟨rest.takeWhile isRunChar ++ (fraction ++ exponent), left, by simpa using whole, ?_, ?_⟩
  · rw [numberLength_eq, length, ← List.length_append]
  rcases enters with digit | ⟨rfl, digit⟩
  · exact .whole digit inside (fractions.imp_right And.right) exponents
  · rcases rest with _ | ⟨d, rest⟩
    · cases digit
    have digit : d.isDigit = true := digit
    have run : isRunChar d = true := by simp [isRunChar, digit]
    rw [List.takeWhile_cons_of_pos run] at inside ⊢
    obtain rfl := fractions.resolve_right fun fraction => fraction.1 rfl
    exact .point digit (List.forall_mem_cons.mp inside).2 exponents

theorem underscore_not_mem_tail {fraction exponent : List Char}
    (fractions : fraction = [] ∨ IsFraction fraction) (exponents : exponent = [] ∨ IsExponent exponent) :
    ∀ c ∈ fraction ++ exponent, c ≠ '_' := by
  refine List.forall_mem_append.mpr ⟨?_, ?_⟩
  · rcases fractions with rfl | ⟨places, rfl, -, digits⟩
    · simp
    · exact List.forall_mem_cons.mpr
        ⟨by decide, fun c member => ne_of_isDigit (digits c member) rfl⟩
  · rcases exponents with rfl | ⟨mark, sign, run, rfl, marks, signs, -, digits⟩
    · simp
    · refine List.forall_mem_cons.mpr ⟨?_, List.forall_mem_append.mpr
        ⟨?_, fun c member => ne_of_isDigit (digits c member) rfl⟩⟩
      · rcases marks with rfl | rfl <;> decide
      · rcases signs with rfl | rfl | rfl <;> simp

theorem IsNumeral.plain {cs : List Char} (shape : IsNumeral isRunChar cs) :
    IsNumeral Char.isDigit (cs.filter (· ≠ '_')) := by
  have kept {more : List Char} (inside : ∀ c ∈ more, isRunChar c = true) :
      ∀ c ∈ more.filter (· ≠ '_'), c.isDigit = true := by
    intro c member
    obtain ⟨member, other⟩ := List.mem_filter.mp member
    have run := inside c member
    rw [isRunChar, Bool.or_eq_true] at run
    exact run.resolve_right fun underscore => by simp_all
  cases shape with
  | @whole d more fraction exponent digit inside fractions exponents =>
    have tail : (fraction ++ exponent).filter (· ≠ '_') = fraction ++ exponent :=
      List.filter_eq_self.mpr fun c member =>
        decide_eq_true (underscore_not_mem_tail fractions exponents c member)
    rw [List.filter_cons_of_pos (by simpa using ne_of_isDigit (d := '_') digit rfl),
      List.filter_append, tail]
    exact .whole digit (kept inside) fractions exponents
  | @point d more exponent digit inside exponents =>
    have tail : exponent.filter (· ≠ '_') = exponent :=
      List.filter_eq_self.mpr fun c member =>
        decide_eq_true (underscore_not_mem_tail (.inl rfl) exponents c member)
    rw [List.filter_cons_of_pos (by decide),
      List.filter_cons_of_pos (by simpa using ne_of_isDigit (d := '_') digit rfl),
      List.filter_append, tail]
    exact .point digit (kept inside) exponents

theorem EntersNumber.lexemeAt_eq {first : Char} {rest : List Char} (enters : EntersNumber first rest) :
    lexemeAt first rest = numberLexeme first rest := by
  have visible : isBlank first = false := by
    rcases enters with digit | ⟨rfl, -⟩
    · exact isBlank_isNamePart (isNamePart_of_isDigit digit)
    · rfl
  have other : first ≠ '/' := by
    rcases enters with digit | ⟨rfl, -⟩
    · exact ne_of_isDigit digit rfl
    · decide
  have number : (first.isDigit || (first = '.' && startsWithDigit rest)) = true := by
    simpa [EntersNumber] using enters
  simp [lexemeAt, visible, other, number]

theorem EntersNumber.read {first : Char} {rest : List Char} (enters : EntersNumber first rest) :
    ∃ taken left value, rest = taken ++ left ∧
      lexemeAt first rest = .token (.number value) taken.length ∧
      IsNumeral isRunChar (first :: taken) ∧
      Magnitude.ofText? ((first :: taken).filter (· ≠ '_')) = some value ∧
      ∀ front, front <+: first :: rest → IsNumeral isRunChar front → front <+: first :: taken := by
  obtain ⟨taken, left, split, length, shape⟩ := enters.numeral
  obtain ⟨value, read⟩ := Magnitude.ofText?_numeral shape.plain
  refine ⟨taken, left, value, split, ?_, shape, read, fun front place numeral => ?_⟩
  · rw [enters.lexemeAt_eq, numberLexeme, length, split, List.take_left, read]
  · have bound := numeral.length_le place
    have whole : first :: taken <+: first :: rest := ⟨left, by rw [split]; rfl⟩
    refine List.prefix_of_prefix_length_le place whole ?_
    rwa [length] at bound

theorem Content.cons_error {c : Char} {width n : Nat} {why : ScanFault} {content : Content}
    (failed : content.cons c width = .error (why, n)) : ∃ m, content = .error (why, m) := by
  rcases content with ⟨why', m⟩ | ⟨value, m⟩
  · cases failed
    exact ⟨m, rfl⟩
  · cases failed

theorem stringContent_fault {quote : Char} {cs : List Char} {text : String} {n : Nat} :
    stringContent quote cs ≠ .error (.invalidNumber text, n) := by
  fun_induction stringContent quote cs generalizing n with
  | case3 c rest ih | case6 c rest _ _ _ _ ih =>
    intro failed
    obtain ⟨m, inner⟩ := Content.cons_error failed
    exact ih inner
  | _ => simp

theorem templateContent_fault {cs : List Char} {text : String} {n : Nat} :
    templateContent cs ≠ .error (.invalidNumber text, n) := by
  fun_induction templateContent cs generalizing n with
  | case3 c rest ih | case5 c rest _ _ _ ih =>
    intro failed
    obtain ⟨m, inner⟩ := Content.cons_error failed
    exact ih inner
  | _ => simp

theorem Content.lexeme_fault {kind : String → TokenKind} {content : Content} {why : ScanFault}
    {n : Nat} (failed : content.lexeme kind = .fault why n) : content = .error (why, n) := by
  rcases content with ⟨why', m⟩ | ⟨value, m⟩ <;> cases failed
  rfl

theorem lexemeAt_fault {first : Char} {rest : List Char} {text : String} {n : Nat} :
    lexemeAt first rest ≠ .fault (.invalidNumber text) n := by
  intro failed
  by_cases enters : EntersNumber first rest
  · obtain ⟨taken, left, value, -, read, -⟩ := enters.read
    rw [read] at failed
    cases failed
  unfold lexemeAt at failed
  split at failed
  · cases failed
  split at failed
  · cases failed
  split at failed
  · split at failed <;> cases failed
  split at failed
  · rename_i number
    exact enters (by simpa [EntersNumber] using number)
  split at failed
  · exact stringContent_fault (Content.lexeme_fault failed)
  split at failed
  · exact templateContent_fault (Content.lexeme_fault failed)
  split at failed
  · cases failed
  split at failed <;> cases failed

theorem scanFrom_error {cs : List Char} {skip : Nat} {p : Position} {e : SyntaxError}
    (failed : scanFrom cs skip p = .error e) :
    ∃ first rest why n s, lexemeAt first rest = .fault why n ∧ e = .scan why s := by
  induction cs generalizing skip p with
  | nil => cases failed
  | cons c rest ih =>
    rcases skip with _ | skip
    · simp only [scanFrom] at failed
      split at failed
      · exact ih failed
      · split at failed
        · cases failed
        · rename_i inner
          cases failed
          exact ih inner
      · rename_i why n fault
        cases failed
        exact ⟨c, rest, why, n, _, fault, rfl⟩
    · exact ih failed

/-- Numbers are always legible: where one is entered, at a digit or at a point in front of one, the
longest numeral there is taken and nothing more, and it is a number once its underscores are left out.
So no script fails for a number that cannot be read. -/
theorem scan_numerals :
    (∀ first rest, EntersNumber first rest → ∃ taken left value, rest = taken ++ left ∧
      lexemeAt first rest = .token (.number value) taken.length ∧
      IsNumeral isRunChar (first :: taken) ∧
      (∀ front, front <+: first :: rest → IsNumeral isRunChar front → front <+: first :: taken) ∧
      IsNumeral Char.isDigit ((first :: taken).filter (· ≠ '_')) ∧
      Magnitude.ofText? ((first :: taken).filter (· ≠ '_')) = some value) ∧
    ∀ text number s, scan text ≠ .error (.scan (.invalidNumber number) s) := by
  refine ⟨fun first rest enters => ?_, fun text number s failed => ?_⟩
  · obtain ⟨taken, left, value, split, token, shape, read, longest⟩ := enters.read
    exact ⟨taken, left, value, split, token, shape, longest, shape.plain, read⟩
  · obtain ⟨first, rest, why, n, s', fault, same⟩ := scanFrom_error failed
    cases same
    exact lexemeAt_fault fault

def Lexeme.taken? : Lexeme → Option Nat
  | .token _ n => some n
  | _ => none

/-- An underscore in the first run, a signed exponent, and a second point behind the number. -/
theorem scan_numerals_exponent : ∃ value,
    lexemeAt '1' "_0.50e-3.5".toList = .token (.number value) 8 ∧
      IsNumeral isRunChar "1_0.50e-3".toList ∧ IsNumeral Char.isDigit "10.50e-3".toList ∧
      Magnitude.ofText? "10.50e-3".toList = some value := by
  obtain ⟨taken, left, value, split, token, shape, -, plain, read⟩ :=
    scan_numerals.1 '1' "_0.50e-3.5".toList (.inl rfl)
  have count : (lexemeAt '1' "_0.50e-3.5".toList).taken? = some 8 := by decide +kernel
  rw [token] at count
  have length : taken.length = 8 := Option.some.inj count
  have whole : taken = "_0.50e-3".toList := by
    have front : (taken ++ left).take taken.length = taken := List.take_left
    rw [← front, length, ← split]
    decide +kernel
  rw [length] at token
  subst whole
  exact ⟨value, token, shape, plain, read⟩

end SortTrace.Script
