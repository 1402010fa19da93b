import SortTrace.Proofs.Script.Spelling

/-!
Lexemes end by themselves: what a token is read from is read as the same token wherever a blank, a
comment or nothing comes behind it. Only the sign of a division runs into a comment.
-/

namespace SortTrace.Script

open Numeral Text

/-- Behind a token of this kind stands nothing that it could run into: a blank, or a slash, but none
behind the sign of a division. -/
def Apart (k : TokenKind) (behind : List Char) : Prop :=
  ∀ c, behind.head? = some c → isBlank c = true ∨ (c = '/' ∧ k ≠ .mark .slash)

namespace Apart

variable {k : TokenKind} {behind : List Char}

theorem nil : Apart k [] := fun _ head => by cases head

theorem blank {c : Char} (white : isBlank c = true) : Apart k (c :: behind) := by
  intro d head
  cases head
  exact .inl white

theorem head_ne (apart : Apart k behind) {c : Char} (visible : isBlank c = false) (other : c ≠ '/') :
    behind.head? ≠ some c := by
  intro head
  rcases apart c head with white | ⟨slash, -⟩
  · rw [visible] at white
    cases white
  · exact other slash

theorem head_ne_slash (apart : Apart (.mark .slash) behind) : behind.head? ≠ some '/' := by
  intro head
  rcases apart '/' head with white | ⟨-, other⟩
  · cases white
  · exact other rfl

theorem nameEnds (apart : Apart k behind) : NameEnds behind := by
  intro c head
  rcases apart c head with white | ⟨rfl, -⟩
  · refine Bool.eq_false_iff.mpr fun part => ?_
    rw [isBlank_isNamePart part] at white
    cases white
  · rfl

theorem numberEnds (apart : Apart k behind) : NumberEnds behind := by
  rcases behind with _ | ⟨c, behind⟩
  · exact .nil
  · refine .cons (apart.nameEnds c rfl) ?_ behind
    rintro rfl
    exact apart.head_ne (c := '.') rfl (by decide) rfl

end Apart

theorem takeWhile_cut {p : Char → Bool} {behind : List Char}
    (ends : ∀ c, behind.head? = some c → p c = false) (cs : List Char) (n : Nat)
    (long : (cs.takeWhile p).length ≤ n) :
    (cs.take n ++ behind).takeWhile p = cs.takeWhile p := by
  have none : behind.takeWhile p = [] := by
    rcases behind with _ | ⟨c, behind⟩
    · rfl
    · exact List.takeWhile_cons_of_neg (by simp [ends c rfl])
  induction cs generalizing n with
  | nil => simpa using none
  | cons c cs ih =>
    by_cases holds : p c = true
    · rw [List.takeWhile_cons_of_pos holds, List.length_cons] at long
      obtain ⟨n, rfl⟩ : ∃ m, n = m + 1 := ⟨n - 1, by omega⟩
      rw [List.take_succ_cons, List.cons_append, List.takeWhile_cons_of_pos holds,
        List.takeWhile_cons_of_pos holds, ih n (by omega)]
    · rw [List.takeWhile_cons_of_neg holds]
      cases n with
      | zero => simpa using none
      | succ n => rw [List.take_succ_cons, List.cons_append, List.takeWhile_cons_of_neg holds]

theorem takeWhile_length_le {p : Char → Bool} (cs : List Char) :
    (cs.takeWhile p).length ≤ cs.length :=
  (List.takeWhile_sublist p).length_le

theorem isDigit_ends {behind : List Char} (ends : NumberEnds behind) :
    ∀ c, behind.head? = some c → c.isDigit = false := by
  intro c head
  refine Bool.eq_false_iff.mpr fun digit => ?_
  have part := isNamePart_of_isDigit digit
  rw [ends.1 c head] at part
  cases part

def IsExponent (cs : List Char) : Prop :=
  ∃ mark sign run, cs = mark :: (sign ++ run) ∧ (mark = 'e' ∨ mark = 'E') ∧
    (sign = ['+'] ∨ sign = ['-'] ∨ sign = []) ∧ run ≠ [] ∧ ∀ c ∈ run, c.isDigit = true

theorem ne_of_isDigit {c d : Char} (digit : c.isDigit = true) (other : d.isDigit = false) :
    c ≠ d := by
  rintro rfl
  rw [digit] at other
  cases other

theorem length_le_takeWhile {p : Char → Bool} {run : List Char} (inside : ∀ c ∈ run, p c = true)
    (behind : List Char) : run.length ≤ ((run ++ behind).takeWhile p).length := by
  rw [List.takeWhile_append_of_pos inside, List.length_append]
  exact Nat.le_add_right ..

theorem exponentLength_digits {mark : Char} {sign run : List Char} (marks : mark = 'e' ∨ mark = 'E')
    (signs : sign = ['+'] ∨ sign = ['-'] ∨ sign = []) (nonempty : run ≠ [])
    (digits : ∀ c ∈ run, c.isDigit = true) (behind : List Char) :
    exponentLength (mark :: (sign ++ (run ++ behind))) =
      1 + sign.length + ((run ++ behind).takeWhile Char.isDigit).length := by
  have isMark : (mark = 'e' || mark = 'E') = true := by simpa using marks
  have bound := length_le_takeWhile digits behind
  have positive := List.length_pos_iff.mpr nonempty
  obtain ⟨digit, others, rfl⟩ := List.exists_cons_of_ne_nil nonempty
  have isDigit := digits digit (by simp)
  rcases count : ((digit :: others ++ behind).takeWhile Char.isDigit).length with _ | n
  · omega
  rw [List.cons_append] at count ⊢
  rcases signs with rfl | rfl | rfl
  · simp [exponentLength, isMark, count]
  · simp [exponentLength, isMark, count]
  · have plus := ne_of_isDigit (d := '+') isDigit rfl
    have minus := ne_of_isDigit (d := '-') isDigit rfl
    simp [exponentLength, isMark, plus, minus, count]

theorem IsExponent.length_eq {cs behind : List Char} (exponent : IsExponent cs)
    (ends : ∀ c, behind.head? = some c → c.isDigit = false) :
    exponentLength (cs ++ behind) = cs.length := by
  obtain ⟨mark, sign, run, rfl, marks, signs, nonempty, digits⟩ := exponent
  rw [List.cons_append, List.append_assoc, exponentLength_digits marks signs nonempty digits,
    (takeWhile_digits digits ends).1, List.length_cons, List.length_append]
  omega

theorem IsExponent.length_le {cs : List Char} (exponent : IsExponent cs) (behind : List Char) :
    cs.length ≤ exponentLength (cs ++ behind) := by
  obtain ⟨mark, sign, run, rfl, marks, signs, nonempty, digits⟩ := exponent
  have bound := length_le_takeWhile digits behind
  rw [List.cons_append, List.append_assoc, exponentLength_digits marks signs nonempty digits,
    List.length_cons, List.length_append]
  omega

theorem exponentLength_cases (cs : List Char) :
    exponentLength cs = 0 ∨ ∃ exponent after, cs = exponent ++ after ∧ IsExponent exponent ∧
      exponentLength cs = exponent.length := by
  rcases cs with _ | ⟨mark, rest⟩
  · exact .inl rfl
  by_cases marks : ¬ (mark = 'e' ∨ mark = 'E')
  · exact .inl (by simp [exponentLength, marks])
  rw [Decidable.not_not] at marks
  have isMark : (mark = 'e' || mark = 'E') = true := by simpa using marks
  -- The sign is settled first; what is left is whether digits follow.
  have found (sign digits : List Char) (whole : rest = sign ++ digits)
      (signs : sign = ['+'] ∨ sign = ['-'] ∨ sign = [])
      (length : ∀ n, (digits.takeWhile Char.isDigit).length = n →
        exponentLength (mark :: rest) = if n = 0 then 0 else 1 + sign.length + n) :
      exponentLength (mark :: rest) = 0 ∨ ∃ exponent after, mark :: rest = exponent ++ after ∧
        IsExponent exponent ∧ exponentLength (mark :: rest) = exponent.length := by
    have length := length _ rfl
    by_cases none : digits.takeWhile Char.isDigit = []
    · exact .inl (by rw [length, none]; rfl)
    · refine .inr ⟨mark :: (sign ++ digits.takeWhile Char.isDigit), digits.dropWhile Char.isDigit,
        ?_, ⟨mark, sign, _, rfl, marks, signs, none, ?_⟩, ?_⟩
      · rw [whole, List.cons_append, List.append_assoc, List.takeWhile_append_dropWhile]
      · exact List.all_eq_true.mp List.all_takeWhile
      · rw [length, if_neg (mt List.length_eq_zero_iff.mp none), List.length_cons,
          List.length_append]
        omega
  rcases rest with _ | ⟨sign, rest⟩
  · exact found [] [] rfl (by simp) (by rintro _ rfl; simp [exponentLength])
  by_cases plus : sign = '+'
  · subst plus
    refine found ['+'] rest rfl (by simp) ?_
    rintro (_ | n) count <;> simp [exponentLength, isMark, count]
  by_cases minus : sign = '-'
  · subst minus
    refine found ['-'] rest rfl (by simp) ?_
    rintro (_ | n) count <;> simp [exponentLength, isMark, count]
  · refine found [] (sign :: rest) rfl (by simp) ?_
    rintro (_ | n) count <;> simp [exponentLength, isMark, plus, minus, count]

theorem exponentLength_cut {behind : List Char} (ends : NumberEnds behind) (cs : List Char) :
    exponentLength cs ≤ cs.length ∧
      exponentLength (cs.take (exponentLength cs) ++ behind) = exponentLength cs := by
  rcases exponentLength_cases cs with none | ⟨exponent, after, rfl, shape, length⟩
  · rw [none]
    exact ⟨Nat.zero_le _, exponentLength_ends ends⟩
  · rw [length, List.take_left]
    exact ⟨by simp, shape.length_eq (isDigit_ends ends)⟩

theorem fractionLength_point (cs : List Char) :
    fractionLength ('.' :: cs) = 0 ∨
      fractionLength ('.' :: cs) = (cs.takeWhile Char.isDigit).length + 1 := by
  rcases count : (cs.takeWhile Char.isDigit).length with _ | n <;> simp [fractionLength, count]

theorem fractionLength_other {c : Char} (other : c ≠ '.') (cs : List Char) :
    fractionLength (c :: cs) = 0 := by
  unfold fractionLength
  split
  · rename_i same
    exact absurd (List.cons.inj same).1 other
  · rfl

theorem fractionLength_cut {behind : List Char} (ends : NumberEnds behind) (cs : List Char)
    (n : Nat) (long : fractionLength cs ≤ n) (point : cs.head? = some '.' → fractionLength cs = 0 → n = 0) :
    fractionLength (cs.take n ++ behind) = fractionLength cs := by
  rcases cs with _ | ⟨c, cs⟩
  · rw [List.take_nil]
    exact ends.2
  rcases n with _ | n
  · rw [Nat.le_zero.mp long]
    exact ends.2
  rw [List.take_succ_cons, List.cons_append]
  by_cases isPoint : c = '.'
  · subst isPoint
    have more := point rfl
    rcases fractionLength_point cs with none | some
    · cases more none
    · rw [some] at long
      have cut := takeWhile_cut (isDigit_ends ends) cs n (by omega)
      rcases count : (cs.takeWhile Char.isDigit).length with _ | m <;>
        simp [fractionLength, cut, count]
  · rw [fractionLength_other isPoint, fractionLength_other isPoint]

theorem fractionLength_le (cs : List Char) : fractionLength cs ≤ cs.length := by
  rcases cs with _ | ⟨c, cs⟩
  · exact Nat.le_refl 0
  by_cases point : c = '.'
  · subst point
    have short := takeWhile_length_le (p := Char.isDigit) cs
    rcases fractionLength_point cs with none | some
    · omega
    · rw [some, List.length_cons]
      omega
  · rw [fractionLength_other point]
    omega

theorem exponentLength_point (cs : List Char) : exponentLength ('.' :: cs) = 0 := by
  simp [exponentLength]

theorem drop_take_append {α : Type} (cs behind : List α) (k n : Nat) (short : k ≤ cs.length) :
    (cs.take (k + n) ++ behind).drop k = (cs.drop k).take n ++ behind := by
  rw [List.drop_append_of_le_length (by rw [List.length_take]; omega), List.drop_take,
    Nat.add_sub_cancel_left]

theorem numberLength_cut {behind : List Char} (ends : NumberEnds behind) (first : Char)
    (cs : List Char) :
    numberLength first cs ≤ cs.length ∧
      numberLength first (cs.take (numberLength first cs) ++ behind) = numberLength first cs := by
  let p : Char → Bool := fun c => c.isDigit || c = '_'
  have endsRun : ∀ c, behind.head? = some c → p c = false := by
    intro c head
    have other := ends.1 c head
    simp only [isNamePart, Char.isAlphanum, Bool.or_eq_false_iff] at other
    simp [p, other]
  obtain ⟨run, hr⟩ : ∃ run, run = (cs.takeWhile p).length := ⟨_, rfl⟩
  obtain ⟨fraction, hf⟩ : ∃ n, n = if first = '.' then 0 else fractionLength (cs.drop run) :=
    ⟨_, rfl⟩
  obtain ⟨exponent, he⟩ : ∃ n, n = exponentLength ((cs.drop run).drop fraction) := ⟨_, rfl⟩
  have whole : numberLength first cs = run + (fraction + exponent) := by
    subst he hf hr
    exact Nat.add_assoc ..
  have shortRun : run ≤ cs.length := hr ▸ takeWhile_length_le cs
  have shortFraction : fraction ≤ (cs.drop run).length := by
    rw [hf]
    split
    · omega
    · exact fractionLength_le _
  obtain ⟨shortExponent, cutExponent⟩ := exponentLength_cut ends ((cs.drop run).drop fraction)
  rw [← he] at shortExponent cutExponent
  have short : numberLength first cs ≤ cs.length := by
    rw [List.length_drop] at shortExponent
    simp only [List.length_drop] at shortFraction shortExponent
    omega
  have cutRun := takeWhile_cut endsRun cs (run + (fraction + exponent)) (by omega)
  have cutFraction : (if first = '.' then 0
      else fractionLength ((cs.drop run).take (fraction + exponent) ++ behind)) = fraction := by
    rw [hf]
    split
    · rfl
    · rename_i digit
      rw [if_neg digit] at hf
      refine fractionLength_cut ends _ _ (by omega) fun point none => ?_
      rw [none] at hf
      obtain ⟨rest, shape⟩ := List.head?_eq_some_iff.mp point
      rw [he, hf, List.drop_zero, none, shape, exponentLength_point]
  refine ⟨short, ?_⟩
  rw [whole]
  simp only [numberLength]
  rw [cutRun, ← hr, drop_take_append cs behind run _ shortRun, cutFraction,
    drop_take_append _ behind fraction _ shortFraction, cutExponent]
  omega

theorem Content.cons_ok {c : Char} {width n : Nat} {value : List Char} {content : Content}
    (read : content.cons c width = .ok (value, n)) :
    ∃ others m, content = .ok (others, m) ∧ value = c :: others ∧ n = m + width := by
  rcases content with ⟨why, m⟩ | ⟨others, m⟩
  · cases read
  · cases read
    exact ⟨others, m, rfl, rfl, rfl⟩

theorem stringContent_plain (quote : Char) {c : Char} (plain : c ≠ '\\') (rest : List Char) :
    stringContent quote (c :: rest) =
      if c = '\n' then .error (.unterminatedString, 0)
      else if c = quote then .ok ([], 1)
      else (stringContent quote rest).cons c 1 :=
  stringContent.eq_4 quote c rest (fun same => absurd same plain) fun _ _ same => absurd same plain

theorem templateContent_step {c : Char} (plain : c ≠ '\\') (rest : List Char) :
    templateContent (c :: rest) =
      if c = '\x60' then .ok ([], 1) else (templateContent rest).cons c 1 :=
  templateContent.eq_4 c rest (fun same => absurd same plain) fun _ _ same => absurd same plain

theorem ne_backslash {c : Char} {rest : List Char} (alone : c = '\\' → rest = [] → False)
    (further : ∀ d others, c = '\\' → rest = d :: others → False) : c ≠ '\\' := by
  rintro rfl
  cases rest with
  | nil => exact alone rfl rfl
  | cons d others => exact further d others rfl rfl

theorem stringContent_cut {quote : Char} (behind : List Char) {cs value : List Char} {n : Nat}
    (read : stringContent quote cs = .ok (value, n)) :
    n ≤ cs.length ∧ stringContent quote (cs.take n ++ behind) = .ok (value, n) := by
  induction cs using stringContent.induct quote generalizing value n with
  | case1 => cases read
  | case2 => cases read
  | case3 c rest ih =>
    obtain ⟨others, m, inner, rfl, rfl⟩ := Content.cons_ok read
    obtain ⟨short, same⟩ := ih inner
    refine ⟨by simpa using short, ?_⟩
    simp [stringContent, same, Content.cons]
  | case4 rest =>
    rw [stringContent_plain quote (by decide)] at read
    cases read
  | case5 rest alone further newline =>
    have plain := stringContent_plain quote (ne_backslash alone further)
    rw [plain, if_neg newline, if_pos rfl] at read
    cases read
    refine ⟨by simp, ?_⟩
    rw [List.take_succ_cons, List.take_zero, List.cons_append, plain, if_neg newline, if_pos rfl]
  | case6 c rest alone further newline other ih =>
    have plain := stringContent_plain quote (ne_backslash alone further)
    rw [plain, if_neg newline, if_neg other] at read
    obtain ⟨others, m, inner, rfl, rfl⟩ := Content.cons_ok read
    obtain ⟨short, same⟩ := ih inner
    refine ⟨by simpa using short, ?_⟩
    rw [List.take_succ_cons, List.cons_append, plain, if_neg newline, if_neg other, same]
    rfl

theorem templateContent_cut (behind : List Char) {cs value : List Char} {n : Nat}
    (read : templateContent cs = .ok (value, n)) :
    n ≤ cs.length ∧ templateContent (cs.take n ++ behind) = .ok (value, n) := by
  induction cs using templateContent.induct generalizing value n with
  | case1 => cases read
  | case2 => cases read
  | case3 c rest ih =>
    obtain ⟨others, m, inner, rfl, rfl⟩ := Content.cons_ok read
    obtain ⟨short, same⟩ := ih inner
    refine ⟨by simpa using short, ?_⟩
    simp [templateContent, same, Content.cons]
  | case4 rest =>
    rw [templateContent_step (by decide), if_pos rfl] at read
    cases read
    exact ⟨by simp, rfl⟩
  | case5 c rest alone further other ih =>
    have plain := templateContent_step (ne_backslash alone further)
    rw [plain, if_neg other] at read
    obtain ⟨others, m, inner, rfl, rfl⟩ := Content.cons_ok read
    obtain ⟨short, same⟩ := ih inner
    refine ⟨by simpa using short, ?_⟩
    rw [List.take_succ_cons, List.cons_append, plain, if_neg other, same]
    rfl

theorem nameLexeme_cut {behind : List Char} (ends : NameEnds behind) {first : Char}
    {cs : List Char} {k : TokenKind} {n : Nat} (read : nameLexeme first cs = .token k n) :
    n ≤ cs.length ∧ nameLexeme first (cs.take n ++ behind) = .token k n := by
  have length : (cs.takeWhile isNamePart).length = n := by
    simp only [nameLexeme] at read
    exact (Lexeme.token.inj read).2
  have cut := takeWhile_cut ends cs n (Nat.le_of_eq length)
  refine ⟨length ▸ takeWhile_length_le cs, ?_⟩
  rw [← read]
  simp only [nameLexeme, cut]

theorem numberLexeme_length {first : Char} {cs : List Char} {k : TokenKind} {n : Nat}
    (read : numberLexeme first cs = .token k n) : n = numberLength first cs := by
  simp only [numberLexeme] at read
  split at read
  · exact (Lexeme.token.inj read).2.symm
  · cases read

theorem numberLexeme_cut {behind : List Char} (ends : NumberEnds behind) {first : Char}
    {cs : List Char} {k : TokenKind} {n : Nat} (read : numberLexeme first cs = .token k n) :
    n ≤ cs.length ∧ numberLexeme first (cs.take n ++ behind) = .token k n := by
  have length := (numberLexeme_length read).symm
  obtain ⟨short, cut⟩ := numberLength_cut ends first cs
  rw [length] at short cut
  refine ⟨short, ?_⟩
  rw [← read]
  simp only [numberLexeme, cut, length]
  rw [List.take_append_of_le_length (by rw [List.length_take]; omega), List.take_take,
    Nat.min_self]

theorem numberLexeme_digit {first : Char} {cs : List Char} {k : TokenKind} {n : Nat}
    (read : numberLexeme first cs = .token k n) (digit : startsWithDigit cs = true)
    (behind : List Char) : startsWithDigit (cs.take n ++ behind) = true := by
  rcases cs with _ | ⟨c, cs⟩
  · cases digit
  have positive : n ≠ 0 := by
    have isDigit : c.isDigit = true := digit
    simp [numberLexeme_length read, numberLength, isDigit]
  obtain ⟨m, rfl⟩ := Nat.exists_eq_succ_of_ne_zero positive
  exact digit

theorem Content.lexeme_token {kind : String → TokenKind} {content : Content} {k : TokenKind}
    {n : Nat} (read : content.lexeme kind = .token k n) :
    ∃ value, content = .ok (value, n) ∧ k = kind (String.ofList value) := by
  rcases content with ⟨why, m⟩ | ⟨value, m⟩
  · cases read
  · cases read
    exact ⟨value, rfl, rfl⟩

theorem markAt?_cut {behind : List Char} {first : Char} {cs : List Char} {m : Mark} {n : Nat}
    (apart : Apart (.mark m) behind) (read : markAt? first cs = some (m, n)) :
    n ≤ cs.length ∧ markAt? first (cs.take n ++ behind) = some (m, n) := by
  have plus := apart.head_ne (c := '+') rfl (by decide)
  have minus := apart.head_ne (c := '-') rfl (by decide)
  have equal := apart.head_ne (c := '=') rfl (by decide)
  have greater := apart.head_ne (c := '>') rfl (by decide)
  unfold markAt? at read
  split at read
  all_goals cases read
  all_goals refine ⟨by simp, ?_⟩
  -- Most marks are told by the characters that are read; the others could be longer.
  all_goals try rfl
  all_goals
    rcases behind with _ | ⟨b, behind⟩
    · rfl
    · simp only [List.head?_cons, ne_eq, Option.some.injEq] at plus minus equal greater
      simp [markAt?, plus, minus, equal, greater]

/-- What may come behind the first character of a mark: no comment, and no digit behind a point. -/
def MarkGoesOn (first : Char) (cs : List Char) : Prop :=
  (first = '/' → cs.head? ≠ some '/' ∧ cs.head? ≠ some '*') ∧
    (first = '.' → startsWithDigit cs = false)

theorem lexemeAt_mark {first : Char} {cs : List Char} (visible : isBlank first = false)
    (digit : first.isDigit = false) (quote : first ≠ '\x22' ∧ first ≠ '\x27')
    (accent : first ≠ '\x60') (start : isNameStart first = false) (further : MarkGoesOn first cs)
    {m : Mark} {n : Nat} (mark : markAt? first cs = some (m, n)) :
    lexemeAt first cs = .token (.mark m) n := by
  by_cases slash : first = '/'
  · subst slash
    obtain ⟨line, block⟩ := further.1 rfl
    simp [lexemeAt, visible, line, block, digit, start, mark]
  by_cases point : first = '.'
  · subst point
    simp [lexemeAt, visible, digit, start, further.2 rfl, mark]
  · simp [lexemeAt, visible, slash, point, digit, quote, accent, start, mark]

theorem startsWithDigit_of_ends {behind : List Char} (ends : NumberEnds behind) :
    startsWithDigit behind = false := by
  rcases behind with _ | ⟨c, behind⟩
  · rfl
  · exact isDigit_ends ends c rfl

theorem markGoesOn_cut {first : Char} {cs behind : List Char} {m : Mark} {n : Nat}
    (mark : markAt? first cs = some (m, n)) (apart : Apart (.mark m) behind)  :
    MarkGoesOn first (cs.take n ++ behind) := by
  constructor
  · rintro rfl
    have star := apart.head_ne (c := '*') rfl (by decide)
    by_cases equal : cs.head? = some '='
    · obtain ⟨rest, rfl⟩ := List.head?_eq_some_iff.mp equal
      cases mark
      simp
    · have none : markAt? '/' cs = some (.slash, 0) := by
        rcases cs with _ | ⟨c, cs⟩
        · rfl
        · simp only [List.head?_cons, Option.some.injEq] at equal
          simp [markAt?, equal]
      rw [none] at mark
      cases mark
      exact ⟨apart.head_ne_slash, star⟩
  · rintro rfl
    cases mark
    exact startsWithDigit_of_ends apart.numberEnds

inductive TokenAt (first : Char) (cs : List Char) : TokenKind → Nat → Prop
  | number {v : Numeral.Magnitude} {n : Nat} :
      first.isDigit = true ∨ first = '.' ∧ startsWithDigit cs = true →
      numberLexeme first cs = .token (.number v) n → TokenAt first cs (.number v) n
  | str {value : List Char} {n : Nat} : first = '\x22' ∨ first = '\x27' →
      stringContent first cs = .ok (value, n) → TokenAt first cs (.str (String.ofList value)) n
  | template {value : List Char} {n : Nat} : first = '\x60' → templateContent cs = .ok (value, n) →
      TokenAt first cs (.template (String.ofList value)) n
  | name {k : TokenKind} {n : Nat} : isNameStart first = true →
      nameLexeme first cs = .token k n → TokenAt first cs k n
  | mark {m : Mark} {n : Nat} : first.isDigit = false → first ≠ '\x22' ∧ first ≠ '\x27' →
      first ≠ '\x60' → isNameStart first = false → markAt? first cs = some (m, n) →
      TokenAt first cs (.mark m) n

theorem numberLexeme_token {first : Char} {cs : List Char} {k : TokenKind} {n : Nat}
    (read : numberLexeme first cs = .token k n) : ∃ v, k = .number v := by
  unfold numberLexeme at read
  dsimp only at read
  split at read
  · cases read
    exact ⟨_, rfl⟩
  · cases read

theorem lexemeAt_token {first : Char} {cs : List Char} {k : TokenKind} {n : Nat}
    (read : lexemeAt first cs = .token k n) : isBlank first = false ∧ TokenAt first cs k n := by
  unfold lexemeAt at read
  by_cases blank : isBlank first = true
  · rw [if_pos blank] at read
    cases read
  rw [if_neg blank] at read
  refine ⟨Bool.eq_false_iff.mpr blank, ?_⟩
  split at read
  · cases read
  split at read
  · split at read <;> cases read
  split at read
  · rename_i number
    obtain ⟨v, rfl⟩ := numberLexeme_token read
    exact .number (by simpa using number) read
  rename_i notNumber
  split at read
  · rename_i quote
    obtain ⟨value, content, rfl⟩ := Content.lexeme_token read
    exact .str (by simpa using quote) content
  rename_i notQuote
  split at read
  · rename_i accent
    obtain ⟨value, content, rfl⟩ := Content.lexeme_token read
    exact .template accent content
  rename_i notAccent
  split at read
  · rename_i start
    exact .name start read
  rename_i notStart
  split at read
  · rename_i m more mark
    cases read
    rw [Bool.not_eq_true, Bool.or_eq_false_iff] at notNumber
    exact .mark notNumber.1 (by simpa using notQuote) notAccent (by simpa using notStart) mark
  · cases read

theorem lexemeAt_cut {first : Char} {cs behind : List Char} {k : TokenKind} {n : Nat}
    (read : lexemeAt first cs = .token k n) (apart : Apart k behind) :
    n ≤ cs.length ∧ lexemeAt first (cs.take n ++ behind) = .token k n := by
  obtain ⟨visible, token⟩ := lexemeAt_token read
  cases token with
  | number start lexeme =>
    obtain ⟨short, same⟩ := numberLexeme_cut apart.numberEnds lexeme
    refine ⟨short, ?_⟩
    rcases start with digit | ⟨rfl, digit⟩
    · have part := isNamePart_of_isDigit digit
      simp [lexemeAt, visible, digit, same, ne_of_isNamePart part (d := '/') rfl]
    · simp [lexemeAt, visible, numberLexeme_digit lexeme digit behind, same]
  | str quotes content =>
    obtain ⟨short, same⟩ := stringContent_cut behind content
    refine ⟨short, ?_⟩
    rcases quotes with rfl | rfl <;> simp [lexemeAt, visible, same, Content.lexeme, Char.isDigit]
  | template accent content =>
    obtain ⟨short, same⟩ := templateContent_cut behind content
    refine ⟨short, ?_⟩
    subst accent
    simp [lexemeAt, visible, same, Content.lexeme, Char.isDigit]
  | name start lexeme =>
    obtain ⟨short, same⟩ := nameLexeme_cut apart.nameEnds lexeme
    refine ⟨short, ?_⟩
    have part := isNamePart_of_isNameStart start
    simp [lexemeAt, visible, isDigit_of_isNameStart start, start, same,
      ne_of_isNamePart part (d := '/') rfl, ne_of_isNamePart part (d := '.') rfl,
      ne_of_isNamePart part (d := '\x22') rfl, ne_of_isNamePart part (d := '\x27') rfl,
      ne_of_isNamePart part (d := '\x60') rfl]
  | mark digit quote accent start mark =>
    obtain ⟨short, same⟩ := markAt?_cut apart mark
    refine ⟨short, ?_⟩
    exact lexemeAt_mark visible digit quote accent start (markGoesOn_cut mark apart) same

end SortTrace.Script
