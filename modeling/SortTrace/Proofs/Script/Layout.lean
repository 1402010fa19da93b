import Mathlib.Data.List.Forall2
import SortTrace.Proofs.Script.Lines
import SortTrace.Proofs.Script.Scanned

/-!
Layout: the slices of a text that its tokens are read from, and texts that are made of the same
slices with other blanks and comments between them. Such a text spells the same tokens.
-/

namespace SortTrace.Script

open Text

/-- Blanks and complete comments; a line comment is complete with its newline. -/
inductive Filling : List Char → Prop
  | nil : Filling []
  | blank {c : Char} {rest : List Char} : isBlank c = true → Filling rest → Filling (c :: rest)
  | line {comment rest : List Char} : '\n' ∉ comment → Filling rest →
      Filling ('/' :: '/' :: (comment ++ '\n' :: rest))
  | block {comment rest : List Char} : ¬ ['*', '/'] <:+: comment → Filling rest →
      Filling ('/' :: '*' :: (comment ++ '*' :: '/' :: rest))

/-- Stands behind the last token of a text: a filling, or a filling and a line comment that ends
with the text. -/
inductive Ending : List Char → Prop
  | filling {cs : List Char} : Filling cs → Ending cs
  | comment {cs comment : List Char} : Filling cs → '\n' ∉ comment →
      Ending (cs ++ '/' :: '/' :: comment)

/-- Stands between two tokens: a filling that starts with a blank. -/
inductive IsGap : List Char → Prop
  | blank {c : Char} {rest : List Char} : isBlank c = true → Filling rest → IsGap (c :: rest)

theorem lexemeAt_line {comment : List Char} (inLine : '\n' ∉ comment) (rest : List Char)
    (ends : ∀ c, rest.head? = some c → c = '\n') :
    lexemeAt '/' (('/' :: comment) ++ rest) = .gap ('/' :: comment).length := by
  have all : ∀ c ∈ '/' :: comment, (c ≠ '\n' : Bool) = true := by
    intro c member
    rcases List.mem_cons.mp member with rfl | member
    · rfl
    · exact decide_eq_true fun same => inLine (same ▸ member)
  have run : (('/' :: comment) ++ rest).takeWhile (fun c => c ≠ '\n') = '/' :: comment := by
    rw [List.takeWhile_append_of_pos all]
    rcases rest with _ | ⟨c, rest⟩
    · simp
    · simp [ends c rfl]
  have slash : isBlank '/' = false := rfl
  rw [lexemeAt, slash, run]
  rfl

theorem blockCommentLength_closed {comment : List Char} (closed : ¬ ['*', '/'] <:+: comment)
    (rest : List Char) :
    blockCommentLength (comment ++ '*' :: '/' :: rest) = .ok (comment.length + 2) := by
  induction comment with
  | nil => rfl
  | cons c comment ih =>
    have further : ∀ tail, c = '*' → comment ++ '*' :: '/' :: rest = '/' :: tail → False := by
      rintro tail rfl same
      rcases comment with _ | ⟨d, comment⟩
      · cases same
      · cases same
        exact closed ⟨[], comment, rfl⟩
    have inner := ih fun inside => closed (inside.trans (List.suffix_cons c comment).isInfix)
    rw [List.cons_append, blockCommentLength.eq_3 _ _ further, inner, List.length_cons]

theorem lexemeAt_block {comment : List Char} (closed : ¬ ['*', '/'] <:+: comment)
    (rest : List Char) :
    lexemeAt '/' (('*' :: (comment ++ ['*', '/'])) ++ rest) =
      .gap ('*' :: (comment ++ ['*', '/'])).length := by
  have length := blockCommentLength_closed closed rest
  have slash : isBlank '/' = false := rfl
  simp [lexemeAt, slash, length]

theorem Filling.spells {filling : List Char} (shape : Filling filling) {rest : List Char}
    {ks : List TokenKind} (behind : Spells rest ks) : Spells (filling ++ rest) ks := by
  induction shape with
  | nil => exact behind
  | blank white _ ih => exact .blank white ih
  | @line comment others inLine _ ih =>
    have newline : Spells ('\n' :: (others ++ rest)) ks := .blank rfl ih
    have front := lexemeAt_line inLine ('\n' :: (others ++ rest)) (by simp)
    have whole := Spells.gap front newline
    simpa using whole
  | @block comment others closed _ ih =>
    have whole := Spells.gap (lexemeAt_block closed (others ++ rest)) ih
    simpa using whole

theorem Ending.spells {ending : List Char} (shape : Ending ending) : Spells ending [.eof] := by
  cases shape with
  | filling shape => simpa using shape.spells Spells.nil
  | @comment cs comment shape inLine =>
    have front := lexemeAt_line inLine [] (by simp)
    have last := Spells.gap front Spells.nil
    rw [List.append_nil] at last
    exact shape.spells last

theorem IsGap.spells {gap : List Char} (shape : IsGap gap) {rest : List Char} {ks : List TokenKind}
    (behind : Spells rest ks) : Spells (gap ++ rest) ks := by
  cases shape with
  | blank white further => exact .blank white (further.spells behind)

def Token.slice (text : List Char) (t : Token) : List Char :=
  (text.drop t.span.start).take (t.span.stop - t.span.start)

/-- The slices of the tokens in order; the end of the text has none. -/
def slices (text : List Char) (ts : List Token) : List (List Char) :=
  (ts.filter (·.kind ≠ .eof)).map (·.slice text)

/-- Is read as one token of this kind, with anything apart from it behind. -/
def Spelled (k : TokenKind) (cs : List Char) : Prop :=
  ∃ c tail, cs = c :: tail ∧ ∀ behind, Apart k behind →
    lexemeAt c (tail ++ behind) = .token k tail.length

theorem Spelled.spells {k : TokenKind} {cs rest : List Char} {ks : List TokenKind}
    (spelled : Spelled k cs) (apart : Apart k rest) (behind : Spells rest ks) :
    Spells (cs ++ rest) (k :: ks) := by
  obtain ⟨c, tail, rfl, front⟩ := spelled
  exact .token (front rest apart) behind

theorem lexemeAt_kind {c : Char} {cs : List Char} {k : TokenKind} {n : Nat}
    (read : lexemeAt c cs = .token k n) :
    (∃ m, k = .mark m ∧ markAt? c cs = some (m, n)) ∨ (k ≠ .eof ∧ ∀ m, k ≠ .mark m) := by
  cases (lexemeAt_token read).2 with
  | mark _ _ _ _ mark => exact .inl ⟨_, rfl, mark⟩
  | name _ lexeme =>
    simp only [nameLexeme] at lexeme
    split at lexeme <;> cases lexeme <;> exact .inr (by simp)
  | number | str | template => exact .inr (by simp)

theorem lexemeAt_ne_eof {c : Char} {cs : List Char} {n : Nat} : lexemeAt c cs ≠ .token .eof n := by
  intro read
  rcases lexemeAt_kind read with ⟨m, same, -⟩ | ⟨other, -⟩
  · cases same
  · exact other rfl

theorem markAt?_slash {c : Char} {cs : List Char} {n : Nat}
    (read : markAt? c cs = some (.slash, n)) : c = '/' ∧ n = 0 := by
  unfold markAt? at read
  split at read <;> cases read
  exact ⟨rfl, rfl⟩

theorem Spelled.of_slash {cs : List Char} (spelled : Spelled (.mark .slash) cs) : cs = ['/'] := by
  obtain ⟨c, tail, rfl, front⟩ := spelled
  rcases lexemeAt_kind (front [] .nil) with ⟨m, same, mark⟩ | ⟨-, other⟩
  · cases same
    obtain ⟨rfl, length⟩ := markAt?_slash mark
    rw [List.length_eq_zero_iff.mp length]
  · exact absurd rfl (other .slash)

theorem Spelled.of_lexemeAt {c : Char} {xs rest : List Char} {k : TokenKind}
    (lexeme : lexemeAt c (xs ++ rest) = .token k xs.length) : Spelled k (c :: xs) := by
  refine ⟨c, xs, rfl, fun behind apart => ?_⟩
  have cut := (lexemeAt_cut lexeme apart).2
  rwa [List.take_left] at cut

theorem Token.slice_ofLength {p : Position} {front : List Char} (place : p.offset = front.length)
    (c : Char) (xs rest : List Char) (k : TokenKind) :
    Token.slice (front ++ c :: (xs ++ rest)) ⟨k, .ofLength p (xs.length + 1)⟩ = c :: xs := by
  simp [Token.slice, Span.ofLength, place]

theorem Scanned.slices_spelled {cs : List Char} {p : Position} {ts : List Token}
    (scanned : Scanned cs p ts) (front : List Char) (place : p.offset = front.length) :
    ∃ ks, ts.map Token.kind = ks ++ [TokenKind.eof] ∧
      List.Forall₂ Spelled ks (slices (front ++ cs) ts) := by
  induction scanned generalizing front with
  | done p => exact ⟨[], rfl, .nil⟩
  | @gap c xs rest p ts lexeme _ ih =>
    have next : (p.behind (c :: xs)).offset = (front ++ c :: xs).length := by
      simp [place]
    have whole : front ++ c :: (xs ++ rest) = (front ++ c :: xs) ++ rest := by simp
    rw [whole]
    exact ih _ next
  | @token c xs rest p ts k lexeme _ ih =>
    have next : (p.behind (c :: xs)).offset = (front ++ c :: xs).length := by
      simp [place]
    obtain ⟨ks, kinds, spelled⟩ := ih _ next
    have whole : front ++ c :: (xs ++ rest) = (front ++ c :: xs) ++ rest := by simp
    have more : k ≠ .eof := by
      rintro rfl
      exact lexemeAt_ne_eof lexeme
    refine ⟨k :: ks, by simp [kinds], ?_⟩
    rw [slices, List.filter_cons_of_pos (by simpa using more), List.map_cons,
      Token.slice_ofLength place, whole]
    exact .cons (.of_lexemeAt lexeme) spelled

/-- The slices one after the other, with a gap between each two and `tail` behind the last. -/
inductive Spaced (tail : List Char) : List (List Char) → List Char → Prop
  | none : Spaced tail [] tail
  | last (slice : List Char) : Spaced tail [slice] (slice ++ tail)
  | cons {slice gap next cs : List Char} {others : List (List Char)} : IsGap gap →
      Spaced tail (next :: others) cs → Spaced tail (slice :: next :: others) (slice ++ (gap ++ cs))

structure LaidOut (slices : List (List Char)) (tail text : List Char) : Prop where
  ending : Ending tail
  spaced : ∃ front body, text = front ++ body ∧ Filling front ∧ Spaced tail slices body

/-- No comment stands directly behind a division sign. -/
def EndsApart (slices : List (List Char)) (tail : List Char) : Prop :=
  slices.getLast? = some ['/'] → tail.head? ≠ some '/'

theorem Filling.head {filling : List Char} (shape : Filling filling) {c : Char}
    (head : filling.head? = some c) : isBlank c = true ∨ c = '/' := by
  cases shape with
  | nil => cases head
  | blank white _ =>
    cases head
    exact .inl white
  | line _ _ =>
    cases head
    exact .inr rfl
  | block _ _ =>
    cases head
    exact .inr rfl

theorem Ending.head {tail : List Char} (shape : Ending tail) {c : Char}
    (head : tail.head? = some c) : isBlank c = true ∨ c = '/' := by
  cases shape with
  | filling shape => exact shape.head head
  | @comment cs comment shape _ =>
    rcases cs with _ | ⟨d, cs⟩
    · cases head
      exact .inr rfl
    · exact shape.head head

theorem Spaced.spells {tail cs : List Char} {slices : List (List Char)} {ks : List TokenKind}
    (spaced : Spaced tail slices cs) (ending : Ending tail) (apart : EndsApart slices tail)
    (spelled : List.Forall₂ Spelled ks slices) : Spells cs (ks ++ [TokenKind.eof]) := by
  induction spaced generalizing ks with
  | none =>
    cases spelled
    exact ending.spells
  | last slice =>
    obtain ⟨k, others, first, none, rfl⟩ := List.forall₂_cons_right_iff.mp spelled
    cases none
    refine first.spells (fun c head => ?_) ending.spells
    rcases ending.head head with white | rfl
    · exact .inl white
    · refine .inr ⟨rfl, ?_⟩
      rintro rfl
      exact apart (congrArg some first.of_slash) head
  | cons gap _ ih =>
    obtain ⟨k, others, first, rest, rfl⟩ := List.forall₂_cons_right_iff.mp spelled
    have behind := gap.spells (ih apart rest)
    refine first.spells ?_ behind
    cases gap with
    | blank white _ => exact .blank white

theorem LaidOut.spells {tail cs : List Char} {slices : List (List Char)} {ks : List TokenKind}
    (laid : LaidOut slices tail cs) (apart : EndsApart slices tail)
    (spelled : List.Forall₂ Spelled ks slices) : Spells cs (ks ++ [TokenKind.eof]) := by
  obtain ⟨ending, front, body, rfl, filling, spaced⟩ := laid
  exact filling.spells (spaced.spells ending apart spelled)

theorem spelling_laidOut {text other : String} {ts : List Token} {tail : List Char}
    (scanned : scan text = .ok ts) (laid : LaidOut (slices text.toList ts) tail other.toList)
    (apart : EndsApart (slices text.toList ts) tail) :
    spelling other = .ok (ts.map Token.kind) := by
  obtain ⟨ks, kinds, spelled⟩ := (scanned_of_scanFrom scanned).slices_spelled [] rfl
  obtain ⟨others, rescanned, same⟩ := laid.spells apart spelled .origin
  rw [spelling, scan, rescanned, kinds, ← same]
  rfl

end SortTrace.Script
