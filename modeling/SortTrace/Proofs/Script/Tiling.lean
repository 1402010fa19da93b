import Mathlib.Data.List.Induction
import SortTrace.Proofs.Script.Layout
import SortTrace.Proofs.Script.Spans

/-!
The tokens of a text tile it: they stand one behind the other up to its end, with nothing but blanks
and comments around them, and each is what its own characters are read as.
-/

namespace SortTrace.Script

open Text

theorem blockCommentLength_inv {cs : List Char} {n : Nat} (closed : blockCommentLength cs = .ok n) :
    ∃ comment rest, cs = comment ++ '*' :: '/' :: rest ∧ n = comment.length + 2 ∧
      ¬ ['*', '/'] <:+: comment := by
  induction cs using blockCommentLength.induct generalizing n with
  | case1 => cases closed
  | case2 rest =>
    cases closed
    exact ⟨[], rest, rfl, rfl, by simp⟩
  | case3 c rest further m inner ih =>
    rw [blockCommentLength.eq_3 c rest further, inner] at closed
    cases closed
    obtain ⟨comment, behind, rfl, rfl, outside⟩ := ih inner
    refine ⟨c :: comment, behind, rfl, by simp, fun inside => ?_⟩
    rcases List.infix_cons_iff.mp inside with ⟨others, front⟩ | inside
    · cases front
      exact further _ rfl rfl
    · exact outside inside
  | case4 c rest further m inner ih =>
    rw [blockCommentLength.eq_3 c rest further, inner] at closed
    cases closed

/-- A blank or a comment in front of a text. A line comment goes up to a newline or to the end. -/
inductive GapAt (rest : List Char) : List Char → Prop
  | blank {c : Char} : isBlank c = true → GapAt rest [c]
  | line {comment : List Char} : '\n' ∉ comment → (∀ c, rest.head? = some c → c = '\n') →
      GapAt rest ('/' :: '/' :: comment)
  | block {comment : List Char} : ¬ ['*', '/'] <:+: comment →
      GapAt rest ('/' :: '*' :: (comment ++ ['*', '/']))

theorem takeWhile_maximal {p : Char → Bool} {xs rest : List Char}
    (longest : ((xs ++ rest).takeWhile p).length = xs.length) :
    (∀ c ∈ xs, p c = true) ∧ ∀ c, rest.head? = some c → p c = false := by
  have front : (xs ++ rest).takeWhile p = xs := by
    have taken := List.prefix_iff_eq_take.mp (List.takeWhile_prefix p (l := xs ++ rest))
    rwa [longest, List.take_left] at taken
  have all : ∀ c ∈ xs, p c = true := by
    rw [← front]
    exact List.all_eq_true.mp List.all_takeWhile
  refine ⟨all, fun c head => Bool.eq_false_iff.mpr fun holds => ?_⟩
  obtain ⟨others, rfl⟩ := List.head?_eq_some_iff.mp head
  rw [List.takeWhile_append_of_pos all, List.takeWhile_cons_of_pos holds] at longest
  simp at longest

theorem lexemeAt_gap {c : Char} {xs rest : List Char}
    (gap : lexemeAt c (xs ++ rest) = .gap xs.length) : GapAt rest (c :: xs) := by
  unfold lexemeAt at gap
  split at gap
  · rename_i white
    have none : xs = [] := List.length_eq_zero_iff.mp (Lexeme.gap.inj gap).symm
    rw [none]
    exact .blank white
  split at gap
  · rename_i slashes
    obtain ⟨rfl, second⟩ : c = '/' ∧ (xs ++ rest).head? = some '/' := by simpa using slashes
    obtain ⟨inLine, ends⟩ := takeWhile_maximal (Lexeme.gap.inj gap)
    have ends : ∀ c, rest.head? = some c → c = '\n' := by simpa using ends
    rcases xs with _ | ⟨d, comment⟩
    · cases ends _ second
    · cases second
      refine .line (fun newline => ?_) ends
      simpa using inLine '\n' (List.mem_cons_of_mem _ newline)
  split at gap
  · rename_i opens
    obtain ⟨rfl, second⟩ : c = '/' ∧ (xs ++ rest).head? = some '*' := by simpa using opens
    split at gap
    · rename_i n closed
      obtain ⟨comment, behind, split, length, outside⟩ := blockCommentLength_inv closed
      have whole : xs ++ rest = ('*' :: (comment ++ ['*', '/'])) ++ behind := by
        obtain ⟨others, shape⟩ := List.head?_eq_some_iff.mp second
        rw [shape] at split ⊢
        simpa using split
      have same : xs.length = ('*' :: (comment ++ ['*', '/'])).length := by
        have more := Lexeme.gap.inj gap
        simp
        omega
      obtain ⟨rfl, rfl⟩ := List.append_inj whole same
      exact .block outside
    · cases gap
  split at gap
  · simp only [numberLexeme] at gap
    split at gap <;> cases gap
  split at gap
  · rcases content : stringContent c (xs ++ rest) with _ | _ <;>
      simp [content, Content.lexeme] at gap
  split at gap
  · rcases content : templateContent (xs ++ rest) with _ | _ <;>
      simp [content, Content.lexeme] at gap
  split at gap
  · simp [nameLexeme] at gap
  split at gap <;> cases gap

theorem Filling.behind_newline {filling : List Char} (shape : Filling ('\n' :: filling)) :
    Filling filling := by
  cases shape
  assumption

theorem Ending.behind_newline {ending : List Char} (shape : Ending ('\n' :: ending)) :
    Ending ending := by
  generalize whole : '\n' :: ending = cs at shape
  cases shape with
  | filling shape =>
    subst whole
    exact .filling shape.behind_newline
  | @comment front comment shape inLine =>
    rcases front with _ | ⟨c, front⟩
    · cases whole
    · cases whole
      exact .comment shape.behind_newline inLine

theorem Ending.after {filling ending : List Char} (shape : Filling filling) (last : Ending ending) :
    Ending (filling ++ ending) := by
  have append {others : List Char} (further : Filling others) : Filling (filling ++ others) := by
    induction shape with
    | nil => exact further
    | blank white _ ih => exact .blank white ih
    | line inLine _ ih => simpa using Filling.line inLine ih
    | block outside _ ih => simpa using Filling.block outside ih
  cases last with
  | filling further => exact .filling (append further)
  | comment further inLine =>
    rw [← List.append_assoc]
    exact .comment (append further) inLine

namespace GapAt

variable {gap rest : List Char}

theorem filling (shape : GapAt rest gap) {filling others : List Char} (split : rest = filling ++ others)
    (further : Filling filling)
    (visible : filling = [] → ∃ c, others.head? = some c ∧ isBlank c = false) :
    Filling (gap ++ filling) := by
  cases shape with
  | blank white => exact .blank white further
  | block outside => simpa using Filling.block outside further
  | line inLine ends =>
    rcases filling with _ | ⟨c, filling⟩
    · obtain ⟨c, head, other⟩ := visible rfl
      rw [ends c (by rw [split]; exact head)] at other
      cases other
    · rw [ends c (by rw [split]; rfl)] at further ⊢
      exact .line inLine further.behind_newline

theorem ending (shape : GapAt rest gap) (further : Ending rest) : Ending (gap ++ rest) := by
  cases shape with
  | blank white => exact .after (.blank white .nil) further
  | block outside =>
    have comment := Ending.after (.block outside .nil) further
    simpa using comment
  | @line comment inLine ends =>
    rcases rest with _ | ⟨c, rest⟩
    · rw [List.append_nil]
      exact .comment .nil inLine
    · rw [ends c rfl] at further ⊢
      have whole := Ending.after (.line inLine .nil) further.behind_newline
      simpa using whole

end GapAt

/-- From an offset on a text is made of these tokens, one behind the other, with blanks and comments
around them, and the end of the text. Each is read from its own characters. -/
inductive Tiled (text : List Char) : Nat → List Token → Prop
  | stop {i : Nat} {t : Token} : t.kind = .eof → t.span.start = text.length →
      t.span.stop = text.length → i ≤ text.length → Ending (text.drop i) → Tiled text i [t]
  | token {i : Nat} {t : Token} {rest : List Token} : t.kind ≠ .eof → i ≤ t.span.start →
      t.span.start < t.span.stop → Filling ((text.drop i).take (t.span.start - i)) →
      Spelled t.kind (t.slice text) → Tiled text t.span.stop rest → Tiled text i (t :: rest)

theorem Spelled.visible {k : TokenKind} {cs : List Char} (spelled : Spelled k cs) :
    ∃ c, cs.head? = some c ∧ isBlank c = false := by
  obtain ⟨c, tail, rfl, front⟩ := spelled
  exact ⟨c, rfl, (lexemeAt_token (front [] .nil)).1⟩

namespace Tiled

variable {text : List Char} {ts : List Token} {i : Nat}

theorem earlier {front gap rest : List Char} (shape : GapAt rest gap)
    (tiled : Tiled (front ++ (gap ++ rest)) (front.length + gap.length) ts) :
    Tiled (front ++ (gap ++ rest)) front.length ts := by
  have ahead (k : Nat) : (front ++ (gap ++ rest)).drop (front.length + gap.length + k) =
      rest.drop k := by
    rw [Nat.add_assoc, List.drop_length_add_append, List.drop_length_add_append]
  cases tiled with
  | stop kind start stop inside ending =>
    refine .stop kind start stop (by simp) ?_
    have behind := ahead 0
    rw [Nat.add_zero, List.drop_zero] at behind
    rw [behind] at ending
    rw [List.drop_left]
    exact shape.ending ending
  | @token _ t _ kind before wide filling spelled further =>
    refine .token kind (by omega) wide ?_ spelled further
    obtain ⟨k, place⟩ := Nat.exists_eq_add_of_le before
    have visible : ∃ c, (rest.drop k).head? = some c ∧ isBlank c = false := by
      obtain ⟨c, head, other⟩ := spelled.visible
      refine ⟨c, ?_, other⟩
      rwa [Token.slice, place, ahead, List.head?_take, if_neg (by omega)] at head
    have behind := ahead 0
    rw [Nat.add_zero, List.drop_zero] at behind
    rw [behind, place, Nat.add_sub_cancel_left] at filling
    have whole := shape.filling (List.take_append_drop k rest).symm filling fun _ => visible
    rwa [List.drop_left, place, Nat.add_assoc, Nat.add_sub_cancel_left, List.take_length_add_append]

theorem spelled (tiled : Tiled text i ts) : ∀ t ∈ ts, t.kind ≠ .eof →
    Spelled t.kind (t.slice text) := by
  induction tiled with
  | stop kind =>
    intro t member other
    rw [List.mem_singleton.mp member] at other
    exact absurd kind other
  | token _ _ _ _ spelled _ ih => exact List.forall_mem_cons.mpr ⟨fun _ => spelled, ih⟩

end Tiled

theorem Scanned.tiled {cs : List Char} {p : Position} {ts : List Token} (scanned : Scanned cs p ts)
    (front : List Char) (place : p.offset = front.length) : Tiled (front ++ cs) front.length ts := by
  induction scanned generalizing front with
  | done p =>
    have ends : Ending ((front ++ []).drop front.length) := by simpa using Ending.filling .nil
    exact .stop rfl (by simp [Span.ofLength, place]) (by simp [Span.ofLength, place]) (by simp) ends
  | @gap c xs rest p ts lexeme _ ih =>
    have next : (p.behind (c :: xs)).offset = (front ++ c :: xs).length := by simp [place]
    have later := ih _ next
    rw [List.append_assoc, List.length_append] at later
    exact later.earlier (lexemeAt_gap lexeme)
  | @token c xs rest p ts k lexeme _ ih =>
    have next : (p.behind (c :: xs)).offset = (front ++ c :: xs).length := by simp [place]
    have later := ih _ next
    have stop : (front ++ c :: xs).length = p.offset + (xs.length + 1) := by simp [place]
    rw [List.append_assoc, stop] at later
    have more : k ≠ .eof := by
      rintro rfl
      exact lexemeAt_ne_eof lexeme
    refine .token more (Nat.le_of_eq place.symm) (by simp [Span.ofLength]) ?_ ?_ later
    · simpa [Span.ofLength, place] using Filling.nil
    · rw [Token.slice_ofLength place]
      exact .of_lexemeAt lexeme

def sinceNewline (cs : List Char) : Nat := (cs.reverse.takeWhile (· ≠ '\n')).length

theorem Position.origin_behind (cs : List Char) :
    Position.origin.behind cs = ⟨cs.length, 1 + cs.count '\n', 1 + sinceNewline cs⟩ := by
  induction cs using List.reverseRecOn with
  | nil => rfl
  | append_singleton cs c ih =>
    rw [Position.behind_append, ih]
    by_cases newline : c = '\n'
    · simp [newline, Position.behind, Position.after, sinceNewline]
      omega
    · simp [newline, Position.behind, Position.after, sinceNewline]
      omega

/-- The tokens of a text stand in order and apart, tile the text up to its end, have the line and
column of their first character, and are read from their own characters alone. -/
theorem scan_tiles {text : String} {tokens : List Token} (scanned : scan text = .ok tokens) :
    Tiled text.toList 0 tokens ∧
      tokens.Pairwise (fun a b => a.span.stop ≤ b.span.start) ∧
      (∀ t ∈ tokens, t.span.line = 1 + (text.toList.take t.span.start).count '\n' ∧
        t.span.col = 1 + sinceNewline (text.toList.take t.span.start)) ∧
      ∀ t ∈ tokens, t.kind ≠ .eof →
        spelling (String.ofList (t.slice text.toList)) = .ok [t.kind, .eof] := by
  have read : Scanned text.toList .origin tokens := scanned_of_scanFrom scanned
  have tiled : Tiled text.toList 0 tokens := read.tiled [] rfl
  refine ⟨tiled, read.ordered.apart, fun t member => ?_, fun t member more => ?_⟩
  · have place := read.position t member
    rw [Position.origin_behind] at place
    injection place with _ line col
    exact ⟨line.symm, col.symm⟩
  · have alone := (tiled.spelled t member more).spells .nil .nil
    obtain ⟨others, rescanned, kinds⟩ := alone .origin
    rw [List.append_nil] at rescanned
    rw [spelling, scan, String.toList_ofList, rescanned, ← kinds]
    rfl

def commentedText : String := "n /* x */+=\n'\\n' // end"

def commentedTokens : List Token :=
  [⟨.ident "n", ⟨0, 1, 1, 1⟩⟩, ⟨.mark .plusEq, ⟨9, 11, 1, 10⟩⟩, ⟨.str "\n", ⟨12, 16, 2, 1⟩⟩,
    ⟨.eof, ⟨23, 23, 2, 12⟩⟩]

theorem scan_tiles_comments :
    scan commentedText = .ok commentedTokens ∧ Tiled commentedText.toList 0 commentedTokens ∧
      commentedTokens.Pairwise (fun a b => a.span.stop ≤ b.span.start) ∧
      spelling "'\\n'" = .ok [.str "\n", .eof] := by
  have scanned : scan commentedText = .ok commentedTokens := ok_of_toOption (by decide +kernel)
  obtain ⟨tiled, apart, -, slices⟩ := scan_tiles scanned
  have string := slices ⟨.str "\n", ⟨12, 16, 2, 1⟩⟩ (by decide) (by decide)
  exact ⟨scanned, tiled, apart, string⟩

end SortTrace.Script
