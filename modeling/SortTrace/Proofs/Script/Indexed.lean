import SortTrace.Proofs.Script.ReaderRules

/-!
Reading tokens by their positions, where every position is checked before a token is taken from it. The
checks never fail: a list of tokens, with any number of `eof` tokens anywhere in it, is read to the
same end by positions and by a cursor.
-/

namespace SortTrace.Script

inductive Break where
  /-- There is no token at a position that one was to be taken from. -/
  | outside
  /-- A parenthesis was closed that was not open. -/
  | underflow
  | fault (e : SyntaxError)

namespace Indexed

variable (tokens : List Token)

/-- Behind the last token there is an `eof` without end. -/
def kind (i : Nat) : TokenKind :=
  match tokens[i]? with
  | some t => t.kind
  | none => .eof

def span (i : Nat) : Span :=
  match tokens[i]? with
  | some t => t.span
  | none => {}

def last (i : Nat) : Except Break Span :=
  if i = 0 then .ok {}
  else
    match tokens[i - 1]? with
    | some t => .ok t.span
    | none => .error .outside

def advance (i : Nat) : Except Break Nat :=
  match tokens[i]? with
  | some t => .ok (if t.kind = .eof then i else i + 1)
  | none => .error .outside

/-- With `depth` parentheses open: the one that closes them all is followed by an arrow. -/
def arrowBehindParens (depth i : Nat) : Except Break Bool :=
  if inside : i < tokens.length then
    match tokens[i].kind with
    | .mark .lparen => arrowBehindParens (depth + 1) (i + 1)
    | .mark .rparen =>
      if depth = 0 then .error .underflow
      else if depth = 1 then .ok (kind tokens (i + 1) = .mark .fatArrow)
      else arrowBehindParens (depth - 1) (i + 1)
    | .eof => .ok false
    | _ => arrowBehindParens depth (i + 1)
  else .ok false
termination_by tokens.length - i

def atArrow (i : Nat) : Except Break Bool :=
  match kind tokens i with
  | .ident _ => .ok (kind tokens (i + 1) = .mark .fatArrow)
  | .mark .lparen => arrowBehindParens tokens 0 i
  | _ => .ok false

/-- The position of the first `eof`, the number of tokens if there is none. -/
def ending : Nat := tokens.findIdx fun t => t.kind = .eof

end Indexed

def Reader.indexed (tokens : List Token) : Reader Nat Break where
  kind := Indexed.kind tokens
  span := Indexed.span tokens
  secondKind i := Indexed.kind tokens (i + 1)
  last := Indexed.last tokens
  advance := Indexed.advance tokens
  atArrow := Indexed.atArrow tokens
  fault := .fault

namespace Indexed

variable {tokens others : List Token}

theorem kind_eq (tokens : List Token) (i : Nat) (last : Span) :
    kind tokens i = (Cursor.mk (tokens.drop i) last).kind := by
  unfold kind Cursor.kind
  rw [← List.head?_drop]
  cases tokens.drop i <;> rfl

theorem span_eq (tokens : List Token) (i : Nat) (last : Span) :
    span tokens i = (Cursor.mk (tokens.drop i) last).span := by
  unfold span Cursor.span
  rw [← List.head?_drop]
  cases tokens.drop i <;> rfl

theorem ending_le (tokens : List Token) : ending tokens ≤ tokens.length := List.findIdx_le_length

theorem kind_ending (tokens : List Token) : kind tokens (ending tokens) = .eof := by
  unfold kind
  split
  · rename_i t found
    obtain ⟨inside, rfl⟩ := List.getElem?_eq_some_iff.mp found
    have first := @List.findIdx_getElem _ (fun t : Token => decide (t.kind = .eof)) tokens inside
    exact of_decide_eq_true first
  · rfl

theorem kind_ne_eof {i : Nat} (before : i < ending tokens) : kind tokens i ≠ .eof := by
  have inside : i < tokens.length := Nat.lt_of_lt_of_le before (ending_le tokens)
  have other := List.not_of_lt_findIdx before
  rw [kind, List.getElem?_eq_getElem inside]
  simpa using other

/-- Other tokens with the same front, up to an end of their own at the same position. -/
structure Continues (tokens others : List Token) : Prop where
  front {i : Nat} : i < ending tokens → others[i]? = tokens[i]?
  ended : kind others (ending tokens) = .eof

theorem Continues.refl (tokens : List Token) : Continues tokens tokens :=
  ⟨fun _ => rfl, kind_ending tokens⟩

theorem Continues.kind (continues : Continues tokens others) {i : Nat}
    (inside : i ≤ ending tokens) : kind others i = kind tokens i := by
  rcases Nat.lt_or_eq_of_le inside with before | rfl
  · rw [Indexed.kind, Indexed.kind, continues.front before]
  · rw [continues.ended, kind_ending]

theorem drop_eq_cons {i : Nat} (before : i < ending tokens) :
    ∃ t, tokens[i]? = some t ∧ t.kind ≠ .eof ∧ tokens.drop i = t :: tokens.drop (i + 1) := by
  have inside : i < tokens.length := Nat.lt_of_lt_of_le before (ending_le tokens)
  refine ⟨tokens[i], List.getElem?_eq_getElem inside, ?_, List.drop_eq_getElem_cons inside⟩
  have other := kind_ne_eof before
  rwa [Indexed.kind, List.getElem?_eq_getElem inside] at other

theorem arrowBehindParens_ended {i : Nat} (depth : Nat) (ended : Indexed.kind tokens i = .eof) :
    arrowBehindParens tokens depth i = .ok false := by
  unfold arrowBehindParens
  split
  · rename_i inside
    rw [Indexed.kind, List.getElem?_eq_getElem inside] at ended
    dsimp only at ended
    rw [ended]
  · rfl

theorem arrowBehindParens_drop {i : Nat} (depth : Nat) (ended : Indexed.kind tokens i = .eof) :
    Script.arrowBehindParens depth (tokens.drop i) = false := by
  rw [kind_eq tokens i {}] at ended
  cases ahead : tokens.drop i with
  | nil => rfl
  | cons t rest =>
    rw [ahead] at ended
    change t.kind = .eof at ended
    simp [Script.arrowBehindParens, ended]

theorem arrowBehindParens_eq (continues : Continues tokens others) (n : Nat) {depth i : Nat}
    (ahead : i + n = ending tokens) (nested : 0 < depth) :
    arrowBehindParens others depth i = .ok (Script.arrowBehindParens depth (tokens.drop i)) := by
  induction n generalizing depth i with
  | zero =>
    obtain rfl : i = ending tokens := ahead
    rw [arrowBehindParens_ended depth continues.ended,
      arrowBehindParens_drop depth (kind_ending tokens)]
  | succ n ih =>
    obtain ⟨t, found, other, dropped⟩ := drop_eq_cons (show i < ending tokens by omega)
    rw [← continues.front (by omega)] at found
    obtain ⟨inside, rfl⟩ := List.getElem?_eq_some_iff.mp found
    rw [dropped]
    unfold arrowBehindParens Script.arrowBehindParens
    rw [dif_pos inside]
    cases closing : others[i].kind with
    | mark m =>
      cases m with
      | lparen => exact ih (by omega) (by omega)
      | rparen =>
        dsimp only
        rw [if_neg (by omega)]
        rcases Nat.lt_or_ge 1 depth with nested | outermost
        · rw [if_neg (by omega), if_neg (by omega)]
          exact ih (by omega) (by omega)
        · rw [if_pos (by omega), if_pos outermost, continues.kind (by omega), kind_eq tokens _ others[i].span]
          rfl
      | _ => exact ih (by omega) nested
    | eof => exact absurd closing other
    | _ => exact ih (by omega) nested

theorem Continues.span (continues : Continues tokens others) {i : Nat} (before : i < ending tokens) :
    span others i = span tokens i := by
  rw [Indexed.span, Indexed.span, continues.front before]

structure At (tokens others : List Token) (n i : Nat) (c : Cursor) : Prop where
  ahead : i + n = ending tokens
  rest : c.rest = tokens.drop i
  last : last others i = .ok c.last

namespace At

variable {n i : Nat} {c : Cursor}

theorem kind (place : At tokens others n i c) : Indexed.kind tokens i = c.kind := by
  rw [kind_eq tokens i c.last, ← place.rest]

theorem span (place : At tokens others n i c) : Indexed.span tokens i = c.span := by
  rw [span_eq tokens i c.last, ← place.rest]

theorem advance (place : At tokens others (n + 1) i c) (continues : Continues tokens others) :
    Indexed.advance others i = .ok (i + 1) ∧ At tokens others n (i + 1) c.advance := by
  have ahead := place.ahead
  obtain ⟨t, found, other, dropped⟩ := drop_eq_cons (show i < ending tokens by omega)
  rw [← continues.front (by omega)] at found
  have passed : c.advance = ⟨tokens.drop (i + 1), t.span⟩ := by
    rw [Cursor.advance, place.rest, dropped]
    exact if_neg other
  refine ⟨by rw [Indexed.advance, found]; simp [other], by omega, by rw [passed], ?_⟩
  rw [passed, Indexed.last, if_neg (by omega), Nat.add_sub_cancel, found]

theorem ended (place : At tokens others 0 i c) : c.kind = .eof := by
  rw [← place.kind, show i = ending tokens from place.ahead, kind_ending]

theorem atArrow (place : At tokens others n i c) (continues : Continues tokens others) :
    Indexed.atArrow others i = .ok c.atArrow := by
  have ahead := place.ahead
  unfold Indexed.atArrow Cursor.atArrow
  rw [continues.kind (by omega), place.kind]
  cases n with
  | zero => rw [place.ended]
  | succ n =>
    obtain ⟨-, next⟩ := place.advance continues
    cases first : c.kind with
    | ident _ =>
      dsimp only
      rw [continues.kind (by omega), next.kind]
      rfl
    | mark m =>
      cases m with
      | lparen =>
        obtain ⟨t, found, -, dropped⟩ := drop_eq_cons (show i < ending tokens by omega)
        rw [← continues.front (by omega)] at found
        obtain ⟨inside, rfl⟩ := List.getElem?_eq_some_iff.mp found
        have opening : others[i].kind = .mark .lparen := by
          rw [← first, Cursor.kind, place.rest, dropped]
        dsimp only
        rw [place.rest, dropped]
        unfold arrowBehindParens Script.arrowBehindParens
        rw [dif_pos inside, opening]
        exact arrowBehindParens_eq continues n (by omega) (by omega)
      | _ => rfl
    | _ => rfl

end At

theorem start (tokens others : List Token) : At tokens others (ending tokens) 0 ⟨tokens, {}⟩ :=
  ⟨Nat.zero_add _, rfl, rfl⟩

theorem follows (continues : Continues tokens others) {apart : Span → Span → Prop}
    (alike : ∀ s, apart s s)
    (behind : apart (span others (ending tokens)) (span tokens (ending tokens))) :
    (Reader.indexed others).Follows (At tokens others) apart where
  kind place := (continues.kind (by have := place.ahead; omega)).trans place.kind
  secondKind {n i c} place more := by
    cases n with
    | zero => exact absurd place.ended more
    | succ n =>
      obtain ⟨-, next⟩ := place.advance continues
      exact (continues.kind (by have := next.ahead; omega)).trans next.kind
  span place more := (continues.span (by have := place.ahead; omega)).trans place.span
  faultSpan {n i c} place := by
    change apart (span others i) c.span
    have ahead := place.ahead
    rw [← place.span]
    rcases Nat.eq_zero_or_pos n with rfl | more
    · obtain rfl : i = ending tokens := ahead
      exact behind
    · rw [continues.span (by omega)]
      exact alike _
  last place := place.last
  atArrow place := place.atArrow continues
  advance {n i c} place more := by
    cases n with
    | zero => exact absurd place.ended more
    | succ n =>
      obtain ⟨passed, next⟩ := place.advance continues
      exact ⟨n, i + 1, rfl, passed, next⟩

theorem follows_self (tokens : List Token) : (Reader.indexed tokens).Follows (At tokens tokens) Eq :=
  follows (.refl tokens) (fun _ => rfl) rfl

end Indexed

namespace Reader

variable {κ ε α β : Type}

def program (r : Reader κ ε) (fuel : Nat) (x : κ) : Except ε Program :=
  (r.stmts fuel x).map fun read => ⟨read.1, (r.span x).cover (r.span read.2)⟩

def expr (r : Reader κ ε) (fuel : Nat) (x : κ) : Except ε Expr :=
  (r.assignment fuel x).map Prod.fst

theorem Agrees.map_eq {r : Reader κ ε} {goes : Nat → κ → Cursor → Prop} {enough : Prop} {n p : Nat}
    {a : Except ε (α × κ)} {b : Except SyntaxError (α × Cursor)}
    (agrees : Agrees r goes Eq enough n p a b) (given : enough) {f : α × κ → β} {g : α × Cursor → β}
    (same : ∀ v x c m, goes m x c → f (v, x) = g (v, c)) :
    a.map f = (b.map g).mapError r.fault ∧ ∀ s, b.map g ≠ .error (.parse .tooDeep s) := by
  cases agrees with
  | ok related passed => exact ⟨congrArg Except.ok (same _ _ _ _ related), fun s => by simp [Except.map]⟩
  | fault other spans =>
    subst spans
    refine ⟨rfl, fun s deep => other ?_⟩
    cases deep
    rfl
  | short lacking => exact absurd given lacking

end Reader

theorem Program.ofTokens_eq_map (tokens : List Token) :
    Program.ofTokens tokens =
      (Grammar.stmts (Grammar.allowance tokens) ⟨tokens, {}⟩).map fun read =>
        ⟨read.1, (Cursor.mk tokens {}).span.cover read.2.span⟩ := by
  unfold Program.ofTokens
  dsimp only
  cases Grammar.stmts (Grammar.allowance tokens) ⟨tokens, {}⟩ <;> rfl

namespace Indexed

variable {tokens others : List Token} {fuel : Nat}

theorem ending_allowed (tokens : List Token) :
    16 * ending tokens + 8 ≤ Grammar.allowance tokens := by
  have few := ending_le tokens
  unfold Grammar.allowance
  omega

theorem program_eq (enough : Grammar.allowance tokens ≤ fuel) :
    (Reader.indexed tokens).program fuel 0 = (Program.ofTokens tokens).mapError .fault ∧
      ∀ s, Program.ofTokens tokens ≠ .error (.parse .tooDeep s) := by
  have allowed := ending_allowed tokens
  have follows := follows_self tokens
  have agrees := (Reader.tracking follows fuel).stmts (Grammar.allowance tokens) _ _ _
    (start tokens tokens) allowed
  rw [Program.ofTokens_eq_map]
  refine agrees.map_eq (by omega) fun body i c n place => ?_
  rw [follows.faultSpan (start tokens tokens), follows.faultSpan place]

theorem expr_eq (enough : Grammar.allowance tokens ≤ fuel) :
    (Reader.indexed tokens).expr fuel 0 = (Expr.ofTokens tokens).mapError .fault ∧
      ∀ s, Expr.ofTokens tokens ≠ .error (.parse .tooDeep s) := by
  have allowed := ending_allowed tokens
  have agrees := (Reader.tracking (follows_self tokens) fuel).assignment (Grammar.allowance tokens)
    _ _ _ (start tokens tokens) (by omega)
  exact agrees.map_eq (by omega) fun e i c n place => rfl

theorem exists_at {i : Nat} (inside : i ≤ ending tokens) :
    ∃ c, At tokens tokens (ending tokens - i) i c := by
  have few := ending_le tokens
  cases i with
  | zero => exact ⟨_, start tokens tokens⟩
  | succ i =>
    obtain ⟨t, found, -, -⟩ := drop_eq_cons (show i < ending tokens by omega)
    refine ⟨⟨tokens.drop (i + 1), t.span⟩, by omega, rfl, ?_⟩
    rw [last, if_neg (by omega), Nat.add_sub_cancel, found]

theorem moves_forward {α : Type} {rank : Nat} {rule : Nat → Except Break (α × Nat)}
    {other : Nat → Cursor → Except SyntaxError (α × Cursor)}
    (tracks : Reader.Tracks (Reader.indexed tokens) (At tokens tokens) Eq rank 1 fuel rule other)
    {i j : Nat} {v : α} (inside : i ≤ ending tokens) (read : rule i = .ok (v, j)) :
    i < j ∧ j ≤ ending tokens := by
  obtain ⟨c, place⟩ := exists_at inside
  have agrees := tracks _ _ i c place (Nat.le_refl _)
  rw [read] at agrees
  generalize other _ c = parsed at agrees
  cases agrees with
  | ok next passed =>
    have ahead := next.ahead
    omega

theorem ending_eq_length (unended : ∀ t ∈ tokens, t.kind ≠ .eof) : ending tokens = tokens.length := by
  unfold ending
  rw [List.findIdx_eq_length]
  intro t member
  simpa using unended t member

theorem continues_eof (unended : ∀ t ∈ tokens, t.kind ≠ .eof) {eof : Token} (ended : eof.kind = .eof) :
    Continues tokens (tokens ++ [eof]) := by
  have length := ending_eq_length unended
  constructor
  · intro i before
    exact List.getElem?_append_left (by omega)
  · rw [length, kind, List.getElem?_append_right (Nat.le_refl _), Nat.sub_self]
    exact ended

end Indexed

/-- The same body, or a fault with the same words. -/
def SameReading (x y : Except SyntaxError Program) : Prop :=
  (∀ p, x = .ok p → ∃ q, y = .ok q ∧ q.body = p.body) ∧
    ∀ e, x = .error e → ∃ e', y = .error e' ∧ e'.reason = e.reason

open Indexed in
theorem Program.ofTokens_eof {tokens : List Token} (unended : ∀ t ∈ tokens, t.kind ≠ .eof)
    {eof : Token} (ended : eof.kind = .eof) :
    SameReading (Program.ofTokens (tokens ++ [eof])) (Program.ofTokens tokens) := by
  have follows := @follows _ _ (continues_eof unended ended) (fun _ _ => True) (fun _ => trivial) trivial
  have agrees := (Reader.tracking follows (Grammar.allowance (tokens ++ [eof]))).stmts
    (Grammar.allowance tokens) _ _ _ (start tokens _) (ending_allowed tokens)
  have read := (program_eq (Nat.le_refl (Grammar.allowance (tokens ++ [eof])))).1
  rw [Program.ofTokens_eq_map tokens]
  unfold Reader.program at read
  generalize (Reader.indexed (tokens ++ [eof])).stmts _ 0 = indexed at agrees read
  generalize Grammar.stmts (Grammar.allowance tokens) ⟨tokens, {}⟩ = without at agrees ⊢
  generalize Program.ofTokens (tokens ++ [eof]) = whole at read ⊢
  cases agrees with
  | @ok body i c m place passed =>
    cases whole with
    | ok p =>
      have same : p.body = body := congrArg Program.body (Except.ok.inj read).symm
      refine ⟨fun q eq => ⟨_, rfl, ?_⟩, fun e eq => by cases eq⟩
      rw [← Except.ok.inj eq, same]
    | error e => cases read
  | @fault fault s t other _ =>
    cases whole with
    | ok p => cases read
    | error e =>
      have same : SyntaxError.parse fault s = e := Break.fault.inj (Except.error.inj read)
      refine ⟨fun q eq => (by cases eq), fun d eq => ⟨_, rfl, ?_⟩⟩
      rw [← Except.error.inj eq, ← same]
      rfl
  | short lacking =>
    have allowed := ending_allowed tokens
    refine absurd ?_ lacking
    unfold Grammar.allowance at allowed ⊢
    rw [List.length_append]
    omega

/-- Reading by positions takes tokens only from positions that have one, closes only parentheses that
are open, and ends as reading by a cursor does; statements and expressions move it forward, up to the
first `eof`. Without its only `eof` a list of tokens is read as with it, up to the spans of the whole
and of faults. -/
theorem Program.ofTokens_safe (tokens : List Token) :
    (∀ fuel, Grammar.allowance tokens ≤ fuel →
      (Reader.indexed tokens).program fuel 0 = (Program.ofTokens tokens).mapError .fault ∧
      (Reader.indexed tokens).expr fuel 0 = (Expr.ofTokens tokens).mapError .fault) ∧
    (∀ s, Program.ofTokens tokens ≠ .error (.parse .tooDeep s) ∧
      Expr.ofTokens tokens ≠ .error (.parse .tooDeep s)) ∧
    (∀ fuel i j, i ≤ Indexed.ending tokens →
      (∀ s, (Reader.indexed tokens).stmt fuel i = .ok (s, j) → i < j ∧ j ≤ Indexed.ending tokens) ∧
      ∀ e, (Reader.indexed tokens).assignment fuel i = .ok (e, j) →
        i < j ∧ j ≤ Indexed.ending tokens) ∧
    ∀ eof : Token, (∀ t ∈ tokens, t.kind ≠ .eof) → eof.kind = .eof →
      SameReading (Program.ofTokens (tokens ++ [eof])) (Program.ofTokens tokens) := by
  refine ⟨fun fuel enough => ⟨(Indexed.program_eq enough).1, (Indexed.expr_eq enough).1⟩,
    fun s => ⟨(Indexed.program_eq (Nat.le_refl _)).2 s, (Indexed.expr_eq (Nat.le_refl _)).2 s⟩,
    fun fuel i j inside => ⟨fun s read => ?_, fun e read => ?_⟩,
    fun eof unended ended => Program.ofTokens_eof unended ended⟩
  · exact Indexed.moves_forward (Reader.tracking (Indexed.follows_self tokens) fuel).stmt inside read
  · exact Indexed.moves_forward (Reader.tracking (Indexed.follows_self tokens) fuel).assignment
      inside read

def nameTokens : List Token := [⟨.ident "a", ⟨0, 1, 1, 1⟩⟩, ⟨.mark .semicolon, ⟨1, 2, 1, 2⟩⟩]

theorem Program.ofTokens_safe_name :
    Indexed.ending nameTokens = 2 ∧
    (Reader.indexed nameTokens).stmt 10 0 =
      .ok (.expr (.ident "a" ⟨0, 1, 1, 1⟩) ⟨0, 2, 1, 1⟩, 2) ∧
    0 < 2 ∧ 2 ≤ Indexed.ending nameTokens ∧
    (Reader.indexed nameTokens).program 48 0 = (Program.ofTokens nameTokens).mapError .fault ∧
    SameReading (Program.ofTokens (nameTokens ++ [⟨.eof, ⟨2, 2, 1, 3⟩⟩]))
      (Program.ofTokens nameTokens) := by
  have read : (Reader.indexed nameTokens).stmt 10 0 =
      .ok (.expr (.ident "a" ⟨0, 1, 1, 1⟩) ⟨0, 2, 1, 1⟩, 2) := rfl
  obtain ⟨checked, -, moves, eof⟩ := Program.ofTokens_safe nameTokens
  obtain ⟨forward, inside⟩ := (moves 10 0 2 (Nat.zero_le _)).1 _ read
  exact ⟨rfl, read, forward, inside, (checked 48 (by decide)).1, eof _ (by decide) rfl⟩

end SortTrace.Script
