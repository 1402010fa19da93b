import SortTrace.Proofs.Script.Extents
import SortTrace.Script.Grammar

/-!
The grammar lays nodes out in the order of their tokens: a rule that starts behind token `i` and ends
behind token `j` builds a node that reaches from the one to the other, or nodes in between.
-/

namespace SortTrace.Script

open Outline (Fits Laid)

variable {ts : List Token} {i j k : Nat} {c d : Cursor}

/-- The cursor stands behind the first `i` tokens, none of which is `eof`. -/
structure Cursor.Behind (ts : List Token) (i : Nat) (c : Cursor) : Prop where
  rest : c.rest = ts.drop i
  passed : ∀ t ∈ ts.take i, t.kind ≠ .eof
  last {k : Nat} : i = k + 1 → c.last.Reaches ts k i

namespace Cursor.Behind

theorem start (ts : List Token) : Cursor.Behind ts 0 ⟨ts, {}⟩ :=
  ⟨rfl, by simp, by simp⟩

theorem advance (behind : c.Behind ts i) (more : c.kind ≠ .eof) : c.advance.Behind ts (i + 1) := by
  obtain ⟨rest, last⟩ := c
  obtain ⟨ahead, passed, -⟩ := behind
  cases rest with
  | nil => exact absurd rfl more
  | cons t rest =>
    have found : ts[i]? = some t := by
      rw [← List.head?_drop, ← show t :: rest = ts.drop i from ahead]
      rfl
    have moved : (Cursor.mk (t :: rest) last).advance = ⟨rest, t.span⟩ := if_neg more
    rw [moved]
    refine ⟨?_, ?_, ?_⟩
    · rw [← List.drop_drop, ← show t :: rest = ts.drop i from ahead]
      rfl
    · rw [List.take_add_one, found]
      intro x member
      rcases List.mem_append.mp member with member | member
      · exact passed x member
      · rw [List.mem_singleton.mp member]
        exact more
    · rintro k same
      obtain rfl : k = i := by omega
      exact .token found

theorem advance_le (behind : c.Behind ts i) : ∃ j, i ≤ j ∧ c.advance.Behind ts j := by
  by_cases ended : c.kind = .eof
  · have stays : c.advance = c := by
      obtain ⟨_ | ⟨t, rest⟩, last⟩ := c
      · rfl
      · exact if_pos ended
    exact ⟨i, Nat.le_refl i, stays.symm ▸ behind⟩
  · exact ⟨i + 1, Nat.le_succ i, behind.advance ended⟩

theorem skip_le (behind : c.Behind ts i) (m : Mark) : ∃ j, i ≤ j ∧ (c.skip m).Behind ts j := by
  unfold Cursor.skip
  split
  · exact behind.advance_le
  · exact ⟨i, Nat.le_refl i, behind⟩

theorem span_eq (behind : c.Behind ts i) {t : Token} (found : ts[i]? = some t) :
    c.span = t.span := by
  obtain ⟨inside, rfl⟩ := List.getElem?_eq_some_iff.mp found
  rw [Cursor.span, behind.rest, List.drop_eq_getElem_cons inside]

theorem span (behind : c.Behind ts i) (later : d.Behind ts j) (less : i < j) :
    c.span.Reaches ts i (i + 1) := by
  obtain ⟨k, rfl⟩ : ∃ k, j = k + 1 := ⟨j - 1, by omega⟩
  have inside := (later.last rfl).le_length
  have found : ts[i]? = some ts[i] := List.getElem?_eq_getElem (by omega)
  rw [behind.span_eq found]
  exact .token found

theorem cover (ordered : Ordered ts) (behind : c.Behind ts i) (later : d.Behind ts j)
    (less : i < j) : (c.span.cover d.last).Reaches ts i j := by
  obtain ⟨k, rfl⟩ : ∃ k, j = k + 1 := ⟨j - 1, by omega⟩
  exact (behind.span later less).cover ordered (later.last rfl) (by omega) (by omega)

theorem cover_node (ordered : Ordered ts) {s : Span} (reaches : s.Reaches ts i j)
    (later : d.Behind ts k) (less : j ≤ k) : (s.cover d.last).Reaches ts i k := by
  have inner := reaches.lt
  obtain ⟨k, rfl⟩ : ∃ l, k = l + 1 := ⟨k - 1, by omega⟩
  exact reaches.cover ordered (later.last rfl) (by omega) less

end Cursor.Behind

namespace Grammar

variable {α β : Type}

/-- What comes out, if anything does, has the property at the place where the cursor then is. -/
def Gives (ts : List Token) (P : Nat → α → Prop) (x : Except SyntaxError (α × Cursor)) : Prop :=
  ∀ a c, x = .ok (a, c) → ∃ j, c.Behind ts j ∧ P j a

namespace Gives

variable {P : Nat → α → Prop} {Q : Nat → β → Prop}

theorem ok {a : α} (behind : c.Behind ts j) (holds : P j a) : Gives ts P (.ok (a, c)) := by
  rintro _ _ ⟨⟩
  exact ⟨j, behind, holds⟩

theorem fail (c : Cursor) (fault : ParseFault) : Gives ts P (c.fail fault) := by
  rintro _ _ ⟨⟩

theorem bind {x : Except SyntaxError (α × Cursor)}
    {k : α × Cursor → Except SyntaxError (β × Cursor)} (first : Gives ts P x)
    (further : ∀ j a c, c.Behind ts j → P j a → Gives ts Q (k (a, c))) : Gives ts Q (x >>= k) := by
  rcases x with e | ⟨a, c⟩
  · rintro _ _ ⟨⟩
  · obtain ⟨j, behind, holds⟩ := first a c rfl
    exact further j a c behind holds

theorem expect {k : Cursor → Except SyntaxError (β × Cursor)} {wanted : TokenKind}
    (behind : c.Behind ts i) (more : wanted ≠ .eof)
    (further : ∀ c : Cursor, c.Behind ts (i + 1) → Gives ts Q (k c)) :
    Gives ts Q (c.expect wanted >>= k) := by
  unfold Cursor.expect
  split
  · rename_i seen
    exact further _ (behind.advance (seen ▸ more))
  · rintro _ _ ⟨⟩

theorem name (behind : c.Behind ts i) : Gives ts (fun j _ => j = i + 1) c.name := by
  unfold Cursor.name
  split
  · rename_i name kind
    exact .ok (behind.advance (by simp [kind])) rfl
  · exact .fail c _

theorem property (behind : c.Behind ts i) : Gives ts (fun j _ => j = i + 1) c.property := by
  unfold Cursor.property
  split
  · rename_i name kind
    exact .ok (behind.advance (by simp [kind])) rfl
  · rename_i w kind
    exact .ok (behind.advance (by simp [kind])) rfl
  · exact .fail c _

end Gives

def Fitting (ts : List Token) (outline : α → Outline)
    (rule : Cursor → Except SyntaxError (α × Cursor)) : Prop :=
  ∀ i c, c.Behind ts i → Gives ts (fun j a => Fits ts i j (outline a)) (rule c)

def Laying (ts : List Token) (outlines : α → List Outline)
    (rule : Cursor → Except SyntaxError (α × Cursor)) : Prop :=
  ∀ i c, c.Behind ts i → Gives ts (fun j a => Laid ts i j (outlines a)) (rule c)

def Passing (ts : List Token) (rule : Cursor → Except SyntaxError (α × Cursor)) : Prop :=
  ∀ i c, c.Behind ts i → Gives ts (fun j _ => i < j) (rule c)

theorem withSpan_fits {e : Expr} {s : Span} {l : Nat} (fits : Fits ts k l e.outline)
    (reaches : s.Reaches ts i j) (starts : i ≤ k) (stops : l ≤ j) :
    Fits ts i j (e.withSpan s).outline := by
  cases e <;> exact .mk reaches (fits.laid.mono starts stops)

structure Extents (ts : List Token) (fuel : Nat) : Prop where
  ordered : Ordered ts
  stmt : Fitting ts Stmt.outline (stmt fuel)
  stmts : Laying ts Stmt.outlines (stmts fuel)
  block (i : Nat) (c : Cursor) (behind : c.Behind ts i) :
    Gives ts (fun j body => i < j ∧ Laid ts i j (Stmt.outlines body)) (block fuel c)
  blockStmts : Laying ts Stmt.outlines (blockStmts fuel)
  varDecl : Fitting ts VarDecl.outline (varDecl fuel)
  varDeclFrom (kind : DeclKind) (start : Span) (name : String) (k : Nat) (c : Cursor)
    (first : start.Reaches ts k (k + 1)) (behind : c.Behind ts (k + 2)) :
    Gives ts (fun j d => Fits ts k j d.outline) (varDeclFrom fuel kind start name c)
  declarators (name : String) (k : Nat) (c : Cursor) (behind : c.Behind ts (k + 1)) :
    Gives ts (fun j ds => k < j ∧ Laid ts k j (Declarator.outlines ds)) (declarators fuel name c)
  initializer : Laying ts Expr.optionOutlines (initializer fuel)
  func (named : Bool) : Fitting ts Func.outline (func fuel named)
  header (i : Nat) (c : Cursor) (behind : c.Behind ts i) :
    Gives ts (fun j e => Laid ts i j [e.outline]) (header fuel c)
  ifElse : Fitting ts Stmt.outline (ifElse fuel)
  forLoop : Fitting ts Loop.outline (forLoop fuel)
  forHeader (start : Span) (init : ForInit) (k i : Nat) (c : Cursor)
    (first : start.Reaches ts k (k + 1)) (inits : Laid ts (k + 1) i init.outlines)
    (behind : c.Behind ts i) :
    Gives ts (fun j l => Fits ts k j l.outline) (forHeader fuel start init c)
  exprUnless (m : Mark) : Laying ts Expr.optionOutlines (exprUnless fuel m)
  forEach (start : Span) (decl : Option DeclKind) (binding : String) (values : Bool) (k i : Nat)
    (c : Cursor) (first : start.Reaches ts k (k + 1)) (less : k < i) (behind : c.Behind ts i) :
    Gives ts (fun j l => Fits ts k j l.outline) (forEach fuel start decl binding values c)
  whileLoop : Fitting ts Loop.outline (whileLoop fuel)
  doWhile : Fitting ts Loop.outline (doWhile fuel)
  assignment : Fitting ts Expr.outline (assignment fuel)
  conditional : Fitting ts Expr.outline (conditional fuel)
  binary (least : Nat) : Fitting ts Expr.outline (binary fuel least)
  binaryTail (least : Nat) (lhs : Expr) (k i : Nat) (c : Cursor) (fits : Fits ts k i lhs.outline)
    (behind : c.Behind ts i) :
    Gives ts (fun j e => Fits ts k j e.outline) (binaryTail fuel least lhs c)
  unary : Fitting ts Expr.outline (unary fuel)
  postfixTail (e : Expr) (k i : Nat) (c : Cursor) (fits : Fits ts k i e.outline)
    (behind : c.Behind ts i) :
    Gives ts (fun j e => Fits ts k j e.outline) (postfixTail fuel e c)
  primary : Fitting ts Expr.outline (primary fuel)
  items (close : Mark) (i : Nat) (c : Cursor) (behind : c.Behind ts i) :
    Gives ts (fun j es => Laid ts i j (Expr.outlines es)) (items fuel close c)
  arrow : Fitting ts Expr.outline (arrow fuel)

theorem extents_zero (ordered : Ordered ts) : Extents ts 0 := by
  constructor <;> intros
  all_goals first
    | exact ordered
    | exact Gives.fail _ _
    | exact fun _ c _ => Gives.fail c _

theorem paramNames_behind (fuel : Nat) (i : Nat) (c : Cursor) (behind : c.Behind ts i) :
    Gives ts (fun j _ => i ≤ j) (paramNames fuel c) := by
  induction fuel generalizing i c with
  | zero => exact .fail c _
  | succ fuel ih =>
    unfold paramNames
    split
    · exact .ok behind (Nat.le_refl i)
    refine (Gives.name behind).bind fun j name c behind passed => ?_
    dsimp only
    split
    · obtain ⟨k, less, behind⟩ := behind.advance_le
      exact (ih k _ behind).bind fun l names c behind passed => .ok behind (by omega)
    · exact .ok behind (by omega)

theorem params_passing (fuel : Nat) : Passing ts (params fuel) := by
  intro i c behind
  refine .expect behind (by simp) fun c behind => ?_
  refine (paramNames_behind fuel _ c behind).bind fun j names c behind passed => ?_
  exact .expect behind (by simp) fun c behind => .ok behind (by omega)

theorem arrowParams_passing (fuel : Nat) : Passing ts (arrowParams fuel) := by
  intro i c behind
  cases fuel with
  | zero => exact .fail c _
  | succ fuel =>
    rw [arrowParams]
    split
    · exact params_passing fuel i c behind
    · exact (Gives.name behind).bind fun j name c behind passed => .ok behind (by omega)

namespace Extents

variable {fuel : Nat} (h : Extents ts fuel)

include h

theorem stmts_succ : Laying ts Stmt.outlines (Grammar.stmts (fuel + 1)) := by
  intro i c behind
  rw [Grammar.stmts]
  split
  · exact .ok behind (.nil (Nat.le_refl i))
  · refine (h.stmt i c behind).bind fun j first c behind fits => ?_
    refine (h.stmts j c behind).bind fun k rest c behind laid => ?_
    exact .ok behind (.cons (Nat.le_refl i) fits laid)

theorem block_succ (i : Nat) (c : Cursor) (behind : c.Behind ts i) :
    Gives ts (fun j body => i < j ∧ Laid ts i j (Stmt.outlines body))
      (Grammar.block (fuel + 1) c) := by
  refine .expect behind (by simp) fun c behind => ?_
  refine (h.blockStmts _ c behind).bind fun j body c behind laid => ?_
  obtain ⟨k, less, behind⟩ := behind.advance_le
  have inner := laid.le
  exact .ok behind ⟨by omega, laid.mono (by omega) less⟩

theorem blockStmts_succ : Laying ts Stmt.outlines (Grammar.blockStmts (fuel + 1)) := by
  intro i c behind
  rw [Grammar.blockStmts]
  split
  · exact .ok behind (.nil (Nat.le_refl i))
  split
  · exact .fail c _
  · refine (h.stmt i c behind).bind fun j first c behind fits => ?_
    refine (h.blockStmts j c behind).bind fun k rest c behind laid => ?_
    exact .ok behind (.cons (Nat.le_refl i) fits laid)

theorem varDecl_succ : Fitting ts VarDecl.outline (Grammar.varDecl (fuel + 1)) := by
  intro i c behind
  rw [Grammar.varDecl]
  cases declared : c.kind.declKind? with
  | none => exact .fail c _
  | some kind =>
    have more : c.kind ≠ .eof := by
      intro ended
      simp [ended, TokenKind.declKind?] at declared
    have first := behind.span (behind.advance more) (Nat.lt_succ_self i)
    refine (Gives.name (behind.advance more)).bind fun j name d next passed => ?_
    subst passed
    exact h.varDeclFrom kind _ name i d first next

theorem varDeclFrom_succ (kind : DeclKind) (start : Span) (name : String) (k : Nat) (c : Cursor)
    (first : start.Reaches ts k (k + 1)) (behind : c.Behind ts (k + 2)) :
    Gives ts (fun j d => Fits ts k j d.outline)
      (Grammar.varDeclFrom (fuel + 1) kind start name c) := by
  refine (h.declarators name (k + 1) c behind).bind fun j ds c behind laid => ?_
  obtain ⟨less, laid⟩ := laid
  have inside := laid.mono (Nat.le_succ k) (Nat.le_refl j)
  exact .ok behind (.mk (behind.cover_node h.ordered first (by omega)) inside)

theorem declarators_succ (name : String) (k : Nat) (c : Cursor) (behind : c.Behind ts (k + 1)) :
    Gives ts (fun j ds => k < j ∧ Laid ts k j (Declarator.outlines ds))
      (Grammar.declarators (fuel + 1) name c) := by
  refine (h.initializer _ c behind).bind fun j init d next laid => ?_
  have less := laid.le
  have first : Fits ts k j (Declarator.mk name init (c.last.cover d.last)).outline := by
    have reaches := next.cover_node h.ordered (behind.last rfl) less
    cases init <;> exact .mk reaches laid
  dsimp only
  split
  · obtain ⟨m, passed, next⟩ := next.advance_le
    refine (Gives.name next).bind fun l other d next step => ?_
    subst step
    refine (h.declarators other m d next).bind fun l rest d next laid => ?_
    exact .ok next ⟨by omega, .cons (Nat.le_refl k) first (laid.2.mono passed (Nat.le_refl l))⟩
  · exact .ok next ⟨by omega, .single first (Nat.le_refl k) (Nat.le_refl j)⟩

theorem initializer_succ : Laying ts Expr.optionOutlines (Grammar.initializer (fuel + 1)) := by
  intro i c behind
  rw [Grammar.initializer]
  split
  · obtain ⟨j, less, behind⟩ := behind.advance_le
    refine (h.assignment j _ behind).bind fun k e c behind fits => ?_
    exact .ok behind (.single fits less (Nat.le_refl k))
  · exact .ok behind (.nil (Nat.le_refl i))

theorem func_succ (named : Bool) : Fitting ts Func.outline (Grammar.func (fuel + 1) named) := by
  intro i c start
  refine .expect start (by simp) fun d behind => ?_
  have body (name : Option String) (m : Nat) (d : Cursor) (behind : d.Behind ts m) (less : i < m) :
      Gives ts (fun j f => Fits ts i j (Func.outline f))
        (Grammar.params fuel d >>= fun ps => Grammar.block fuel ps.2 >>= fun body =>
          pure (.block name ps.1 body.1 (c.span.cover body.2.last), body.2)) := by
    refine (params_passing fuel m d behind).bind fun j ps d behind passed => ?_
    refine (h.block j d behind).bind fun l body d behind laid => ?_
    have inside : Laid ts i l (Stmt.outlines body) := laid.2.mono (by omega) (Nat.le_refl l)
    exact .ok behind (.mk (start.cover h.ordered behind (by omega)) inside)
  cases kind : d.kind with
  | ident name => exact body name _ _ (behind.advance (by simp [kind])) (by omega)
  | _ =>
    cases named with
    | true => exact .fail d _
    | false => exact body none _ d behind (by omega)

theorem header_succ (i : Nat) (c : Cursor) (behind : c.Behind ts i) :
    Gives ts (fun j e => Laid ts i j [e.outline]) (Grammar.header (fuel + 1) c) := by
  refine .expect behind (by simp) fun c behind => ?_
  refine (h.assignment _ c behind).bind fun j e c behind fits => ?_
  exact .expect behind (by simp) fun c behind => .ok behind (.single fits (by omega) (by omega))

theorem ifElse_succ : Fitting ts Stmt.outline (Grammar.ifElse (fuel + 1)) := by
  intro i c start
  refine .expect start (by simp) fun d behind => ?_
  refine (h.header _ d behind).bind fun j test d behind tested => ?_
  refine (h.stmt j d behind).bind fun k consequent d behind followed => ?_
  have parts : Laid ts i k [test.outline, consequent.outline] :=
    (tested.mono (by omega) (Nat.le_refl j)).append (.single followed (Nat.le_refl j) (Nat.le_refl k))
  dsimp only
  split
  · obtain ⟨l, less, behind⟩ := behind.advance_le
    refine (h.stmt l _ behind).bind fun m alternate d behind fits => ?_
    have whole := parts.append (.single fits less (Nat.le_refl m))
    have inner := followed.lt
    have outer := tested.le
    have further := fits.lt
    exact .ok behind (.mk (start.cover h.ordered behind (by omega)) whole)
  · have inner := followed.lt
    have outer := tested.le
    exact .ok behind (.mk (start.cover h.ordered behind (by omega)) parts)

theorem forLoop_succ : Fitting ts Loop.outline (Grammar.forLoop (fuel + 1)) := by
  intro i c start
  refine .expect start (by simp) fun c' behind => ?_
  refine .expect behind (by simp) fun d behind => ?_
  have first : c.span.Reaches ts i (i + 1) := start.span behind (by omega)
  have plain : Gives ts (fun j l => Fits ts i j (Loop.outline l))
      (Grammar.assignment fuel d >>= fun e => Grammar.forHeader fuel c.span (.expr e.1) e.2) := by
    refine (h.assignment _ d behind).bind fun j e d behind fits => ?_
    exact h.forHeader _ _ i j d first (.single fits (by omega) (Nat.le_refl j)) behind
  cases kind : d.kind with
  | word w =>
    have more : d.kind ≠ .eof := by simp [kind]
    cases w with
    | letWord | constWord | varWord =>
      refine (Gives.name (behind.advance more)).bind fun j name e next passed => ?_
      subst passed
      dsimp only
      cases each : e.eachWord? with
      | some values =>
        obtain ⟨k, less, next⟩ := next.advance_le
        exact h.forEach _ _ _ _ i k _ first (by omega) next
      | none =>
        have named := behind.span next (by omega)
        refine (h.varDeclFrom _ _ _ _ e named next).bind fun j decl e next fits => ?_
        exact h.forHeader _ _ i j e first (.single fits (by omega) (Nat.le_refl j)) next
    | _ => exact plain
  | ident name =>
    dsimp only
    cases each : d.advance.eachWord? with
    | some values =>
      obtain ⟨j, less, next⟩ := behind.advance_le
      obtain ⟨k, further, next⟩ := next.advance_le
      exact h.forEach _ _ _ _ i k _ first (by omega) next
    | none => exact plain
  | mark m =>
    cases m with
    | semicolon => exact h.forHeader _ _ i _ d first (.nil (by omega)) behind
    | _ => exact plain
  | _ => exact plain

theorem forHeader_succ (start : Span) (init : ForInit) (k i : Nat) (c : Cursor)
    (first : start.Reaches ts k (k + 1)) (inits : Laid ts (k + 1) i init.outlines)
    (behind : c.Behind ts i) :
    Gives ts (fun j l => Fits ts k j l.outline) (Grammar.forHeader (fuel + 1) start init c) := by
  refine .expect behind (by simp) fun c behind => ?_
  refine (h.exprUnless _ _ c behind).bind fun j test c behind tested => ?_
  refine .expect behind (by simp) fun c behind => ?_
  refine (h.exprUnless _ _ c behind).bind fun l update c behind updated => ?_
  refine .expect behind (by simp) fun c behind => ?_
  refine (h.stmt _ c behind).bind fun m body c behind fits => ?_
  have less : k < m := by
    have bounds := And.intro inits.le tested.le
    have further := And.intro updated.le fits.lt
    omega
  have steps := (updated.mono (Nat.le_succ j) (Nat.le_succ l)).append
    (.single fits (Nat.le_refl _) (Nat.le_refl m))
  have parts := inits.append ((tested.mono (Nat.le_succ i) (Nat.le_refl j)).append steps)
  exact .ok behind (.mk (behind.cover_node h.ordered first (by omega)) parts)

theorem exprUnless_succ (m : Mark) :
    Laying ts Expr.optionOutlines (Grammar.exprUnless (fuel + 1) m) := by
  intro i c behind
  rw [Grammar.exprUnless]
  split
  · exact .ok behind (.nil (Nat.le_refl i))
  · refine (h.assignment i c behind).bind fun j e c behind fits => ?_
    exact .ok behind (.single fits (Nat.le_refl i) (Nat.le_refl j))

theorem forEach_succ (start : Span) (decl : Option DeclKind) (binding : String) (values : Bool)
    (k i : Nat) (c : Cursor) (first : start.Reaches ts k (k + 1)) (less : k < i)
    (behind : c.Behind ts i) :
    Gives ts (fun j l => Fits ts k j l.outline)
      (Grammar.forEach (fuel + 1) start decl binding values c) := by
  refine (h.assignment i c behind).bind fun j iterable c behind values => ?_
  refine .expect behind (by simp) fun c behind => ?_
  refine (h.stmt _ c behind).bind fun l body c behind fits => ?_
  have inner := values.lt
  have outer := fits.lt
  have parts : Laid ts (k + 1) l [iterable.outline, body.outline] :=
    .cons less values (.single fits (Nat.le_succ j) (Nat.le_refl l))
  exact .ok behind (.mk (behind.cover_node h.ordered first (by omega)) parts)

theorem whileLoop_succ : Fitting ts Loop.outline (Grammar.whileLoop (fuel + 1)) := by
  intro i c start
  refine .expect start (by simp) fun c behind => ?_
  refine (h.header _ c behind).bind fun j test c behind tested => ?_
  refine (h.stmt j c behind).bind fun k body c behind fits => ?_
  have inner := tested.le
  have outer := fits.lt
  have parts := tested.append (.single fits (Nat.le_refl j) (Nat.le_refl k))
  exact .ok behind (.mk (start.cover h.ordered behind (by omega)) parts)

theorem doWhile_succ : Fitting ts Loop.outline (Grammar.doWhile (fuel + 1)) := by
  intro i c start
  refine .expect start (by simp) fun c behind => ?_
  refine (h.stmt _ c behind).bind fun j body c behind fits => ?_
  refine .expect behind (by simp) fun c behind => ?_
  refine (h.header _ c behind).bind fun k test c behind tested => ?_
  obtain ⟨l, less, behind⟩ := behind.skip_le .semicolon
  have inner := fits.lt
  have outer := tested.le
  have parts : Laid ts (i + 1) l [body.outline, test.outline] :=
    .cons (Nat.le_refl _) fits (tested.mono (Nat.le_succ j) less)
  exact .ok behind (.mk (start.cover h.ordered behind (by omega)) parts)

theorem assignment_succ : Fitting ts Expr.outline (Grammar.assignment (fuel + 1)) := by
  intro i c start
  rw [Grammar.assignment]
  split
  · exact h.arrow i c start
  refine (h.conditional i c start).bind fun j target d behind targeted => ?_
  dsimp only
  cases operator : d.assignOp? with
  | none => exact .ok behind targeted
  | some op =>
    dsimp only
    split
    · obtain ⟨k, less, behind⟩ := behind.advance_le
      refine (h.assignment k _ behind).bind fun l value d behind valued => ?_
      exact .ok behind (.mk (targeted.cover h.ordered valued less) (.pair targeted valued less))
    · exact .fail d _

theorem conditional_succ : Fitting ts Expr.outline (Grammar.conditional (fuel + 1)) := by
  intro i c start
  refine (h.binary 1 i c start).bind fun j test d behind tested => ?_
  dsimp only
  split
  · obtain ⟨k, less, behind⟩ := behind.advance_le
    refine (h.assignment k _ behind).bind fun l consequent d behind fits => ?_
    refine .expect behind (by simp) fun d behind => ?_
    refine (h.assignment _ d behind).bind fun m alternate d behind otherwise => ?_
    have between : j ≤ l + 1 := by
      have inner := fits.lt
      omega
    have parts : Laid ts i m [test.outline, consequent.outline, alternate.outline] :=
      .cons (Nat.le_refl i) tested ((Laid.pair fits otherwise (Nat.le_succ l)).mono less (Nat.le_refl m))
    exact .ok behind (.mk (tested.cover h.ordered otherwise between) parts)
  · exact .ok behind tested

theorem binary_succ (least : Nat) : Fitting ts Expr.outline (Grammar.binary (fuel + 1) least) := by
  intro i c start
  refine (h.unary i c start).bind fun j lhs d behind fits => ?_
  exact h.binaryTail least lhs i j d fits behind

theorem binaryTail_succ (least : Nat) (lhs : Expr) (k i : Nat) (c : Cursor)
    (fits : Fits ts k i lhs.outline) (behind : c.Behind ts i) :
    Gives ts (fun j e => Fits ts k j e.outline) (Grammar.binaryTail (fuel + 1) least lhs c) := by
  rw [Grammar.binaryTail]
  cases operator : c.binOp? with
  | none => exact .ok behind fits
  | some op =>
    dsimp only
    split
    · exact .ok behind fits
    obtain ⟨j, less, behind⟩ := behind.advance_le
    refine (h.binary _ j _ behind).bind fun l rhs d behind further => ?_
    have whole : Fits ts k l (Expr.binary lhs op rhs (lhs.span.cover rhs.span)).outline :=
      .mk (fits.cover h.ordered further less) (.pair fits further less)
    exact h.binaryTail least _ k l d whole behind

theorem unary_operand (node : Expr → Span → Expr) {i : Nat} {c : Cursor} (start : c.Behind ts i)
    (more : c.kind ≠ .eof)
    (outline : ∀ e s, (node e s).outline = .mk (.expr (node e s)) [e.outline])
    (span : ∀ e s, (node e s).span = s) :
    Gives ts (fun j e => Fits ts i j (Expr.outline e))
      (Grammar.unary fuel c.advance >>= fun e => pure (node e.1 (c.span.cover e.1.span), e.2)) := by
  have first := start.span (start.advance more) (Nat.lt_succ_self i)
  refine (h.unary _ _ (start.advance more)).bind fun j e d behind fits => ?_
  have less := fits.lt
  have reaches := first.cover h.ordered fits.span (Nat.le_succ i) (by omega)
  refine .ok behind ?_
  rw [outline]
  refine .mk ?_ (.single fits (Nat.le_succ i) (Nat.le_refl j))
  rwa [Node.span, span]

theorem unary_succ : Fitting ts Expr.outline (Grammar.unary (fuel + 1)) := by
  intro i c start
  rw [Grammar.unary]
  cases prefixed : c.kind.unaryOp? with
  | some op =>
    have more : c.kind ≠ .eof := by
      intro ended
      simp [ended, TokenKind.unaryOp?] at prefixed
    exact h.unary_operand (.unary op) start more (fun _ _ => rfl) fun _ _ => rfl
  | none =>
    cases updated : c.kind.updateOp? with
    | some op =>
      have more : c.kind ≠ .eof := by
        intro ended
        simp [ended, TokenKind.updateOp?] at updated
      exact h.unary_operand (.update op true) start more (fun _ _ => rfl) fun _ _ => rfl
    | none =>
      refine (h.primary i c start).bind fun j e d behind fits => ?_
      exact h.postfixTail e i j d fits behind

theorem postfixTail_succ (e : Expr) (k i : Nat) (c : Cursor) (fits : Fits ts k i e.outline)
    (behind : c.Behind ts i) :
    Gives ts (fun j e => Fits ts k j e.outline) (Grammar.postfixTail (fuel + 1) e c) := by
  rw [Grammar.postfixTail]
  cases kind : c.kind with
  | mark m =>
    have next := behind.advance (by simp [kind])
    cases m with
    | lparen =>
      refine (h.items _ _ _ next).bind fun j args d next laid => ?_
      have less := laid.le
      have whole : Fits ts k j (Expr.call e args (e.span.cover d.last)).outline :=
        .mk (next.cover_node h.ordered fits.span (by omega))
          (.cons (Nat.le_refl k) fits (laid.mono (Nat.le_succ i) (Nat.le_refl j)))
      exact h.postfixTail _ k j d whole next
    | dot =>
      refine (Gives.property next).bind fun j name d next passed => ?_
      have whole : Fits ts k j (Expr.member e name (e.span.cover d.last)).outline :=
        .mk (next.cover_node h.ordered fits.span (by omega))
          (.single fits (Nat.le_refl k) (by omega))
      exact h.postfixTail _ k j d whole next
    | lbracket =>
      refine (h.assignment _ _ next).bind fun j i' d next inner => ?_
      refine .expect next (by simp) fun d next => ?_
      have less := inner.lt
      have whole : Fits ts k (j + 1) (Expr.index e i' (e.span.cover d.last)).outline :=
        .mk (next.cover_node h.ordered fits.span (by omega))
          ((Laid.pair fits inner (Nat.le_succ i)).mono (Nat.le_refl k) (Nat.le_succ j))
      exact h.postfixTail _ k _ d whole next
    | plusPlus | minusMinus =>
      refine h.postfixTail _ k _ _ (.mk ?_ ?_) next
      · exact next.cover_node h.ordered fits.span (Nat.le_succ i)
      · exact .single fits (Nat.le_refl k) (Nat.le_succ i)
    | _ => exact .ok behind fits
  | _ => exact .ok behind fits

theorem primary_leaf {e : Expr} {i : Nat} {c : Cursor} (start : c.Behind ts i)
    (more : c.kind ≠ .eof) (shape : e.outline = .mk (.expr e) [])
    (span : e.span = c.span.cover c.advance.last) :
    Gives ts (fun j e => Fits ts i j (Expr.outline e)) (.ok (e, c.advance)) := by
  have next := start.advance more
  have reaches := start.cover h.ordered next (Nat.lt_succ_self i)
  refine .ok next ?_
  rw [shape]
  refine .mk ?_ (.nil (Nat.le_succ i))
  rwa [Node.span, span]

theorem primary_succ : Fitting ts Expr.outline (Grammar.primary (fuel + 1)) := by
  intro i c start
  rw [Grammar.primary]
  by_cases ended : c.kind = .eof
  · rw [ended]
    exact .fail c _
  have next := start.advance ended
  cases kind : c.kind with
  | number _ | str _ | template _ | ident _ => exact h.primary_leaf start ended rfl rfl
  | word w =>
    cases w with
    | trueWord | falseWord | nullWord => exact h.primary_leaf start ended rfl rfl
    | functionWord =>
      refine (h.func false i c start).bind fun j f d behind fits => ?_
      exact .ok behind (.mk (start.cover h.ordered behind fits.lt)
        (.single fits (Nat.le_refl i) (Nat.le_refl j)))
    | _ => exact .fail c _
  | mark m =>
    cases m with
    | lbracket =>
      refine (h.items _ _ _ next).bind fun j es d behind laid => ?_
      have less := laid.le
      exact .ok behind (.mk (start.cover h.ordered behind less)
        (laid.mono (Nat.le_succ i) (Nat.le_refl j)))
    | lparen =>
      refine (h.assignment _ _ next).bind fun j e d behind fits => ?_
      refine .expect behind (by simp) fun d behind => ?_
      have less := fits.lt
      exact .ok behind (withSpan_fits fits (start.cover h.ordered behind (by omega)) (Nat.le_succ i)
        (Nat.le_succ j))
    | _ => exact .fail c _
  | eof => exact absurd kind ended

theorem stmt_spanned {node : Span → Stmt} {parts : List Outline} {i j : Nat} {c d : Cursor}
    (start : c.Behind ts i) (behind : d.Behind ts j) (less : i < j) (laid : Laid ts i j parts)
    (outline : ∀ s, (node s).outline = .mk (.stmt (node s)) parts)
    (span : ∀ s, (node s).span = s) :
    Gives ts (fun j s => Fits ts i j (Stmt.outline s)) (.ok (node (c.span.cover d.last), d)) := by
  refine .ok behind ?_
  rw [outline]
  refine .mk ?_ laid
  rw [Node.span, span]
  exact start.cover h.ordered behind less

theorem stmt_closed {node : Span → Stmt} {parts : List Outline} {i j : Nat} {c d : Cursor}
    (start : c.Behind ts i) (behind : d.Behind ts j) (less : i < j) (laid : Laid ts i j parts)
    (outline : ∀ s, (node s).outline = .mk (.stmt (node s)) parts)
    (span : ∀ s, (node s).span = s) :
    Gives ts (fun j s => Fits ts i j (Stmt.outline s))
      (.ok (node (c.span.cover (d.skip .semicolon).last), d.skip .semicolon)) := by
  obtain ⟨m, inside, behind⟩ := behind.skip_le .semicolon
  exact h.stmt_spanned start behind (by omega) (laid.mono (Nat.le_refl i) inside) outline span

theorem stmt_succ : Fitting ts Stmt.outline (Grammar.stmt (fuel + 1)) := by
  intro i c start
  rw [Grammar.stmt]
  have plain : Gives ts (fun j s => Fits ts i j (Stmt.outline s))
      (Grammar.assignment fuel c >>= fun e =>
        pure (.expr e.1 (c.span.cover (e.2.skip .semicolon).last), e.2.skip .semicolon)) := by
    refine (h.assignment i c start).bind fun j e d behind fits => ?_
    exact h.stmt_closed start behind fits.lt (.whole fits) (fun _ => rfl) fun _ => rfl
  cases kind : c.kind with
  | word w =>
    have next := start.advance (by simp [kind])
    have nothing : Laid ts i (i + 1) [] := .nil (Nat.le_succ i)
    cases w with
    | letWord | constWord | varWord =>
      refine (h.varDecl i c start).bind fun j decl d behind fits => ?_
      exact h.stmt_closed start behind fits.lt (.whole fits) (fun _ => rfl) fun _ => rfl
    | functionWord =>
      refine (h.func true i c start).bind fun j f d behind fits => ?_
      exact h.stmt_spanned start behind fits.lt (.whole fits) (fun _ => rfl) fun _ => rfl
    | ifWord => exact h.ifElse i c start
    | forWord =>
      refine (h.forLoop i c start).bind fun j l d behind fits => ?_
      exact h.stmt_spanned start behind fits.lt (.whole fits) (fun _ => rfl) fun _ => rfl
    | whileWord =>
      refine (h.whileLoop i c start).bind fun j l d behind fits => ?_
      exact h.stmt_spanned start behind fits.lt (.whole fits) (fun _ => rfl) fun _ => rfl
    | doWord =>
      refine (h.doWhile i c start).bind fun j l d behind fits => ?_
      exact h.stmt_spanned start behind fits.lt (.whole fits) (fun _ => rfl) fun _ => rfl
    | returnWord =>
      dsimp only
      split
      · exact h.stmt_closed start next (Nat.lt_succ_self i) nothing (fun _ => rfl) fun _ => rfl
      · refine (h.assignment _ _ next).bind fun j value d behind fits => ?_
        have less := fits.lt
        exact h.stmt_closed start behind (by omega) (.single fits (Nat.le_succ i) (Nat.le_refl j))
          (fun _ => rfl) fun _ => rfl
    | breakWord | continueWord =>
      exact h.stmt_closed start next (Nat.lt_succ_self i) nothing (fun _ => rfl) fun _ => rfl
    | _ => exact plain
  | mark m =>
    cases m with
    | lbrace =>
      refine (h.block i c start).bind fun j body d behind laid => ?_
      exact h.stmt_spanned start behind laid.1 laid.2 (fun _ => rfl) fun _ => rfl
    | semicolon =>
      exact h.stmt_spanned start (start.advance (by simp [kind])) (Nat.lt_succ_self i)
        (.nil (Nat.le_succ i)) (fun _ => rfl) fun _ => rfl
    | _ => exact plain
  | _ => exact plain

theorem items_succ (close : Mark) (i : Nat) (c : Cursor) (behind : c.Behind ts i) :
    Gives ts (fun j es => Laid ts i j (Expr.outlines es)) (Grammar.items (fuel + 1) close c) := by
  rw [Grammar.items]
  split
  · obtain ⟨j, less, behind⟩ := behind.advance_le
    exact .ok behind (.nil less)
  refine (h.assignment i c behind).bind fun j first d behind fits => ?_
  dsimp only
  split
  · obtain ⟨k, less, behind⟩ := behind.advance_le
    refine (h.items close k _ behind).bind fun l rest d behind laid => ?_
    exact .ok behind (.cons (Nat.le_refl i) fits (laid.mono less (Nat.le_refl l)))
  · refine .expect behind (by simp) fun d behind => ?_
    exact .ok behind (.single fits (Nat.le_refl i) (Nat.le_succ j))

theorem arrow_succ : Fitting ts Expr.outline (Grammar.arrow (fuel + 1)) := by
  intro i c start
  refine (arrowParams_passing fuel i c start).bind fun j ps d behind passed => ?_
  refine .expect behind (by simp) fun d behind => ?_
  split
  · refine (h.block _ d behind).bind fun k body d behind laid => ?_
    have reaches := start.cover h.ordered behind (by omega)
    have inside : Laid ts i k (Stmt.outlines body) := laid.2.mono (by omega) (Nat.le_refl k)
    have inner : Fits ts i k (Func.arrowBlock ps body (c.span.cover d.last)).outline :=
      .mk reaches inside
    exact .ok behind (.mk reaches (.single inner (Nat.le_refl i) (Nat.le_refl k)))
  · refine (h.assignment _ d behind).bind fun k value d behind fits => ?_
    have less := fits.lt
    have reaches := start.cover h.ordered behind (by omega)
    have inside : Laid ts i k [value.outline] := .single fits (by omega) (Nat.le_refl k)
    have inner : Fits ts i k (Func.arrowValue ps value (c.span.cover d.last)).outline :=
      .mk reaches inside
    exact .ok behind (.mk reaches (.single inner (Nat.le_refl i) (Nat.le_refl k)))

end Extents

theorem extents (ordered : Ordered ts) (fuel : Nat) : Extents ts fuel := by
  induction fuel with
  | zero => exact extents_zero ordered
  | succ fuel h =>
    exact {
      ordered := ordered
      stmt := h.stmt_succ
      stmts := h.stmts_succ
      block := h.block_succ
      blockStmts := h.blockStmts_succ
      varDecl := h.varDecl_succ
      varDeclFrom := h.varDeclFrom_succ
      declarators := h.declarators_succ
      initializer := h.initializer_succ
      func := h.func_succ
      header := h.header_succ
      ifElse := h.ifElse_succ
      forLoop := h.forLoop_succ
      forHeader := h.forHeader_succ
      exprUnless := h.exprUnless_succ
      forEach := h.forEach_succ
      whileLoop := h.whileLoop_succ
      doWhile := h.doWhile_succ
      assignment := h.assignment_succ
      conditional := h.conditional_succ
      binary := h.binary_succ
      binaryTail := h.binaryTail_succ
      unary := h.unary_succ
      postfixTail := h.postfixTail_succ
      primary := h.primary_succ
      items := h.items_succ
      arrow := h.arrow_succ }

end Grammar

end SortTrace.Script
