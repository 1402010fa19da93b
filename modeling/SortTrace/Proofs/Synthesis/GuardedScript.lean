import SortTrace.Proofs.Script.Lines
import SortTrace.Synthesis.TrackedArray

/-!
Scripts that sort neighbours: an array of numbers, two counting loops and an exchange of neighbours
under a condition that compares them, with the left one on either side.
-/

namespace SortTrace.Synthesis

open Script Numeral

/-- How a pair is exchanged: in one destructuring assignment, or through a variable, which may be
declared on the spot. -/
inductive ExchangeForm where
  | destructuring
  | temporary (word : Option DeclKind) (t : Identifier)

structure GuardedScript where
  array : Identifier
  outer : Identifier
  inner : Identifier
  arrayWord : DeclKind
  loopWord : DeclKind
  exchange : ExchangeForm
  literals : List Expr
  numeric : ∀ e ∈ literals, e.number?.isSome = true
  op : BinOp
  comparison : op.isComparison = true
  /-- The right neighbour stands on the left side of the condition. -/
  backward : Bool

def lengthName : Identifier := ⟨"length", by decide⟩

namespace GuardedScript

variable (b : GuardedScript)

def values : List Int64 := b.literals.map TrackedArray.elementValue

def here : Expr := .index (.ident b.array.name {}) (.ident b.inner.name {}) {}

def next : Expr :=
  .index (.ident b.array.name {}) (.binary (.ident b.inner.name {}) .add (.whole 1) {}) {}

def length : Expr := .member (.ident b.array.name {}) lengthName.name {}

def guard : Expr :=
  if b.backward then .binary b.next b.op b.here {} else .binary b.here b.op b.next {}

def assigning (target value : Expr) : Stmt := .expr (.assign .assign target value {}) {}

def declaring (kind : DeclKind) (name : String) (value : Expr) : VarDecl :=
  .mk kind [.mk name (some value) {}] {}

def exchanging : List Stmt :=
  match b.exchange with
  | .destructuring => [assigning (.array [b.here, b.next] {}) (.array [b.next, b.here] {})]
  | .temporary word t =>
    (match word with
      | some kind => .varDecl (declaring kind t.name b.here) {}
      | none => assigning (.ident t.name {}) b.here) ::
    [assigning b.here b.next, assigning b.next (.ident t.name {})]

def innerStop : Expr :=
  .binary (.binary b.length .sub (.ident b.outer.name {}) {}) .sub (.whole 1) {}

def outerStop : Expr := .binary b.length .sub (.whole 1) {}

def counting (kind : DeclKind) (name : String) (stop : Expr) (body : List Stmt) : Loop :=
  .forLoop (.varDecl (declaring kind name (.whole 0))) (some (.binary (.ident name {}) .lt stop {}))
    (some (.update .increment false (.ident name {}) {})) (.block body {}) {}

def innerLoop : Loop :=
  counting b.loopWord b.inner.name b.innerStop
    [.ifElse b.guard (.block b.exchanging {}) none {}]

def outerLoop : Loop :=
  counting b.loopWord b.outer.name b.outerStop [.loop b.innerLoop {}]

def tree : Program :=
  ⟨[.varDecl (declaring b.arrayWord b.array.name (.array b.literals {})) {},
    .loop b.outerLoop {}], {}⟩

def exchangeTokens : List TokenKind :=
  match b.exchange with
  | .destructuring =>
    assignTokens (Expr.array [b.here, b.next] {}).tokens (Expr.array [b.next, b.here] {}).tokens
  | .temporary word t =>
    (match word with
      | some kind => declarationTokens kind t.name b.here.tokens
      | none => assignTokens [.ident t.name] b.here.tokens) ++
    (assignTokens b.here.tokens b.next.tokens ++ assignTokens b.next.tokens [.ident t.name])

def countingTokens (kind : DeclKind) (name : String) (stop : Expr) (body : List TokenKind) :
    List TokenKind :=
  forTokens kind name [.number (.ofWhole 0)] (.ident name :: .mark .lt :: stop.tokens)
    [.ident name, .mark .plusPlus] (blockTokens body)

def tokens : List TokenKind :=
  declarationTokens b.arrayWord b.array.name (Expr.array b.literals {}).tokens ++
    countingTokens b.loopWord b.outer.name b.outerStop
      (countingTokens b.loopWord b.inner.name b.innerStop
        (ifTokens b.guard.tokens (blockTokens b.exchangeTokens)))

theorem reads_assigning (t v : Expr) {k : TokenKind} {ks : List TokenKind}
    (plain : (Expr.assign .assign t v {}).isPlain = true) (start : t.tokens = k :: ks)
    (opens : k = .mark .lbracket ∨ ∃ name, k = .ident name) :
    Grammar.ReadsStmt (assignTokens t.tokens v.tokens) (assigning t v) := by
  have reads := (Grammar.reads_tokens _ plain).assignment
  simp only [Expr.tokens, AssignOp.mark, start, List.cons_append] at reads
  have statement := Grammar.ReadsStmt.expression reads opens {}
  simpa only [assignTokens, assigning, start, List.cons_append, List.append_assoc] using statement

theorem reads_exchange : Grammar.ReadsBody b.exchangeTokens b.exchanging := by
  unfold exchangeTokens exchanging
  rcases b.exchange with _ | ⟨word, t⟩
  · have swap := reads_assigning (.array [b.here, b.next] {}) (.array [b.next, b.here] {}) rfl rfl
      (.inl rfl)
    exact .single swap
  · have shift := reads_assigning b.here b.next rfl rfl (.inr ⟨_, rfl⟩)
    have restore := reads_assigning b.next (.ident t.name {}) rfl rfl (.inr ⟨_, rfl⟩)
    have others := Grammar.ReadsBody.cons shift (.single restore)
    rcases word with _ | kind
    · have save := reads_assigning (.ident t.name {}) b.here rfl rfl (.inr ⟨_, rfl⟩)
      exact Grammar.ReadsBody.cons save others
    · have value := (Grammar.reads_tokens b.here rfl).assignment
      exact Grammar.ReadsBody.cons (.declaration kind t.name value {} {} {}) others

theorem reads_counting (kind : DeclKind) (id : Identifier) (stop : Expr) {body : List Stmt}
    {ks : List TokenKind} (plain : stop.isPlain = true) (level : stop.level = 5)
    (reads : Grammar.ReadsBody ks body) :
    Grammar.ReadsStmt (countingTokens kind id.name stop ks)
      (.loop (counting kind id.name stop body) {}) := by
  have init := (Grammar.reads_tokens (.whole 0) rfl).assignment
  have test := (Grammar.reads_tokens (.binary (.ident id.name {}) .lt stop {}) plain).mono 0
    (Nat.zero_le _)
  have update := (Grammar.reads_tokens (.update .increment false (.ident id.name {}) {}) rfl).mono 0
    (Nat.zero_le _)
  have tokens : (Expr.binary (.ident id.name {}) .lt stop {}).tokens =
      .ident id.name :: .mark .lt :: stop.tokens := by
    have placed : stop.placed 5 stop.tokens = stop.tokens := by simp [Expr.placed, level]
    simp only [Expr.tokens, BinOp.precedence, BinOp.mark, placed]
    rfl
  rw [tokens] at test
  exact .forLoop kind id.name init test update (reads.block {}) {} {} {} {}

theorem isPlain_of_number? {e : Expr} (numeric : e.number?.isSome = true) : e.isPlain = true := by
  unfold Expr.number? at numeric
  split at numeric
  · rfl
  · rfl
  · rfl
  · cases numeric

theorem arePlain_literals : Expr.arePlain b.literals = true := by
  have numeric := b.numeric
  generalize b.literals = literals at numeric ⊢
  induction literals with
  | nil => rfl
  | cons e literals ih =>
    have first := isPlain_of_number? (numeric e (by simp))
    have others := ih fun e member => numeric e (by simp [member])
    rw [Expr.arePlain, first, others, Bool.and_true]

theorem isPlain_guard : b.guard.isPlain = true := by
  unfold guard
  split <;> rfl

theorem reads_tree : Grammar.ReadsBody b.tokens b.tree.body := by
  have list := (Grammar.reads_tokens (.array b.literals {}) b.arePlain_literals).assignment
  have test := (Grammar.reads_tokens b.guard b.isPlain_guard).assignment
  have inner := reads_counting b.loopWord b.inner b.innerStop rfl rfl
    (.single (.ifElse test (b.reads_exchange.block {}) {}))
  have outer := reads_counting b.loopWord b.outer b.outerStop rfl rfl (.single inner)
  exact Grammar.ReadsBody.cons (.declaration b.arrayWord b.array.name list {} {} {})
    (.single outer)

theorem noArrow_exchange : Grammar.NoArrow b.exchangeTokens := by
  unfold exchangeTokens
  rcases b.exchange with _ | ⟨_ | kind, t⟩
  · simp [assignTokens, Grammar.noArrow_tokens]
  · simp [assignTokens, Grammar.noArrow_tokens]
  · simp [assignTokens, declarationTokens, Grammar.noArrow_tokens]

theorem noArrow_counting (kind : DeclKind) (name : String) (stop : Expr) {body : List TokenKind}
    (noArrow : Grammar.NoArrow body) : Grammar.NoArrow (countingTokens kind name stop body) := by
  simp [countingTokens, forTokens, blockTokens, Grammar.noArrow_tokens, noArrow]

theorem noArrow_text : Grammar.NoArrow (b.tokens ++ [TokenKind.eof]) := by
  have exchange : Grammar.NoArrow (ifTokens b.guard.tokens (blockTokens b.exchangeTokens)) := by
    simp [ifTokens, blockTokens, Grammar.noArrow_tokens, b.noArrow_exchange]
  have inner := noArrow_counting b.loopWord b.inner.name b.innerStop exchange
  have outer := noArrow_counting b.loopWord b.outer.name b.outerStop inner
  simp [tokens, declarationTokens, Grammar.noArrow_tokens, outer]

end GuardedScript

end SortTrace.Synthesis
