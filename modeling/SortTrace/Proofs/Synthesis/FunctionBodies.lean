import SortTrace.Proofs.Results
import SortTrace.Proofs.Script.Lines
import SortTrace.Proofs.Synthesis.BareRun

/-!
Function bodies are invisible to synthesis. All that can come out of one is the array itself: two
scripts with the same shell and the same array have the same outcome.
-/

namespace SortTrace.Synthesis

open Script

theorem traceOf_no_syntaxError (config : Config) (p : Program) (a : TrackedArray)
    (e : SyntaxError) : (traceOf config p a).result ≠ .error (.syntaxError e) := by
  unfold traceOf
  dsimp only
  split <;> exact fun failed => by cases failed

theorem synthesize_no_syntaxError {text : String} {p : Program}
    (read : Program.ofText text = .ok p) (config : Config) (e : SyntaxError) :
    (synthesize config text).result ≠ .error (.syntaxError e) := by
  simp only [synthesize, read]
  split
  · exact fun failed => by cases failed
  · exact traceOf_no_syntaxError config p _ e

/-- The outcome is all of it: the trace or the failure, and what is told on the way. -/
theorem synthesize_eq_of_shell {first second : String} {p q : Program}
    (readFirst : Program.ofText first = .ok p) (readSecond : Program.ofText second = .ok q)
    (shells : p.shell = q.shell)
    (tracked : TrackedArray.ofProgram p = TrackedArray.ofProgram q) (config : Config) :
    synthesize config first = synthesize config second ∧
      ∀ e, (synthesize config first).result ≠ .error (.syntaxError e) := by
  have traced (a : TrackedArray) : traceOf config p a = traceOf config q a := by
    rw [← traceOf_shell, shells, traceOf_shell]
  refine ⟨?_, synthesize_no_syntaxError readFirst config⟩
  simp only [synthesize, readFirst, readSecond, tracked, traced]

def callingText (body : String) : String :=
  "let a = [2, 1]; function f(i) \x7b" ++ body ++ "\x7d f(a[0]);"

def callingTokens (body : List TokenKind) : List TokenKind :=
  [TokenKind.word .letWord, .ident "a", .mark .eq, .mark .lbracket, .number (.ofWhole 2),
    .mark .comma, .number (.ofWhole 1), .mark .rbracket, .mark .semicolon, .word .functionWord,
    .ident "f", .mark .lparen, .ident "i", .mark .rparen, .mark .lbrace] ++ body ++
  [TokenKind.mark .rbrace, .ident "f", .mark .lparen, .ident "a", .mark .lbracket,
    .number (.ofWhole 0), .mark .rbracket, .mark .rparen, .mark .semicolon, .eof]

def callingTree (body : List Stmt) : Program :=
  let values := Expr.array [.number (.ofWhole 2) {}, .number (.ofWhole 1) {}] {}
  let argument := Expr.index (.ident "a" {}) (.number (.ofWhole 0) {}) {}
  ⟨[.varDecl (.mk .letKind [.mk "a" (some values) {}] {}) {},
    .func (.block (some "f") ["i"] body {}) {},
    .expr (.call (.ident "f" {}) [argument] {}) {}], {}⟩

def swappingTokens : List TokenKind :=
  let element (n : Nat) : List TokenKind :=
    [.ident "a", .mark .lbracket, .number (.ofWhole n), .mark .rbracket]
  [TokenKind.word .whileWord, .mark .lparen, .ident "i", .mark .rparen, .mark .lbracket] ++
    element 0 ++ [TokenKind.mark .comma] ++ element 1 ++
    [TokenKind.mark .rbracket, .mark .eq, .mark .lbracket] ++ element 1 ++
    [TokenKind.mark .comma] ++ element 0 ++ [TokenKind.mark .rbracket, .mark .semicolon]

def swappingLoop : Stmt :=
  let element (n : Nat) : Expr := .index (.ident "a" {}) (.number (.ofWhole n) {}) {}
  .loop (.whileLoop (.ident "i" {}) (.expr (.assign .assign (.array [element 0, element 1] {})
    (.array [element 1, element 0] {}) {}) {}) {}) {}

theorem synthesize_swappingLoop : ∃ p q,
    Program.ofText (callingText "") = .ok p ∧
    Program.ofText (callingText "while (i) [a[0], a[1]] = [a[1], a[0]];") = .ok q ∧
    p.shell = q.shell ∧ TrackedArray.ofProgram p = TrackedArray.ofProgram q ∧
    synthesize {} (callingText "") =
      synthesize {} (callingText "while (i) [a[0], a[1]] = [a[1], a[0]];") := by
  have spelledEmpty : (spelling (callingText "")).toOption = some (callingTokens []) := by
    decide +kernel
  have spelledLoop : (spelling (callingText "while (i) [a[0], a[1]] = [a[1], a[0]];")).toOption =
      some (callingTokens swappingTokens) := by
    decide +kernel
  obtain ⟨p, readEmpty, bareEmpty⟩ := Program.ofText_spelling (q := callingTree [])
    (ok_of_toOption spelledEmpty) rfl
  obtain ⟨q, readLoop, bareLoop⟩ := Program.ofText_spelling (q := callingTree [swappingLoop])
    (ok_of_toOption spelledLoop) rfl
  have shells : p.shell = q.shell := by
    rw [← p.shell_bare, ← q.shell_bare, bareEmpty, bareLoop]
    rfl
  have tracked : TrackedArray.ofProgram p = TrackedArray.ofProgram q := by
    rw [← TrackedArray.ofProgram_bare, ← TrackedArray.ofProgram_bare q, bareEmpty, bareLoop]
    rfl
  exact ⟨p, q, readEmpty, readLoop, shells, tracked,
    (synthesize_eq_of_shell readEmpty readLoop shells tracked {}).1⟩

end SortTrace.Synthesis
