import SortTrace.Proofs.Results
import SortTrace.Proofs.Script.Layout
import SortTrace.Proofs.Synthesis.BareRun

/-!
Layout does not matter: a script with other blanks and comments between its tokens is read as the
same tree up to spans, and synthesis makes the same of it.
-/

namespace SortTrace.Script

theorem ofTokens_kinds {ts others : List Token} (kinds : others.map Token.kind = ts.map Token.kind) :
    bareOutcome Program.bare (Program.ofTokens others) =
      bareOutcome Program.bare (Program.ofTokens ts) := by
  have bare (ts : List Token) :
      ts.map Token.bare = (ts.map Token.kind).map fun k => ⟨k, {}⟩ := by
    rw [List.map_map]
    rfl
  rw [← Program.ofTokens_bare, ← Program.ofTokens_bare, bare, bare, kinds]

theorem Program.ofText_bare {text other : String} {ts : List Token} (scanned : scan text = .ok ts)
    (spelled : spelling other = .ok (ts.map Token.kind)) :
    bareOutcome Program.bare (Program.ofText other) =
      bareOutcome Program.bare (Program.ofText text) := by
  unfold spelling at spelled
  rcases rescanned : scan other with e | others
  · rw [rescanned] at spelled
    cases spelled
  rw [rescanned] at spelled
  have kinds : others.map Token.kind = ts.map Token.kind := Except.ok.inj spelled
  have read : Program.ofText text = Program.ofTokens ts := by
    rw [Program.ofText, scanned]
    rfl
  have reread : Program.ofText other = Program.ofTokens others := by
    rw [Program.ofText, rescanned]
    rfl
  rw [read, reread, ofTokens_kinds kinds]

theorem SyntaxError.reason_bare (e : SyntaxError) : e.bare.reason = e.reason := by
  cases e <;> rfl

theorem bareOutcome_eq_ok {x y : Except SyntaxError Program} {p : Program}
    (same : bareOutcome Program.bare y = bareOutcome Program.bare x) (read : x = .ok p) :
    ∃ q, y = .ok q ∧ q.bare = p.bare := by
  rw [read] at same
  cases y with
  | ok q => exact ⟨q, rfl, Except.ok.inj same⟩
  | error e => cases same

theorem bareOutcome_eq_error {x y : Except SyntaxError Program} {e : SyntaxError}
    (same : bareOutcome Program.bare y = bareOutcome Program.bare x) (failed : x = .error e) :
    ∃ e', y = .error e' ∧ e'.reason = e.reason := by
  rw [failed] at same
  cases y with
  | ok q => cases same
  | error e' =>
    have bare : e'.bare = e.bare := Except.error.inj same
    exact ⟨e', rfl, by rw [← e'.reason_bare, bare, e.reason_bare]⟩

end SortTrace.Script

namespace SortTrace.Synthesis

open Script

theorem synthesize_eq_of_bare (config : Config) {text other : String} {p q : Program}
    (read : Program.ofText text = .ok p) (reread : Program.ofText other = .ok q)
    (bare : q.bare = p.bare) : synthesize config other = synthesize config text := by
  have tracked : TrackedArray.ofProgram q = TrackedArray.ofProgram p := by
    rw [← TrackedArray.ofProgram_bare, bare, TrackedArray.ofProgram_bare]
  have traced (a : TrackedArray) : traceOf config q a = traceOf config p a := by
    rw [← traceOf_bare, bare, traceOf_bare]
  simp only [synthesize, read, reread, tracked, traced]

/-- A script with another layout has the same tokens, the same tree up to spans or a failure for the
same reason, and the same outcome of synthesis unless it cannot be read. -/
theorem synthesize_laidOut {text other : String} {ts : List Token} {tail : List Char}
    (scanned : scan text = .ok ts) (laid : LaidOut (slices text.toList ts) tail other.toList)
    (apart : EndsApart (slices text.toList ts) tail) :
    spelling other = .ok (ts.map Token.kind) ∧
      (∀ p, Program.ofText text = .ok p → ∃ q, Program.ofText other = .ok q ∧ q.bare = p.bare) ∧
      (∀ e, Program.ofText text = .error e →
        ∃ e', Program.ofText other = .error e' ∧ e'.reason = e.reason) ∧
      ∀ config, synthesize config other = synthesize config text ∨
        ∃ e e', (synthesize config text).result = .error (.syntaxError e) ∧
          (synthesize config other).result = .error (.syntaxError e') ∧ e'.reason = e.reason := by
  have spelled := spelling_laidOut scanned laid apart
  have same := Program.ofText_bare scanned spelled
  refine ⟨spelled, fun p => bareOutcome_eq_ok same, fun e => bareOutcome_eq_error same,
    fun config => ?_⟩
  cases read : Program.ofText text with
  | ok p =>
    obtain ⟨q, reread, bare⟩ := bareOutcome_eq_ok same read
    exact .inl (synthesize_eq_of_bare config read reread bare)
  | error e =>
    obtain ⟨e', failed, reason⟩ := bareOutcome_eq_error same read
    exact .inr ⟨e, e', by simp only [synthesize, read], by simp only [synthesize, failed], reason⟩

/-- The tokens of `let a=[7];`. -/
def denseTokens : List Token :=
  [⟨.word .letWord, ⟨0, 3, 1, 1⟩⟩, ⟨.ident "a", ⟨4, 5, 1, 5⟩⟩, ⟨.mark .eq, ⟨5, 6, 1, 6⟩⟩,
    ⟨.mark .lbracket, ⟨6, 7, 1, 7⟩⟩, ⟨.number (.ofWhole 7), ⟨7, 8, 1, 8⟩⟩,
    ⟨.mark .rbracket, ⟨8, 9, 1, 9⟩⟩, ⟨.mark .semicolon, ⟨9, 10, 1, 10⟩⟩, ⟨.eof, ⟨10, 10, 1, 11⟩⟩]

theorem synthesize_laidOut_declaration :
    scan "let a=[7];" = .ok denseTokens ∧
    LaidOut (slices "let a=[7];".toList denseTokens) "/**/".toList
      "//\nlet a = [ 7 /* */ ] ;/**/".toList ∧
    EndsApart (slices "let a=[7];".toList denseTokens) "/**/".toList ∧
    spelling "//\nlet a = [ 7 /* */ ] ;/**/" = .ok (denseTokens.map Token.kind) ∧
    ∀ p, Program.ofText "let a=[7];" = .ok p →
      ∃ q, Program.ofText "//\nlet a = [ 7 /* */ ] ;/**/" = .ok q ∧ q.bare = p.bare := by
  have scanned : (scan "let a=[7];").toOption = some denseTokens := by decide +kernel
  have read := ok_of_toOption scanned
  have cut : slices "let a=[7];".toList denseTokens =
      ["let".toList, ['a'], ['='], ['['], ['7'], [']'], [';']] := by decide +kernel
  have blank : IsGap [' '] := .blank rfl .nil
  have comment : IsGap " /* */ ".toList :=
    .blank rfl (@Filling.block [' '] [' '] (by decide) (.blank rfl .nil))
  have tail : Filling "/**/".toList := @Filling.block [] [] (by decide) .nil
  have spaced : Spaced "/**/".toList ["let".toList, ['a'], ['='], ['['], ['7'], [']'], [';']]
      "let a = [ 7 /* */ ] ;/**/".toList :=
    .cons blank <| .cons blank <| .cons blank <| .cons blank <| .cons comment <| .cons blank <|
      .last [';']
  have laid : LaidOut (slices "let a=[7];".toList denseTokens) "/**/".toList
      "//\nlet a = [ 7 /* */ ] ;/**/".toList := by
    rw [cut]
    exact ⟨.filling tail, "//\n".toList, _, rfl, @Filling.line [] [] (by simp) .nil, spaced⟩
  have apart : EndsApart (slices "let a=[7];".toList denseTokens) "/**/".toList := by
    rw [cut]
    simp [EndsApart]
  obtain ⟨spelled, parsed, -, -⟩ := synthesize_laidOut read laid apart
  exact ⟨read, laid, apart, spelled, parsed⟩

/-- Directly behind a division sign a comment is not read as one: sign and comment together start a
line comment. -/
theorem spelling_divisionComment : ∃ ts,
    scan "1 /" = .ok ts ∧ Filling "/**/".toList ∧
    LaidOut (slices "1 /".toList ts) "/**/".toList "1 //**/".toList ∧
    spelling "1 /" = .ok [.number (.ofWhole 1), .mark .slash, .eof] ∧
    spelling "1 //**/" = .ok [.number (.ofWhole 1), .eof] := by
  have spelled : (spelling "1 /").toOption = some [.number (.ofWhole 1), .mark .slash, .eof] := by
    decide +kernel
  have respelled : (spelling "1 //**/").toOption = some [.number (.ofWhole 1), .eof] := by
    decide +kernel
  have scanned : (scan "1 /").toOption = some
      [⟨.number (.ofWhole 1), ⟨0, 1, 1, 1⟩⟩, ⟨.mark .slash, ⟨2, 3, 1, 3⟩⟩, ⟨.eof, ⟨3, 3, 1, 4⟩⟩] := by
    decide +kernel
  have filling : Filling "/**/".toList := @Filling.block [] [] (by decide) .nil
  refine ⟨_, ok_of_toOption scanned, filling, ⟨.filling filling, [], "1 //**/".toList, rfl, .nil, ?_⟩,
    ok_of_toOption spelled, ok_of_toOption respelled⟩
  exact @Spaced.cons _ ['1'] [' '] _ _ _ (.blank rfl .nil) (.last ['/'])

end SortTrace.Synthesis
