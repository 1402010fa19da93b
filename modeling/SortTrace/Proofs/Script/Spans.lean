import SortTrace.Proofs.Results
import SortTrace.Proofs.Script.GrammarExtents
import SortTrace.Proofs.Script.Scanned

/-!
The spans of a script that was read from a text: every node stands where its tokens stand, inside the
node above it and beside its siblings, and walks come by the nodes in the order of the text.
-/

namespace SortTrace.Script

open Outline (Fits Laid)

namespace Scanned

variable {cs : List Char} {p : Position} {ts : List Token}

theorem start_le (scanned : Scanned cs p ts) : ∀ t ∈ ts, p.offset ≤ t.span.start := by
  induction scanned with
  | done p => simp [Span.ofLength]
  | gap _ _ ih =>
    intro t member
    have later := ih t member
    rw [Position.offset_behind] at later
    omega
  | @token c xs rest p ts k _ _ ih =>
    intro t member
    rcases List.mem_cons.mp member with rfl | member
    · exact Nat.le_refl _
    · have later := ih t member
      rw [Position.offset_behind] at later
      omega

theorem ordered (scanned : Scanned cs p ts) : Ordered ts := by
  induction scanned with
  | done p => exact ⟨by simp [Span.ofLength], List.pairwise_singleton _ _⟩
  | gap _ _ ih => exact ih
  | @token c xs rest p ts k _ further ih =>
    refine ⟨fun t member => ?_, .cons (fun t member => ?_) ih.apart⟩
    · rcases List.mem_cons.mp member with rfl | member
      · exact Nat.le_add_right _ _
      · exact ih.forward t member
    · have later := further.start_le t member
      rw [Position.offset_behind] at later
      exact later

theorem position (scanned : Scanned cs p ts) : ∀ t ∈ ts,
    p.behind (cs.take (t.span.start - p.offset)) = ⟨t.span.start, t.span.line, t.span.col⟩ := by
  have here (p : Position) (cs : List Char) (n : Nat) :
      p.behind (cs.take ((Span.ofLength p n).start - p.offset)) = p := by
    simp [Span.ofLength, Position.behind]
  have further {c : Char} {xs rest : List Char} {p : Position} {t : Token}
      (later : (p.behind (c :: xs)).offset ≤ t.span.start)
      (ih : (p.behind (c :: xs)).behind (rest.take (t.span.start - (p.behind (c :: xs)).offset)) =
        ⟨t.span.start, t.span.line, t.span.col⟩) :
      p.behind ((c :: (xs ++ rest)).take (t.span.start - p.offset)) =
        ⟨t.span.start, t.span.line, t.span.col⟩ := by
    rw [Position.offset_behind] at later ih
    rw [← ih, ← Position.behind_append, ← List.cons_append, List.take_append,
      List.take_of_length_le (by omega), Nat.sub_sub]
  induction scanned with
  | done p =>
    intro t member
    rw [List.mem_singleton.mp member]
    exact here p [] 0
  | gap _ scanned ih =>
    intro t member
    exact further (scanned.start_le t member) (ih t member)
  | token _ scanned ih =>
    intro t member
    rcases List.mem_cons.mp member with rfl | member
    · exact here _ _ _
    · exact further (scanned.start_le t member) (ih t member)

theorem exists_eof (scanned : Scanned cs p ts) : ∃ t ∈ ts, t.kind = .eof := by
  induction scanned with
  | done p => exact ⟨_, List.mem_singleton_self _, rfl⟩
  | gap _ _ ih => exact ih
  | token _ _ ih =>
    obtain ⟨t, member, ended⟩ := ih
    exact ⟨t, List.mem_cons_of_mem _ member, ended⟩

end Scanned

variable {ts : List Token}

theorem Program.stmts_of_ofTokens {p : Program} (read : Program.ofTokens ts = .ok p) :
    ∃ c, Grammar.stmts (Grammar.allowance ts) ⟨ts, {}⟩ = .ok (p.body, c) ∧
      p.span = (Cursor.mk ts {}).span.cover c.span := by
  unfold Program.ofTokens at read
  dsimp only at read
  rcases parsed : Grammar.stmts (Grammar.allowance ts) ⟨ts, {}⟩ with e | ⟨body, c⟩
  · rw [parsed] at read
    cases read
  · rw [parsed] at read
    cases read
    exact ⟨c, rfl, rfl⟩

theorem Program.ofTokens_fits (ordered : Ordered ts) (eof : ∃ t ∈ ts, t.kind = .eof) {p : Program}
    (read : Program.ofTokens ts = .ok p) :
    ∃ j, Fits ts 0 (j + 1) p.outline ∧ Laid ts 0 j (Stmt.outlines p.body) ∧
      ∀ t ∈ ts.take j, t.kind ≠ .eof := by
  obtain ⟨c, parsed, span⟩ := Program.stmts_of_ofTokens read
  have start := Cursor.Behind.start ts
  obtain ⟨j, behind, laid⟩ := (Grammar.extents ordered _).stmts 0 _ start p.body c parsed
  obtain ⟨t, member, ended⟩ := eof
  have more : j < ts.length := by
    rcases Nat.lt_or_ge j ts.length with more | all
    · exact more
    · rw [← List.take_of_length_le all] at member
      exact absurd ended (behind.passed t member)
  have first : ts[0]? = some ts[0] := List.getElem?_eq_getElem (by omega)
  have final : ts[j]? = some ts[j] := List.getElem?_eq_getElem more
  refine ⟨j, .mk ?_ (laid.mono (Nat.le_refl 0) (Nat.le_succ j)), laid, behind.passed⟩
  rw [Node.span, span, start.span_eq first, behind.span_eq final]
  exact (Span.Reaches.token first).cover ordered (.token final) (Nat.zero_le j)
    (Nat.le_add_left 1 j)

/-- The span starts where a token starts, with the line and column of that place in the text, and
ends where that token or a later one ends. -/
structure Span.Placed (text : List Char) (ts : List Token) (s : Span) : Prop where
  tokens : ∃ (i j : Nat) (a b : Token), i ≤ j ∧ ts[i]? = some a ∧ ts[j]? = some b ∧
    a.kind ≠ .eof ∧ b.kind ≠ .eof ∧ s.start = a.span.start ∧ s.stop = b.span.stop
  position : Position.origin.behind (text.take s.start) = ⟨s.start, s.line, s.col⟩

theorem Span.Reaches.placed {text : List Char} {i j : Nat} {s : Span} (reaches : s.Reaches ts i j)
    (scanned : Scanned text .origin ts) (inside : ∀ t ∈ ts.take j, t.kind ≠ .eof) :
    s.Placed text ts := by
  obtain ⟨less, first, last⟩ := reaches
  rename_i a b
  have other {k : Nat} {t : Token} (found : ts[k]? = some t) (before : k < j) : t.kind ≠ .eof := by
    refine inside t (List.mem_of_getElem? (i := k) ?_)
    rw [List.getElem?_take_of_lt before, found]
  exact ⟨⟨i, j - 1, a, b, by omega, first, last, other first less, other last (by omega), rfl, rfl⟩,
    scanned.position a (List.mem_of_getElem? first)⟩

def never (_ : Node) : Bool := false

/-- In a script read from a text every node below the whole program stands where its tokens stand,
every node holds the nodes below it one behind the other, and a walk comes by all nodes in the order
of their starts. -/
theorem Program.ofText_spans {text : String} {p : Program} (read : Program.ofText text = .ok p) :
    ∃ ts, scan text = .ok ts ∧
      (∀ o ∈ Outline.walkAll never (Stmt.outlines p.body), o.node.span.Placed text.toList ts) ∧
      (∀ o ∈ p.outline.walk never, o.Orderly) ∧
      p.outline.allNodes.Pairwise fun m n => m.span.start ≤ n.span.start := by
  rcases scan : scan text with e | ts
  · rw [Program.ofText, scan] at read
    cases read
  rw [Program.ofText, scan] at read
  have scanned : Scanned text.toList .origin ts := scanned_of_scanFrom scan
  obtain ⟨j, fits, laid, inside⟩ := Program.ofTokens_fits scanned.ordered scanned.exists_eof read
  refine ⟨ts, rfl, fun o member => ?_, fun o member => ?_, ?_⟩
  · obtain ⟨k, l, -, stops, inner⟩ := laid.mem_walkAll o member
    refine inner.reaches.placed scanned fun t member => inside t ?_
    exact (List.take_prefix_take_left stops).subset member
  · obtain ⟨k, l, -, -, inner⟩ := fits.mem_walk o member
    exact inner.orderly scanned.ordered
  · exact List.pairwise_map.mpr (fits.walk_pairwise scanned.ordered)

/-- The tokens of `do a;`, a newline and `while (b)`. -/
def doTokens : List Token :=
  [⟨.word .doWord, ⟨0, 2, 1, 1⟩⟩, ⟨.ident "a", ⟨3, 4, 1, 4⟩⟩, ⟨.mark .semicolon, ⟨4, 5, 1, 5⟩⟩,
    ⟨.word .whileWord, ⟨6, 11, 2, 1⟩⟩, ⟨.mark .lparen, ⟨12, 13, 2, 7⟩⟩, ⟨.ident "b", ⟨13, 14, 2, 8⟩⟩,
    ⟨.mark .rparen, ⟨14, 15, 2, 9⟩⟩, ⟨.eof, ⟨15, 15, 2, 10⟩⟩]

def doProgram : Program where
  body := [.loop (.doWhile (.expr (.ident "a" ⟨3, 4, 1, 4⟩) ⟨3, 5, 1, 4⟩)
    (.ident "b" ⟨13, 14, 2, 8⟩) ⟨0, 15, 1, 1⟩) ⟨0, 15, 1, 1⟩]
  span := ⟨0, 15, 1, 1⟩

theorem Program.ofText_spans_doWhile :
    Program.ofText "do a;\nwhile (b)" = .ok doProgram ∧
    (∀ o ∈ Outline.walkAll never (Stmt.outlines doProgram.body),
      o.node.span.Placed "do a;\nwhile (b)".toList doTokens) ∧
    doProgram.outline.allNodes.Pairwise fun m n => m.span.start ≤ n.span.start := by
  have scanned : (scan "do a;\nwhile (b)").toOption = some doTokens := by decide +kernel
  have read : Program.ofText "do a;\nwhile (b)" = .ok doProgram := by
    rw [Program.ofText, ok_of_toOption scanned]
    rfl
  obtain ⟨ts, scan, placed, -, forward⟩ := Program.ofText_spans read
  rw [ok_of_toOption scanned] at scan
  cases scan
  exact ⟨read, placed, forward⟩

end SortTrace.Script
