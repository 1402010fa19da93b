import SortTrace.Proofs.Script.Indexed
import SortTrace.Proofs.Script.MirrorRules

/-!
Semicolons are optional: behind a statement that may end in one and does not, a semicolon changes
nothing but spans. Where a statement ends is counted in tokens, since tokens may have any spans.
-/

namespace SortTrace.Script

open Outline (ends)

variable {ts : List Token} {m : Nat}

/-- The same tokens, each of them on a place of its own: token `i` reaches from `i` to `i + 1`. -/
def numbered (ts : List Token) : List Token :=
  ts.mapIdx fun i t => ⟨t.kind, ⟨i, i + 1, 1, i + 1⟩⟩

theorem numbered_getElem? (ts : List Token) (i : Nat) :
    (numbered ts)[i]? = ts[i]?.map fun t => ⟨t.kind, ⟨i, i + 1, 1, i + 1⟩⟩ := by
  simp [numbered]

theorem numbered_bare (ts : List Token) : (numbered ts).map Token.bare = ts.map Token.bare := by
  refine List.ext_getElem? fun i => ?_
  rw [List.getElem?_map, numbered_getElem?, List.getElem?_map, Option.map_map]
  rfl

theorem numbered_spec (ts : List Token) : Numbered (numbered ts) := by
  have place {i : Nat} {t : Token} (found : (numbered ts)[i]? = some t) :
      t.span = ⟨i, i + 1, 1, i + 1⟩ := by
    rw [numbered_getElem?, Option.map_eq_some_iff] at found
    obtain ⟨u, -, rfl⟩ := found
    rfl
  refine ⟨⟨fun t member => ?_, ?_⟩, fun found => by rw [place found]⟩
  · obtain ⟨i, found⟩ := List.mem_iff_getElem?.mp member
    rw [place found]
    exact Nat.le_succ i
  · refine List.pairwise_iff_getElem.mpr fun i j inside within before => ?_
    rw [place (List.getElem?_eq_getElem inside), place (List.getElem?_eq_getElem within)]
    exact before

theorem Grammar.stmts_of_allowance {fuel : Nat} {body : List Stmt} {c : Cursor}
    (plenty : allowance ts ≤ fuel) (read : stmts (allowance ts) ⟨ts, {}⟩ = .ok (body, c)) :
    ∃ d, stmts fuel ⟨ts, {}⟩ = .ok (body, d) := by
  have tracks := (Reader.tracking (Indexed.follows_self ts) fuel).stmts
  have allowed := Indexed.ending_allowed ts
  have given := tracks _ _ _ _ (Indexed.start ts ts) allowed
  have more := tracks fuel _ _ _ (Indexed.start ts ts) (by omega)
  rw [read] at given
  generalize (Reader.indexed ts).stmts fuel 0 = indexed at given more
  generalize stmts fuel ⟨ts, {}⟩ = parsed at more ⊢
  cases given with
  | ok place passed =>
    cases more with
    | ok place' passed' => exact ⟨_, rfl⟩
  | short lacking => exact absurd (by omega) lacking

theorem Program.ofTokens_withSemicolon (place : Grammar.Place ts m) {q : Program}
    (read : Program.ofTokens ts = .ok q) (ended : ends m (Stmt.outlines q.body) = true) :
    ∃ r, Program.ofTokens (withSemicolon ts m) = .ok r ∧ r.body = Stmt.bares q.body := by
  have inside := place.inside
  obtain ⟨c, parsed, -⟩ := Program.stmts_of_ofTokens read
  have plenty : Grammar.allowance ts ≤ Grammar.allowance (withSemicolon ts m) := by
    unfold Grammar.allowance withSemicolon
    simp only [List.length_append, List.length_cons, List.length_map, List.length_take,
      List.length_drop]
    omega
  obtain ⟨d, parsed⟩ := Grammar.stmts_of_allowance plenty parsed
  have mirroring := Grammar.mirroring place (Grammar.allowance (withSemicolon ts m))
  obtain ⟨j, -, -, result⟩ := mirroring.stmts (p := false) (Cursor.Behind.start ts) q.body d parsed
  obtain ⟨-, same⟩ := result (.inl ended)
  have start : Cursor.twin ts m false 0 = ⟨withSemicolon ts m, {}⟩ := rfl
  rw [start] at same
  rw [Program.ofTokens, same]
  exact ⟨_, rfl, rfl⟩

theorem Program.ofTokens_laid (ordered : Ordered ts) {p : Program}
    (read : Program.ofTokens ts = .ok p) : ∃ j, Outline.Laid ts 0 j (Stmt.outlines p.body) := by
  obtain ⟨c, parsed, -⟩ := Program.stmts_of_ofTokens read
  obtain ⟨j, -, laid⟩ := (Grammar.extents ordered _).stmts 0 _ (Cursor.Behind.start ts) p.body c parsed
  exact ⟨j, laid⟩

theorem Program.ofTokens_of_bare {others : List Token} {p : Program}
    (same : ts.map Token.bare = others.map Token.bare) (read : Program.ofTokens ts = .ok p) :
    ∃ q, Program.ofTokens others = .ok q ∧ q.bare = p.bare := by
  have bare := Program.ofTokens_bare others
  rw [← same, Program.ofTokens_bare, read] at bare
  cases read' : Program.ofTokens others with
  | ok q =>
    rw [read'] at bare
    exact ⟨q, rfl, (Except.ok.inj bare).symm⟩
  | error e =>
    rw [read'] at bare
    cases bare

theorem Program.place_behind {q : Program} (read : Program.ofTokens (numbered ts) = .ok q) {n : Node}
    (member : n ∈ q.outline.allNodes) (takes : n.takesSemicolon = true) :
    ∃ i t, n.span.stop = i + 1 ∧ ts[i]? = some t ∧ (t.kind ≠ .mark .semicolon →
      Grammar.Place (numbered ts) (i + 1) ∧ ends (i + 1) (Stmt.outlines q.body) = true) := by
  have spec := numbered_spec ts
  obtain ⟨j, laid⟩ := Program.ofTokens_laid spec.ordered read
  obtain ⟨o, walked, rfl⟩ := List.mem_map.mp member
  rcases List.mem_cons.mp walked with rfl | walked
  · cases takes
  have walked : o ∈ Outline.walkAll never (Stmt.outlines q.body) := walked
  obtain ⟨k, l, -, -, fits⟩ := laid.mem_walkAll o walked
  have stop := spec.stop_eq fits.reaches
  have inside := fits.reaches.le_length
  obtain ⟨i, rfl⟩ : ∃ i, l = i + 1 := ⟨l - 1, by have less := fits.lt; omega⟩
  have found : (numbered ts)[i]? = some (numbered ts)[i] := List.getElem?_eq_getElem (by omega)
  obtain ⟨t, found', same⟩ := Option.map_eq_some_iff.mp (numbered_getElem? ts i ▸ found)
  refine ⟨i, t, stop, found', fun other => ⟨⟨spec, inside, fun {k u} here seen => ?_⟩, ?_⟩⟩
  · obtain rfl : k = i := by omega
    rw [found, ← same] at seen
    cases seen
    exact other
  · refine List.any_eq_true.mpr ⟨o, walked, ?_⟩
    rw [Node.endsAt, takes, stop, Bool.true_and, beq_self_eq_true]

/-- Behind the last token of every node that may end in a semicolon, and does not, a semicolon can
stand: the script is then read as before, up to spans. -/
theorem Program.ofTokens_optional_semicolon {p : Program} (read : Program.ofTokens ts = .ok p) :
    ∃ q, Program.ofTokens (numbered ts) = .ok q ∧ q.bare = p.bare ∧
      ∀ n ∈ q.outline.allNodes, n.takesSemicolon = true →
        ∃ i last, n.span.stop = i + 1 ∧ ts[i]? = some last ∧ (last.kind ≠ .mark .semicolon →
          ∀ semicolon : Token, semicolon.kind = .mark .semicolon →
            ∃ r, Program.ofTokens (ts.take (i + 1) ++ semicolon :: ts.drop (i + 1)) = .ok r ∧
              r.bare = p.bare) := by
  obtain ⟨q, counted, same⟩ := Program.ofTokens_of_bare (numbered_bare ts).symm read
  refine ⟨q, counted, same, fun n member takes => ?_⟩
  obtain ⟨i, last, stop, found, behind⟩ := Program.place_behind counted member takes
  refine ⟨i, last, stop, found, fun other semicolon kind => ?_⟩
  obtain ⟨place, ended⟩ := behind other
  obtain ⟨r, read', body⟩ := Program.ofTokens_withSemicolon place counted ended
  have tokens : withSemicolon (numbered ts) (i + 1) =
      (ts.take (i + 1) ++ semicolon :: ts.drop (i + 1)).map Token.bare := by
    rw [withSemicolon, List.map_take, List.map_drop, numbered_bare, List.map_append, List.map_cons,
      List.map_take, List.map_drop, Token.bare, kind]
  rw [tokens, Program.ofTokens_bare] at read'
  cases inserted : Program.ofTokens (ts.take (i + 1) ++ semicolon :: ts.drop (i + 1)) with
  | ok r' =>
    rw [inserted] at read'
    have body : Stmt.bares r'.body = Stmt.bares q.body := by
      rw [← body, ← Except.ok.inj read']
      rfl
    refine ⟨r', rfl, ?_⟩
    rw [← same, Program.bare, body, Program.bare]
  | error e =>
    rw [inserted] at read'
    cases read'

/-- The tokens of `if (a) b else c`. -/
def branchTokens : List Token :=
  [⟨.word .ifWord, ⟨0, 2, 1, 1⟩⟩, ⟨.mark .lparen, ⟨3, 4, 1, 4⟩⟩, ⟨.ident "a", ⟨4, 5, 1, 5⟩⟩,
    ⟨.mark .rparen, ⟨5, 6, 1, 6⟩⟩, ⟨.ident "b", ⟨7, 8, 1, 8⟩⟩, ⟨.word .elseWord, ⟨9, 13, 1, 10⟩⟩,
    ⟨.ident "c", ⟨14, 15, 1, 15⟩⟩, ⟨.eof, ⟨15, 15, 1, 16⟩⟩]

def branchProgram : Program where
  body := [.ifElse (.ident "a" ⟨4, 5, 1, 5⟩) (.expr (.ident "b" ⟨7, 8, 1, 8⟩) ⟨7, 8, 1, 8⟩)
    (some (.expr (.ident "c" ⟨14, 15, 1, 15⟩) ⟨14, 15, 1, 15⟩)) ⟨0, 15, 1, 1⟩]
  span := ⟨0, 15, 1, 1⟩

theorem Program.ofTokens_optional_semicolon_else :
    Program.ofTokens branchTokens = .ok branchProgram ∧
    ∃ r, Program.ofTokens (branchTokens.take 5 ++ ⟨.mark .semicolon, ⟨8, 9, 1, 9⟩⟩ ::
      branchTokens.drop 5) = .ok r ∧ r.bare = branchProgram.bare := by
  have read : Program.ofTokens branchTokens = .ok branchProgram := rfl
  obtain ⟨q, counted, -, places⟩ := Program.ofTokens_optional_semicolon read
  cases counted
  -- the fourth node that a walk comes by, behind the script, the statement and its condition
  obtain ⟨i, last, stop, found, insert⟩ := places _ (.tail _ (.tail _ (.tail _ (.head _)))) rfl
  cases stop
  cases found
  exact ⟨read, insert (by simp) _ rfl⟩

end SortTrace.Script
