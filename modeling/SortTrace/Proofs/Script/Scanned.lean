import SortTrace.Proofs.Script.Lexemes

/-!
What scanning a text amounts to: the text is taken apart into gaps and tokens, from its front to its
end, and each token stands where its characters stand.
-/

namespace SortTrace.Script

open Text

def Position.behind (p : Position) (cs : List Char) : Position := cs.foldl Position.after p

@[simp] theorem Position.offset_after (p : Position) (c : Char) :
    (p.after c).offset = p.offset + 1 := by
  unfold after
  split <;> rfl

@[simp] theorem Position.offset_behind (p : Position) (cs : List Char) :
    (p.behind cs).offset = p.offset + cs.length := by
  induction cs generalizing p with
  | nil => rfl
  | cons c cs ih =>
    have step : p.behind (c :: cs) = (p.after c).behind cs := rfl
    rw [step, ih, offset_after, List.length_cons]
    omega

theorem Position.behind_append (p : Position) (xs ys : List Char) :
    p.behind (xs ++ ys) = (p.behind xs).behind ys := List.foldl_append

/-- From a place in a text on, the characters are gaps and these tokens. -/
inductive Scanned : List Char → Position → List Token → Prop
  | done (p : Position) : Scanned [] p [⟨.eof, .ofLength p 0⟩]
  | gap {c : Char} {xs rest : List Char} {p : Position} {ts : List Token} :
      lexemeAt c (xs ++ rest) = .gap xs.length → Scanned rest (p.behind (c :: xs)) ts →
      Scanned (c :: (xs ++ rest)) p ts
  | token {c : Char} {xs rest : List Char} {p : Position} {ts : List Token} {k : TokenKind} :
      lexemeAt c (xs ++ rest) = .token k xs.length → Scanned rest (p.behind (c :: xs)) ts →
      Scanned (c :: (xs ++ rest)) p (⟨k, .ofLength p (xs.length + 1)⟩ :: ts)

theorem blockCommentLength_le {cs : List Char} {n : Nat} (closed : blockCommentLength cs = .ok n) :
    n ≤ cs.length := by
  induction cs using blockCommentLength.induct generalizing n with
  | case1 => cases closed
  | case2 rest =>
    cases closed
    simp
  | case3 c rest further m inner ih =>
    rw [blockCommentLength.eq_3 c rest further, inner] at closed
    cases closed
    exact Nat.succ_le_succ (ih inner)
  | case4 c rest further m inner ih =>
    rw [blockCommentLength.eq_3 c rest further, inner] at closed
    cases closed

theorem lexemeAt_gap_le {c : Char} {cs : List Char} {n : Nat} (gap : lexemeAt c cs = .gap n) :
    n ≤ cs.length := by
  unfold lexemeAt at gap
  split at gap
  · cases gap
    exact Nat.zero_le _
  split at gap
  · cases gap
    exact takeWhile_length_le cs
  split at gap
  · rename_i opens
    split at gap
    · rename_i n closed
      cases gap
      have short := blockCommentLength_le closed
      have star : cs.head? = some '*' := by simp_all
      obtain ⟨rest, rfl⟩ := List.head?_eq_some_iff.mp star
      exact Nat.succ_le_succ short
    · cases gap
  split at gap
  · simp only [numberLexeme] at gap
    split at gap <;> cases gap
  split at gap
  · rcases content : stringContent c cs with _ | _ <;> simp [content, Content.lexeme] at gap
  split at gap
  · rcases content : templateContent cs with _ | _ <;> simp [content, Content.lexeme] at gap
  split at gap
  · simp [nameLexeme] at gap
  split at gap <;> cases gap

theorem scanFrom_behind (xs rest : List Char) (p : Position) :
    scanFrom (xs ++ rest) xs.length p = scanFrom rest 0 (p.behind xs) := by
  induction xs generalizing p with
  | nil => rfl
  | cons c xs ih => exact ih (p.after c)

theorem scanned_of_scanFrom {cs : List Char} {p : Position} {ts : List Token}
    (scan : scanFrom cs 0 p = .ok ts) : Scanned cs p ts := by
  induction length : cs.length using Nat.strongRecOn generalizing cs p ts with
  | ind m ih =>
    rcases cs with _ | ⟨c, cs⟩
    · cases scan
      exact .done p
    have parts (n : Nat) (short : n ≤ cs.length) :
        ∃ xs rest, cs = xs ++ rest ∧ n = xs.length ∧ rest.length < m := by
      refine ⟨cs.take n, cs.drop n, (List.take_append_drop n cs).symm,
        (List.length_take_of_le short).symm, ?_⟩
      rw [List.length_cons] at length
      rw [List.length_drop]
      omega
    simp only [scanFrom] at scan
    split at scan
    · rename_i n gap
      obtain ⟨xs, rest, rfl, rfl, shorter⟩ := parts n (lexemeAt_gap_le gap)
      rw [scanFrom_behind] at scan
      exact .gap gap (ih _ shorter scan rfl)
    · rename_i k n token
      obtain ⟨xs, rest, rfl, rfl, shorter⟩ := parts n (lexemeAt_cut token Apart.nil).1
      rw [scanFrom_behind] at scan
      split at scan
      · rename_i others inner
        cases scan
        exact .token token (ih _ shorter inner rfl)
      · cases scan
    · cases scan

end SortTrace.Script
