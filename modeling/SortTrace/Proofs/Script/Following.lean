import SortTrace.Proofs.Script.Reader

/-!
Readers that follow cursors: where a reader sees what a cursor sees, the rules over it come to what
the rules over the cursor come to. It breaks nowhere, and no rule runs out of fuel that has as much as
the tokens ahead ask for.
-/

namespace SortTrace.Script

namespace Reader

variable {κ ε α β : Type}

/-- The places of a reader go with cursors, `n` tokens before the end. At the end nothing is passed,
and the spans may differ as far as `apart` allows. -/
structure Follows (r : Reader κ ε) (goes : Nat → κ → Cursor → Prop) (apart : Span → Span → Prop) :
    Prop where
  kind {n : Nat} {x : κ} {c : Cursor} : goes n x c → r.kind x = c.kind
  secondKind {n : Nat} {x : κ} {c : Cursor} : goes n x c → c.kind ≠ .eof →
    r.secondKind x = c.advance.kind
  span {n : Nat} {x : κ} {c : Cursor} : goes n x c → n ≠ 0 → r.span x = c.span
  faultSpan {n : Nat} {x : κ} {c : Cursor} : goes n x c → apart (r.span x) c.span
  last {n : Nat} {x : κ} {c : Cursor} : goes n x c → r.last x = .ok c.last
  atArrow {n : Nat} {x : κ} {c : Cursor} : goes n x c → r.atArrow x = .ok c.atArrow
  advance {n : Nat} {x : κ} {c : Cursor} : goes n x c → c.kind ≠ .eof →
    ∃ m y, n = m + 1 ∧ r.advance x = .ok y ∧ goes m y c.advance

/-- What a rule comes to over a reader and over cursors, `n` tokens before the end: the same with at
least `p` tokens passed, or the same fault. Only without enough fuel the reader may come to less. -/
inductive Agrees (r : Reader κ ε) (goes : Nat → κ → Cursor → Prop) (apart : Span → Span → Prop)
    (enough : Prop) (n p : Nat) :
    Except ε (α × κ) → Except SyntaxError (α × Cursor) → Prop
  | ok {v : α} {x : κ} {c : Cursor} {m : Nat} : goes m x c → m + p ≤ n →
      Agrees r goes apart enough n p (.ok (v, x)) (.ok (v, c))
  | fault {fault : ParseFault} {s t : Span} : fault ≠ .tooDeep → apart s t →
      Agrees r goes apart enough n p (.error (r.fault (.parse fault s))) (.error (.parse fault t))
  | short {s : Span} {y : Except SyntaxError (α × Cursor)} : ¬ enough →
      Agrees r goes apart enough n p (.error (r.fault (.parse .tooDeep s))) y

namespace Agrees

variable {r : Reader κ ε} {goes : Nat → κ → Cursor → Prop} {apart : Span → Span → Prop}
  {enough enough' : Prop} {n m p q : Nat} {x : κ} {c : Cursor}

theorem mono {a : Except ε (α × κ)} {b : Except SyntaxError (α × Cursor)}
    (agrees : Agrees r goes apart enough' m q a b) (tight : enough → enough')
    (fewer : m + p ≤ n + q) : Agrees r goes apart enough n p a b := by
  cases agrees with
  | ok related passed => exact .ok related (by omega)
  | fault other spans => exact .fault other spans
  | short lacking => exact .short fun given => lacking (tight given)

theorem bind {a : Except ε (α × κ)} {b : Except SyntaxError (α × Cursor)}
    {k : α × κ → Except ε (β × κ)} {k' : α × Cursor → Except SyntaxError (β × Cursor)}
    (first : Agrees r goes apart enough' m q a b) (tight : enough → enough')
    (further : ∀ v y d l, goes l y d → l + q ≤ m →
      Agrees r goes apart enough n p (k (v, y)) (k' (v, d))) :
    Agrees r goes apart enough n p (a >>= k) (b >>= k') := by
  cases first with
  | ok related passed => exact further _ _ _ _ related passed
  | fault other spans => exact .fault other spans
  | short lacking => exact .short fun given => lacking (tight given)

variable (follows : Follows r goes apart)

include follows

theorem fail {fault : ParseFault} (related : goes m x c) (other : fault ≠ .tooDeep) :
    Agrees (α := α) r goes apart enough n p (r.fail x fault) (c.fail fault) :=
  .fault other (follows.faultSpan related)

theorem advance {k : κ → Except ε (α × κ)} {b : Except SyntaxError (α × Cursor)}
    (related : goes m x c) (more : c.kind ≠ .eof)
    (further : ∀ y l, goes l y c.advance → m = l + 1 → Agrees r goes apart enough n p (k y) b) :
    Agrees r goes apart enough n p (r.advance x >>= k) b := by
  obtain ⟨l, y, fewer, moved, next⟩ := follows.advance related more
  rw [moved]
  exact further y l next fewer

theorem skip {mark : Mark} {k : κ → Except ε (α × κ)} {b : Except SyntaxError (α × Cursor)}
    (related : goes m x c)
    (further : ∀ y l, goes l y (c.skip mark) → l ≤ m → Agrees r goes apart enough n p (k y) b) :
    Agrees r goes apart enough n p (r.skip x mark >>= k) b := by
  unfold Reader.skip Reader.sees
  rw [follows.kind related]
  split
  · rename_i seen
    rw [decide_eq_true_eq] at seen
    refine advance follows related (by simp [seen]) fun y l next fewer => ?_
    have skipped : c.skip mark = c.advance := by simp [Cursor.skip, Cursor.sees, seen]
    exact further y l (skipped ▸ next) (by omega)
  · rename_i unseen
    have stayed : c.skip mark = c := by simp_all [Cursor.skip, Cursor.sees]
    exact further x m (by rwa [stayed]) (Nat.le_refl m)

theorem expect {wanted : TokenKind} {k : κ → Except ε (α × κ)}
    {k' : Cursor → Except SyntaxError (α × Cursor)} (related : goes m x c) (more : wanted ≠ .eof)
    (further : ∀ y l, goes l y c.advance → m = l + 1 →
      Agrees r goes apart enough n p (k y) (k' c.advance)) :
    Agrees r goes apart enough n p (r.expect x wanted >>= k) (c.expect wanted >>= k') := by
  unfold Reader.expect Cursor.expect
  rw [follows.kind related]
  split
  · rename_i seen
    exact advance follows related (seen ▸ more) further
  · exact .fault (by simp) (follows.faultSpan related)

theorem name (related : goes n x c) : Agrees r goes apart enough n 1 (r.name x) c.name := by
  unfold Reader.name Cursor.name
  rw [follows.kind related]
  cases kind : c.kind with
  | ident name =>
    refine advance follows related (by simp [kind]) fun y l next fewer => ?_
    exact .ok next (by omega)
  | _ => exact fail follows related (by simp)

theorem property (related : goes n x c) :
    Agrees r goes apart enough n 1 (r.property x) c.property := by
  unfold Reader.property Cursor.property
  rw [follows.kind related]
  cases kind : c.kind with
  | ident _ | word _ =>
    refine advance follows related (by simp [kind]) fun y l next fewer => ?_
    exact .ok next (by omega)
  | _ => exact fail follows related (by simp)

theorem spanFrom {start : Span} {k : Span → Except ε (α × κ)}
    {b : Except SyntaxError (α × Cursor)} (related : goes m x c)
    (further : Agrees r goes apart enough n p (k (start.cover c.last)) b) :
    Agrees r goes apart enough n p (r.spanFrom start x >>= k) b := by
  unfold Reader.spanFrom
  rw [follows.last related]
  exact further

end Agrees

end Reader

end SortTrace.Script
