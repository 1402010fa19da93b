import SortTrace.Proofs.Script.Terminators

/-!
Rules over tokens with one more semicolon. A rule that comes to a tree over the tokens comes to the same
tree, up to spans, over the tokens with the semicolon, provided that it does not pass the place of the
semicolon, or passes it as the end of a statement.
-/

namespace SortTrace.Script

open Outline (ends)

namespace Grammar

variable {ts : List Token} {m : Nat} {α β : Type}

/-- What comes of the first reading comes of the second one, which starts at token `i` with the semicolon
passed or ahead, as `p` says. The result tells by `flag` whether the semicolon is passed at the end; if
it is not, the end is `slack` tokens in front of it, and then the start was `room` tokens in front of
it. -/
def Mirrors (ts : List Token) (m : Nat) (p : Bool) (i room slack : Nat) (flag : α → Bool) (f : α → α)
    (x y : Except SyntaxError (α × Cursor)) : Prop :=
  ∀ a d, x = .ok (a, d) → ∃ j, i + room ≤ j + slack ∧ d.Behind ts j ∧
    (flag a = true ∨ j + slack ≤ m →
      (p = true ∨ i + room ≤ m) ∧ y = .ok (f a, .twin ts m (flag a) j))

/-- A place in numbered tokens for one more semicolon: none is in front of it. -/
structure Place (ts : List Token) (m : Nat) : Prop where
  numbered : Numbered ts
  inside : m ≤ ts.length
  unended {i : Nat} {t : Token} : i + 1 = m → ts[i]? = some t → t.kind ≠ .mark .semicolon

namespace Mirrors

variable {p : Bool} {i room slack : Nat} {flag : α → Bool} {f : α → α} {c : Cursor}
  {x y y' : Except SyntaxError (α × Cursor)}

theorem ok {a : α} (behind : c.Behind ts i) (same : flag a = p) (near : room ≤ slack)
    (result : p = true ∨ i + slack ≤ m → y = .ok (f a, .twin ts m p i)) :
    Mirrors ts m p i room slack flag f (.ok (a, c)) y := by
  rintro _ _ ⟨⟩
  refine ⟨i, by omega, behind, fun alive => ?_⟩
  rw [same] at alive ⊢
  exact ⟨alive.imp_right fun ahead => by omega, result alive⟩

theorem fail (fault : ParseFault) : Mirrors ts m p i room slack flag f (c.fail fault) y := by
  rintro _ _ ⟨⟩

theorem mono {j less : Nat} (given : Mirrors ts m p j room slack flag f x y)
    (fewer : i + less ≤ j + room) : Mirrors ts m p i less slack flag f x y := by
  intro a d read
  obtain ⟨l, passed, behind, result⟩ := given a d read
  refine ⟨l, by omega, behind, fun alive => ?_⟩
  obtain ⟨start, same⟩ := result alive
  exact ⟨start.imp_right fun ahead => by omega, same⟩

theorem near (given : Mirrors ts m p i 1 slack flag f x y) : Mirrors ts m p i 0 slack flag f x y :=
  given.mono (Nat.le_succ i)

theorem replace (same : p = true ∨ i + room ≤ m → ∀ r, y = .ok r → y' = .ok r)
    (given : Mirrors ts m p i room slack flag f x y) : Mirrors ts m p i room slack flag f x y' := by
  intro a d read
  obtain ⟨j, passed, behind, result⟩ := given a d read
  refine ⟨j, passed, behind, fun alive => ?_⟩
  obtain ⟨start, read'⟩ := result alive
  exact ⟨start, same start _ read'⟩

theorem when (same : p = true ∨ i + room ≤ m → y' = y)
    (given : Mirrors ts m p i room slack flag f x y) : Mirrors ts m p i room slack flag f x y' :=
  given.replace fun start _ read => by rw [same start, read]

theorem ite {P P' : Prop} [Decidable P] [Decidable P'] {x₁ x₂ y₁ y₂ : Except SyntaxError (α × Cursor)}
    (same : p = true ∨ i + room ≤ m → (P' ↔ P))
    (yes : P → Mirrors ts m p i room slack flag f x₁ y₁)
    (no : ¬P → Mirrors ts m p i room slack flag f x₂ y₂) :
    Mirrors ts m p i room slack flag f (if P then x₁ else x₂) (if P' then y₁ else y₂) := by
  by_cases holds : P
  · rw [if_pos holds]
    exact (yes holds).when fun start => if_pos ((same start).mpr holds)
  · rw [if_neg holds]
    exact (no holds).when fun start => if_neg fun holds' => holds ((same start).mp holds')

theorem ite_near {P P' : Prop} [Decidable P] [Decidable P']
    {x₁ x₂ y₁ y₂ : Except SyntaxError (α × Cursor)}
    (same : p = true ∨ i < m → (P' ↔ P)) (other : p = true ∨ i ≤ m → ¬P → ¬P')
    (yes : P → Mirrors ts m p i 1 slack flag f x₁ y₁)
    (no : ¬P → Mirrors ts m p i 0 slack flag f x₂ y₂) :
    Mirrors ts m p i 0 slack flag f (if P then x₁ else x₂) (if P' then y₁ else y₂) := by
  by_cases holds : P
  · rw [if_pos holds]
    exact ((yes holds).when fun start => if_pos ((same start).mpr holds)).near
  · rw [if_neg holds]
    exact (no holds).when fun near => if_neg (other near holds)

theorem ite_sees {k : Mark} {x₁ x₂ y₁ y₂ : Except SyntaxError (α × Cursor)} (place : Place ts m)
    (behind : c.Behind ts i) (yes : c.sees k = true → Mirrors ts m p i 1 slack flag f x₁ y₁)
    (no : ¬c.sees k = true → Mirrors ts m p i 1 slack flag f x₂ y₂) :
    Mirrors ts m p i 1 slack flag f (if c.sees k then x₁ else x₂)
      (if (Cursor.twin ts m p i).sees k then y₁ else y₂) :=
  .ite (Cursor.sees_twin place.inside behind) yes no

theorem ite_sees_near {k : Mark} {x₁ x₂ y₁ y₂ : Except SyntaxError (α × Cursor)} (place : Place ts m)
    (behind : c.Behind ts i) (other : k ≠ .semicolon)
    (yes : c.sees k = true → Mirrors ts m p i 1 slack flag f x₁ y₁)
    (no : ¬c.sees k = true → Mirrors ts m p i 0 slack flag f x₂ y₂) :
    Mirrors ts m p i 0 slack flag f (if c.sees k then x₁ else x₂)
      (if (Cursor.twin ts m p i).sees k then y₁ else y₂) :=
  .ite_near (Cursor.sees_twin place.inside behind) (Cursor.sees_twin_near place.inside behind other)
    yes no

theorem bind {between : Nat} (n : Nat) {flag' : β → Bool} {g : β → β}
    {k k' : α × Cursor → Except SyntaxError (β × Cursor)}
    (first : Mirrors ts m p i room between flag f x y)
    (further : ∀ a d j, d.Behind ts j → i + room ≤ j + between →
      Mirrors ts m (flag a) j (n + between) slack flag' g (k (a, d))
        (k' (f a, .twin ts m (flag a) j))) :
    Mirrors ts m p i room slack flag' g (x >>= k) (y >>= k') := by
  intro b e read
  obtain ⟨⟨a, d⟩, here, rest⟩ := ok_of_bind read
  obtain ⟨j, passed, behind, result⟩ := first a d here
  obtain ⟨l, onwards, final, result'⟩ := further a d j behind passed b e rest
  refine ⟨l, by omega, final, fun alive => ?_⟩
  obtain ⟨middle, last⟩ := result' alive
  obtain ⟨start, same⟩ := result (middle.imp_right fun ahead => by omega)
  exact ⟨start, by rw [same]; exact last⟩

theorem expect (n : Nat) {k k' : Cursor → Except SyntaxError (α × Cursor)} {wanted : TokenKind}
    (place : Place ts m) (behind : c.Behind ts i) (more : wanted ≠ .eof)
    (further : ∀ d : Cursor, d.Behind ts (i + 1) →
      Mirrors ts m p (i + 1) n slack flag f (k d) (k' (.twin ts m p (i + 1)))) :
    Mirrors ts m p i 1 slack flag f (c.expect wanted >>= k)
      ((Cursor.twin ts m p i).expect wanted >>= k') := by
  intro a e read
  obtain ⟨d, passed, rest⟩ := ok_of_bind read
  obtain ⟨seen, rfl⟩ := expect_ok passed
  obtain ⟨j, onwards, final, result⟩ := further _ (behind.advance (seen ▸ more)) a e rest
  refine ⟨j, by omega, final, fun alive => ?_⟩
  obtain ⟨ahead, same⟩ := result alive
  have start : p = true ∨ i < m := ahead.imp_right fun ahead => by omega
  refine ⟨start, ?_⟩
  have passed' : (Cursor.twin ts m p i).expect wanted = .ok (.twin ts m p (i + 1)) := by
    rw [Cursor.expect, Cursor.kind_twin place.inside behind start, if_pos seen,
      Cursor.advance_twin place.inside behind start (seen ▸ more)]
  rw [passed']
  exact same

theorem pass {n : Nat} {r r' : Cursor → Except SyntaxError (α × Cursor)} (place : Place ts m)
    (behind : c.Behind ts i) (more : c.kind ≠ .eof)
    (further : c.advance.Behind ts (i + 1) →
      Mirrors ts m p (i + 1) n slack flag f (r c.advance) (r' (.twin ts m p (i + 1)))) :
    Mirrors ts m p i 1 slack flag f (r c.advance) (r' (Cursor.twin ts m p i).advance) := by
  refine when (fun live => ?_) (mono (further (behind.advance more)) ?_)
  · rw [Cursor.advance_twin place.inside behind live more]
  · omega

theorem name (place : Place ts m) (behind : c.Behind ts i) :
    Mirrors ts m p i 1 0 (fun _ => p) id c.name (Cursor.twin ts m p i).name := by
  intro name d named
  obtain ⟨kind, rfl⟩ := name_ok named
  have more : c.kind ≠ .eof := by simp [kind]
  refine ⟨i + 1, Nat.le_refl _, behind.advance more, fun start => ⟨start, ?_⟩⟩
  rw [Cursor.name, Cursor.kind_twin place.inside behind start, kind,
    Cursor.advance_twin place.inside behind start more]
  rfl

theorem property (place : Place ts m) (behind : c.Behind ts i) :
    Mirrors ts m p i 1 0 (fun _ => p) id c.property (Cursor.twin ts m p i).property := by
  intro name d named
  have more : c.kind ≠ .eof := by
    intro ended
    rw [Cursor.property, ended] at named
    cases named
  refine ⟨i + 1, Nat.le_refl _, ?_, fun start => ⟨start, ?_⟩⟩
  · have next := behind.advance more
    unfold Cursor.property at named
    split at named <;> cases named
    · exact next
    · exact next
  · unfold Cursor.property at named ⊢
    rw [Cursor.kind_twin place.inside behind start,
      Cursor.advance_twin place.inside behind start more]
    split at named <;> cases named <;> simp [*]

/-- The end of a statement that may take a semicolon: the second reader finds one more exactly where the
statement ends at its place. -/
theorem terminated {a b : α} (place : Place ts m) (behind : c.Behind ts i)
    (ended : ∀ j, i ≤ j → (c.skip .semicolon).Behind ts j → flag a = (p || j == m)) (same : f a = b) :
    Mirrors ts m p i 0 0 flag f (.ok (a, c.skip .semicolon))
      (.ok (b, (Cursor.twin ts m p i).skip .semicolon)) := by
  rintro _ _ ⟨⟩
  by_cases seen : c.kind = .mark .semicolon
  · have more : c.kind ≠ .eof := by simp [seen]
    have passes : c.skip .semicolon = c.advance := if_pos (decide_eq_true seen)
    have next := behind.advance more
    rw [passes] at ended ⊢
    have apart : (i + 1 == m) = false := by
      rw [beq_eq_false_iff_ne]
      intro here
      obtain ⟨t, kind, shape⟩ := rest_of_kind seen (by simp)
      refine place.unended here ?_ kind
      rw [← List.head?_drop, ← behind.rest, shape]
      rfl
    refine ⟨i + 1, by omega, next, fun alive => ?_⟩
    rw [ended _ (Nat.le_succ i) next, apart, Bool.or_false] at alive ⊢
    have live : p = true ∨ i < m := alive
    refine ⟨live.imp_right fun ahead => by omega, ?_⟩
    have passes' : (Cursor.twin ts m p i).sees .semicolon = true := by
      rw [Cursor.sees, Cursor.kind_twin place.inside behind live, decide_eq_true seen]
    rw [same, Cursor.skip, if_pos passes', Cursor.advance_twin place.inside behind live more]
  · have stays : c.skip .semicolon = c := if_neg (by simpa [Cursor.sees] using seen)
    rw [stays] at ended ⊢
    refine ⟨i, by omega, behind, fun alive => ?_⟩
    rw [ended _ (Nat.le_refl i) behind] at alive ⊢
    by_cases late : p = false ∧ i = m
    · obtain ⟨rfl, rfl⟩ := late
      have sees : (Cursor.twin ts i false i).sees .semicolon = true :=
        decide_eq_true (Cursor.kind_semicolon place.inside)
      refine ⟨.inr (Nat.le_refl i), ?_⟩
      rw [same, Cursor.skip, if_pos sees, Cursor.advance_semicolon place.inside, beq_self_eq_true,
        Bool.false_or]
    · have live : p = true ∨ i < m := by
        cases p with
        | true => exact .inl rfl
        | false =>
          have apart : i ≠ m := fun here => late ⟨rfl, here⟩
          have near : i ≤ m := by simpa [apart] using alive
          exact .inr (by omega)
      have flagged : (p || i == m) = p := by
        cases p with
        | true => rfl
        | false => simpa using fun here : i = m => late ⟨rfl, here⟩
      have stays' : ¬(Cursor.twin ts m p i).sees .semicolon = true := by
        rw [Cursor.sees, Cursor.kind_twin place.inside behind live]
        simpa using seen
      refine ⟨live.imp_right Nat.le_of_lt, ?_⟩
      rw [same, flagged, Cursor.skip, if_neg stays']

end Mirrors

end Grammar

end SortTrace.Script
