import SortTrace.Script.Outline
import SortTrace.Script.Token

/-!
Extents of nodes, counted in tokens: a node reaches from one token to another, and the nodes below it
lie between the two, one behind the other.
-/

namespace SortTrace.Script

structure Ordered (ts : List Token) : Prop where
  forward : ∀ t ∈ ts, t.span.start ≤ t.span.stop
  apart : ts.Pairwise fun a b => a.span.stop ≤ b.span.start

namespace Ordered

variable {ts : List Token} {i j : Nat} {a b : Token}

theorem stop_le_start (ordered : Ordered ts) (found : ts[i]? = some a) (other : ts[j]? = some b)
    (before : i < j) : a.span.stop ≤ b.span.start := by
  obtain ⟨inside, rfl⟩ := List.getElem?_eq_some_iff.mp found
  obtain ⟨within, rfl⟩ := List.getElem?_eq_some_iff.mp other
  exact List.pairwise_iff_getElem.mp ordered.apart i j inside within before

theorem start_le_stop (ordered : Ordered ts) (found : ts[i]? = some a) :
    a.span.start ≤ a.span.stop :=
  ordered.forward a (List.mem_of_getElem? found)

theorem start_le (ordered : Ordered ts) (found : ts[i]? = some a) (other : ts[j]? = some b)
    (before : i ≤ j) : a.span.start ≤ b.span.start := by
  rcases Nat.lt_or_eq_of_le before with before | rfl
  · exact Nat.le_trans (ordered.start_le_stop found) (ordered.stop_le_start found other before)
  · rw [found] at other
    cases other
    exact Nat.le_refl _

theorem stop_le (ordered : Ordered ts) (found : ts[i]? = some a) (other : ts[j]? = some b)
    (before : i ≤ j) : a.span.stop ≤ b.span.stop := by
  rcases Nat.lt_or_eq_of_le before with before | rfl
  · exact Nat.le_trans (ordered.stop_le_start found other before) (ordered.start_le_stop other)
  · rw [found] at other
    cases other
    exact Nat.le_refl _

end Ordered

/-- The tokens in front of token `j` are not empty. -/
def Solid (ts : List Token) (j : Nat) : Prop :=
  ∀ i t, i < j → ts[i]? = some t → t.span.start < t.span.stop

/-- From the start of token `i` to the end of the token in front of token `j`, with the line and
column of that start. -/
inductive Span.Reaches (ts : List Token) (i j : Nat) : Span → Prop
  | mk {a b : Token} : i < j → ts[i]? = some a → ts[j - 1]? = some b →
      Reaches ts i j ⟨a.span.start, b.span.stop, a.span.line, a.span.col⟩

namespace Span.Reaches

variable {ts : List Token} {i j k l : Nat} {s t : Span}

theorem token {a : Token} (found : ts[i]? = some a) : a.span.Reaches ts i (i + 1) :=
  .mk (Nat.lt_succ_self i) found found

theorem lt (reaches : s.Reaches ts i j) : i < j := by
  cases reaches
  assumption

theorem le_length (reaches : s.Reaches ts i j) : j ≤ ts.length := by
  obtain ⟨less, -, found⟩ := reaches
  obtain ⟨inside, -⟩ := List.getElem?_eq_some_iff.mp found
  omega

theorem start_le (ordered : Ordered ts) (first : s.Reaches ts i j) (other : t.Reaches ts k l)
    (before : i ≤ k) : s.start ≤ t.start := by
  obtain ⟨-, found, -⟩ := first
  obtain ⟨-, found', -⟩ := other
  exact ordered.start_le found found' before

theorem stop_le (ordered : Ordered ts) (first : s.Reaches ts i j) (other : t.Reaches ts k l)
    (before : j ≤ l) : s.stop ≤ t.stop := by
  obtain ⟨-, -, found⟩ := first
  obtain ⟨-, -, found'⟩ := other
  exact ordered.stop_le found found' (by omega)

theorem stop_le_start (ordered : Ordered ts) (first : s.Reaches ts i j) (other : t.Reaches ts k l)
    (before : j ≤ k) : s.stop ≤ t.start := by
  obtain ⟨less, -, found⟩ := first
  obtain ⟨-, found', -⟩ := other
  exact ordered.stop_le_start found found' (by omega)

theorem cover (ordered : Ordered ts) (first : s.Reaches ts i j) (other : t.Reaches ts k l)
    (starts : i ≤ k) (stops : j ≤ l) : (s.cover t).Reaches ts i l := by
  have start := start_le ordered first other starts
  have stop := stop_le ordered first other stops
  obtain ⟨less, found, -⟩ := first
  obtain ⟨-, -, found'⟩ := other
  have whole : Span.Reaches ts i l _ := .mk (by omega) found found'
  unfold Span.cover
  rw [if_neg (Nat.not_lt.mpr start), Nat.max_eq_right stop]
  exact whole

theorem start_lt (ordered : Ordered ts) {n : Nat} (solid : Solid ts n) (first : s.Reaches ts i j)
    (other : t.Reaches ts k l) (before : i < k) (inside : i < n) : s.start < t.start := by
  obtain ⟨-, found, -⟩ := first
  obtain ⟨-, found', -⟩ := other
  have wide := solid i _ inside found
  have apart := ordered.stop_le_start found found' before
  exact Nat.lt_of_lt_of_le wide apart

theorem proper (ordered : Ordered ts) (reaches : s.Reaches ts i j) {k : Nat} (solid : Solid ts k)
    (inside : j ≤ k) : s.start < s.stop := by
  obtain ⟨less, found, found'⟩ := reaches
  have wide := solid i _ (by omega) found
  have stop := ordered.stop_le found found' (by omega)
  exact Nat.lt_of_lt_of_le wide stop

end Span.Reaches

/-- Loops and declared variables begin with a token of their own, a word or a name, in front of all nodes
below them. -/
def Node.lead : Node → Nat
  | loop _ | declarator _ => 1
  | _ => 0

namespace Outline

def children : Outline → List Outline
  | mk _ below => below

mutual

/-- The node reaches from token `i` up to token `j`, with the nodes below it in between. -/
inductive Fits (ts : List Token) : Nat → Nat → Outline → Prop
  | mk {i j : Nat} {n : Node} {below : List Outline} : n.span.Reaches ts i j →
      Laid ts (i + n.lead) j below → Fits ts i j (mk n below)

/-- Between token `i` and token `j` the nodes lie one behind the other. -/
inductive Laid (ts : List Token) : Nat → Nat → List Outline → Prop
  | nil {i j : Nat} : i ≤ j → Laid ts i j []
  | cons {i j k l : Nat} {o : Outline} {rest : List Outline} : i ≤ k → Fits ts k l o →
      Laid ts l j rest → Laid ts i j (o :: rest)

end

variable {ts : List Token} {i j k l : Nat} {o : Outline} {os : List Outline}

namespace Fits

theorem reaches (fits : Fits ts i j o) : o.node.span.Reaches ts i j := by
  cases fits
  assumption

theorem led (fits : Fits ts i j o) : Laid ts (i + o.node.lead) j o.children := by
  cases fits
  assumption

theorem lt (fits : Fits ts i j o) : i < j := fits.reaches.lt

end Fits

namespace Laid

theorem le (laid : Laid ts i j os) : i ≤ j := by
  induction os generalizing i with
  | nil =>
    cases laid
    assumption
  | cons o rest ih =>
    cases laid with
    | cons before fits further =>
      have inner := fits.lt
      have outer := ih further
      omega

theorem mono (laid : Laid ts k l os) (starts : i ≤ k) (stops : l ≤ j) : Laid ts i j os := by
  induction os generalizing i k with
  | nil =>
    have within := laid.le
    exact .nil (by omega)
  | cons o rest ih =>
    cases laid with
    | cons before fits further => exact .cons (by omega) fits (ih further (Nat.le_refl _))

theorem single (fits : Fits ts k l o) (starts : i ≤ k) (stops : l ≤ j) : Laid ts i j [o] :=
  .cons starts fits (.nil stops)

theorem whole (fits : Fits ts i j o) : Laid ts i j [o] :=
  .single fits (Nat.le_refl i) (Nat.le_refl j)

theorem pair {o' : Outline} (first : Fits ts i j o) (second : Fits ts k l o') (between : j ≤ k) :
    Laid ts i l [o, o'] :=
  .cons (Nat.le_refl i) first (.single second between (Nat.le_refl l))

theorem append {others : List Outline} (laid : Laid ts i k os) (further : Laid ts k j others) :
    Laid ts i j (os ++ others) := by
  induction os generalizing i with
  | nil => exact further.mono laid.le (Nat.le_refl j)
  | cons o rest ih =>
    cases laid with
    | cons before fits inner => exact .cons before fits (ih inner)

theorem mem (laid : Laid ts i j os) (member : o ∈ os) : ∃ k l, i ≤ k ∧ l ≤ j ∧ Fits ts k l o := by
  induction os generalizing i with
  | nil => cases member
  | cons first rest ih =>
    cases laid with
    | @cons _ _ k l _ _ before fits further =>
      rcases List.mem_cons.mp member with rfl | member
      · exact ⟨k, l, before, further.le, fits⟩
      · have inner := fits.lt
        obtain ⟨k', l', starts, stops, fits'⟩ := ih further member
        exact ⟨k', l', by omega, stops, fits'⟩

theorem pairwise (ordered : Ordered ts) (laid : Laid ts i j os) :
    os.Pairwise fun x y => x.node.span.stop ≤ y.node.span.start := by
  induction os generalizing i with
  | nil => exact .nil
  | cons first rest ih =>
    cases laid with
    | cons before fits further =>
      refine .cons (fun o member => ?_) (ih further)
      obtain ⟨k, l, starts, -, later⟩ := further.mem member
      exact fits.reaches.stop_le_start ordered later.reaches starts

end Laid

theorem Fits.laid (fits : Fits ts i j o) : Laid ts i j o.children :=
  fits.led.mono (Nat.le_add_right i _) (Nat.le_refl j)

theorem Fits.span {e : Expr} (fits : Fits ts i j e.outline) : e.span.Reaches ts i j := by
  have node : e.outline.node = .expr e := by cases e <;> rfl
  have reaches := fits.reaches
  rwa [node] at reaches

theorem Fits.cover (ordered : Ordered ts) {e e' : Expr} (first : Fits ts i j e.outline)
    (second : Fits ts k l e'.outline) (between : j ≤ k) :
    (e.span.cover e'.span).Reaches ts i l := by
  have inner := first.lt
  have outer := second.lt
  exact first.span.cover ordered second.span (by omega) (by omega)

structure Orderly (o : Outline) : Prop where
  inside : ∀ x ∈ o.children,
    o.node.span.start ≤ x.node.span.start ∧ x.node.span.stop ≤ o.node.span.stop
  apart : o.children.Pairwise fun x y => x.node.span.stop ≤ y.node.span.start

theorem Fits.orderly (ordered : Ordered ts) (fits : Fits ts i j o) : o.Orderly := by
  refine ⟨fun x member => ?_, fits.laid.pairwise ordered⟩
  obtain ⟨k, l, starts, stops, inner⟩ := fits.laid.mem member
  exact ⟨fits.reaches.start_le ordered inner.reaches starts,
    inner.reaches.stop_le ordered fits.reaches stops⟩

variable {stop : Node → Bool}

mutual

theorem Fits.mem_walk : ∀ {o : Outline} {i j : Nat}, Fits ts i j o → ∀ x ∈ o.walk stop,
    ∃ k l, i ≤ k ∧ l ≤ j ∧ Fits ts k l x
  | .mk n below, i, j, fits, x, member => by
    rw [walk, List.mem_cons] at member
    rcases member with rfl | member
    · exact ⟨i, j, Nat.le_refl i, Nat.le_refl j, fits⟩
    · split at member
      · cases member
      · exact fits.laid.mem_walkAll x member

theorem Laid.mem_walkAll : ∀ {os : List Outline} {i j : Nat}, Laid ts i j os →
    ∀ x ∈ walkAll stop os, ∃ k l, i ≤ k ∧ l ≤ j ∧ Fits ts k l x
  | [], _, _, _, x, member => by simp [walkAll] at member
  | o :: rest, i, j, laid, x, member => by
    cases laid with
    | cons before fits further =>
      rw [walkAll, List.mem_append] at member
      rcases member with member | member
      · obtain ⟨k, l, starts, stops, inner⟩ := fits.mem_walk x member
        have rest := further.le
        exact ⟨k, l, by omega, by omega, inner⟩
      · obtain ⟨k, l, starts, stops, inner⟩ := further.mem_walkAll x member
        have less := fits.lt
        exact ⟨k, l, by omega, stops, inner⟩

end

mutual

theorem Fits.walk_pairwise (ordered : Ordered ts) : ∀ {o : Outline} {i j : Nat}, Fits ts i j o →
    (o.walk stop).Pairwise fun x y => x.node.span.start ≤ y.node.span.start
  | .mk n below, i, j, fits => by
    rw [walk]
    split
    · exact List.pairwise_singleton _ _
    · refine .cons (fun x member => ?_) (fits.laid.walkAll_pairwise ordered)
      obtain ⟨k, l, starts, -, inner⟩ := fits.laid.mem_walkAll x member
      exact fits.reaches.start_le ordered inner.reaches starts

theorem Laid.walkAll_pairwise (ordered : Ordered ts) : ∀ {os : List Outline} {i j : Nat},
    Laid ts i j os → (walkAll stop os).Pairwise fun x y => x.node.span.start ≤ y.node.span.start
  | [], _, _, _ => .nil
  | o :: rest, i, j, laid => by
    cases laid with
    | cons before fits further =>
      rw [walkAll, List.pairwise_append]
      refine ⟨fits.walk_pairwise ordered, further.walkAll_pairwise ordered, fun x here y later => ?_⟩
      obtain ⟨k, l, -, stops, first⟩ := fits.mem_walk x here
      obtain ⟨m, n, starts, -, second⟩ := further.mem_walkAll y later
      have less := first.lt
      exact first.reaches.start_le ordered second.reaches (by omega)

end

section

variable {n : Nat} (ordered : Ordered ts) (solid : Solid ts n)

include ordered solid

mutual

/-- Between a node that begins with a token of its own and a node that is visited later, the start moves
on by a token at least: below the first node by that token, behind it by all of its tokens. -/
theorem Fits.walk_apart : ∀ {o : Outline} {i j : Nat}, Fits ts i j o → j ≤ n →
    (o.walk stop).Pairwise fun x y => 0 < x.node.lead → x.node.span.start < y.node.span.start
  | .mk m below, i, j, fits, inside => by
    rw [walk]
    split
    · exact List.pairwise_singleton _ _
    · refine .cons (fun x member lead => ?_) (fits.laid.walkAll_apart inside)
      obtain ⟨k, l, starts, -, inner⟩ := fits.led.mem_walkAll x member
      have less := fits.lt
      exact fits.reaches.start_lt ordered solid inner.reaches (by omega) (by omega)

theorem Laid.walkAll_apart : ∀ {os : List Outline} {i j : Nat}, Laid ts i j os → j ≤ n →
    (walkAll stop os).Pairwise fun x y => 0 < x.node.lead → x.node.span.start < y.node.span.start
  | [], _, _, _, _ => .nil
  | o :: rest, i, j, laid, inside => by
    cases laid with
    | cons before fits further =>
      have bound := further.le
      rw [walkAll, List.pairwise_append]
      refine ⟨fits.walk_apart (by omega), further.walkAll_apart inside, fun x here y later _ => ?_⟩
      obtain ⟨k, l, -, stops, first⟩ := fits.mem_walk x here
      obtain ⟨p, q, starts, -, second⟩ := further.mem_walkAll y later
      have less := first.lt
      exact first.reaches.start_lt ordered solid second.reaches (by omega) (by omega)

end

end

end Outline

end SortTrace.Script
