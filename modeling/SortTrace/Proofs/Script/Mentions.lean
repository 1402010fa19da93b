import SortTrace.Proofs.Script.Walk

/-!
Mentioned names: an expression mentions a name just if a walk over it that stays out of functions comes
by an identifier with that name.
-/

namespace SortTrace.Script

def NamedIn (name : String) (visited : List Outline) : Prop :=
  ∃ s, Node.expr (.ident name s) ∈ visited.map Outline.node

section

variable {name : String}

theorem namedIn_nil : ¬ NamedIn name [] := by
  rintro ⟨s, member⟩
  cases member

theorem namedIn_append (first second : List Outline) :
    NamedIn name (first ++ second) ↔ NamedIn name first ∨ NamedIn name second := by
  simp only [NamedIn, List.map_append, List.mem_append, exists_or]

theorem namedIn_walk {e : Expr} {below : List Outline} (other : e.name? = none) :
    NamedIn name ((Outline.mk (.expr e) below).walk Node.isFunc) ↔
      NamedIn name (Outline.walkAll Node.isFunc below) := by
  have here : ∀ s, Node.expr (.ident name s) ≠ .expr e := by
    rintro s same
    cases same
    cases other
  simp only [NamedIn, Outline.walk, Node.isFunc, Bool.false_eq_true, if_false, List.map_cons,
    List.mem_cons, Outline.node, here, false_or]

theorem namedIn_walkAll_cons (o : Outline) (rest : List Outline) :
    NamedIn name (Outline.walkAll Node.isFunc (o :: rest)) ↔
      NamedIn name (o.walk Node.isFunc) ∨ NamedIn name (Outline.walkAll Node.isFunc rest) := by
  rw [Outline.walkAll, namedIn_append]

theorem namedIn_walkAll_nil : ¬ NamedIn name (Outline.walkAll Node.isFunc []) := namedIn_nil

theorem not_namedIn_func (f : Func) : ¬ NamedIn name (f.outline.walk Node.isFunc) := by
  rintro ⟨s, member⟩
  cases f <;> simp [Func.outline, Outline.walk, Node.isFunc, Outline.node] at member

mutual

theorem Expr.mentions_iff_namedIn : ∀ e : Expr,
    e.mentions name = true ↔ NamedIn name (e.outline.walk Node.isFunc)
  | .ident n s => by
    simp only [Expr.mentions, beq_iff_eq, NamedIn, Expr.outline, Outline.walk, Outline.walkAll,
      Node.isFunc, Bool.false_eq_true, if_false, List.map_cons, List.map_nil, List.mem_singleton,
      Outline.node, Node.expr.injEq, Expr.ident.injEq, eq_comm (a := n)]
    exact ⟨fun same => ⟨s, same, rfl⟩, fun ⟨_, same, _⟩ => same⟩
  | .number .. | .str .. | .template .. | .bool .. | .null _ => by
    rw [Expr.outline, namedIn_walk rfl]
    simp only [Expr.mentions, Bool.false_eq_true, namedIn_walkAll_nil]
  | .func f _ => by
    rw [Expr.outline, namedIn_walk rfl, namedIn_walkAll_cons]
    simp only [Expr.mentions, Bool.false_eq_true, not_namedIn_func, namedIn_walkAll_nil, or_self]
  | .array items _ => by
    rw [Expr.outline, namedIn_walk rfl, Expr.mentions, Expr.anyMentions_iff_namedIn items]
  | .unary _ e _ | .update _ _ e _ | .member e _ _ => by
    rw [Expr.outline, namedIn_walk rfl, namedIn_walkAll_cons, Expr.mentions,
      e.mentions_iff_namedIn]
    simp only [namedIn_walkAll_nil, or_false]
  | .binary l _ r _ | .assign _ l r _ | .index l r _ => by
    rw [Expr.outline, namedIn_walk rfl, namedIn_walkAll_cons, namedIn_walkAll_cons, Expr.mentions,
      Bool.or_eq_true, l.mentions_iff_namedIn, r.mentions_iff_namedIn]
    simp only [namedIn_walkAll_nil, or_false]
  | .conditional t c a _ => by
    rw [Expr.outline, namedIn_walk rfl, namedIn_walkAll_cons, namedIn_walkAll_cons,
      namedIn_walkAll_cons, Expr.mentions, Bool.or_eq_true, Bool.or_eq_true,
      t.mentions_iff_namedIn, c.mentions_iff_namedIn, a.mentions_iff_namedIn]
    simp only [namedIn_walkAll_nil, or_false, or_assoc]
  | .call f args _ => by
    rw [Expr.outline, namedIn_walk rfl, namedIn_walkAll_cons, Expr.mentions, Bool.or_eq_true,
      f.mentions_iff_namedIn, Expr.anyMentions_iff_namedIn args]

theorem Expr.anyMentions_iff_namedIn : ∀ es : List Expr,
    Expr.anyMentions name es = true ↔
      NamedIn name (Outline.walkAll Node.isFunc (Expr.outlines es))
  | [] => by simp only [Expr.anyMentions, Bool.false_eq_true, Expr.outlines, namedIn_walkAll_nil]
  | e :: rest => by
    rw [Expr.outlines, namedIn_walkAll_cons, Expr.anyMentions, Bool.or_eq_true,
      e.mentions_iff_namedIn, Expr.anyMentions_iff_namedIn rest]

end

end

/-- The search for a name in an expression finds it just if a walk that stays out of functions visits an
identifier with that name. -/
theorem Expr.mentions_iff_visited (e : Expr) (name : String) :
    e.mentions name = true ↔ ∃ s, Node.expr (.ident name s) ∈ e.outline.nodes Node.isFunc :=
  e.mentions_iff_namedIn

end SortTrace.Script
