import SortTrace.Script.Outline

/-!
Walks up to the first loop: outside functions an expression holds no loop, so what is in front of a
loop statement is in front of its loop.
-/

namespace SortTrace.Script

namespace Outline

theorem walkAll_append (stop : Node → Bool) (first second : List Outline) :
    walkAll stop (first ++ second) = walkAll stop first ++ walkAll stop second := by
  induction first with
  | nil => rfl
  | cons o rest ih => simp only [List.cons_append, walkAll, ih, List.append_assoc]

variable {stop : Node → Bool} {P : Node → Prop}

theorem forall_walk {n : Node} {below : List Outline} (here : P n)
    (further : stop n = false → ∀ o ∈ walkAll stop below, P o.node) :
    ∀ o ∈ (mk n below).walk stop, P o.node := by
  intro o member
  rw [walk, List.mem_cons] at member
  rcases member with rfl | member
  · exact here
  · split at member
    · cases member
    · rename_i going
      exact further (by simpa using going) o member

theorem forall_walkAll_cons {o : Outline} {rest : List Outline} (first : ∀ x ∈ o.walk stop, P x.node)
    (others : ∀ x ∈ walkAll stop rest, P x.node) : ∀ x ∈ walkAll stop (o :: rest), P x.node := by
  rw [walkAll, List.forall_mem_append]
  exact ⟨first, others⟩

theorem forall_walkAll_nil : ∀ x ∈ walkAll stop [], P x.node := by
  simp [walkAll]

end Outline

open Outline

def Node.NoLoop (n : Node) : Prop := n.isLoop = false

def StaysOut (stop : Node → Bool) : Prop := ∀ f, stop (.func f) = true

/-- The walk goes on below everything that is no function, expression or loop. -/
structure GoesOn (stop : Node → Bool) : Prop where
  program : ∀ p, stop (.program p) = false
  stmt : ∀ s, stop (.stmt s) = false
  varDecl : ∀ d, stop (.varDecl d) = false
  declarator : ∀ d, stop (.declarator d) = false

section

variable {stop : Node → Bool}

theorem Func.walk_noLoop (outside : StaysOut stop) (f : Func) :
    ∀ o ∈ f.outline.walk stop, o.node.NoLoop := by
  have shape : ∃ below, f.outline = .mk (.func f) below := by cases f <;> exact ⟨_, rfl⟩
  obtain ⟨below, shape⟩ := shape
  rw [shape]
  exact forall_walk rfl fun going => by
    rw [outside f] at going
    cases going

mutual

theorem Expr.walk_noLoop (outside : StaysOut stop) : ∀ e : Expr,
    ∀ o ∈ e.outline.walk stop, o.node.NoLoop
  | .number .. | .str .. | .template .. | .bool .. | .null _ | .ident .. =>
    forall_walk rfl fun _ => forall_walkAll_nil
  | .array items _ =>
    forall_walk rfl fun _ => Expr.walkAll_noLoop outside items
  | .unary _ e _ | .update _ _ e _ | .member e _ _ =>
    forall_walk rfl fun _ =>
      forall_walkAll_cons (e.walk_noLoop outside) forall_walkAll_nil
  | .binary l _ r _ | .assign _ l r _ | .index l r _ =>
    forall_walk rfl fun _ =>
      forall_walkAll_cons (l.walk_noLoop outside)
        (forall_walkAll_cons (r.walk_noLoop outside) forall_walkAll_nil)
  | .conditional t c a _ =>
    forall_walk rfl fun _ =>
      forall_walkAll_cons (t.walk_noLoop outside)
        (forall_walkAll_cons (c.walk_noLoop outside)
          (forall_walkAll_cons (a.walk_noLoop outside) forall_walkAll_nil))
  | .call f args _ =>
    forall_walk rfl fun _ =>
      forall_walkAll_cons (f.walk_noLoop outside) (Expr.walkAll_noLoop outside args)
  | .func f _ =>
    forall_walk rfl fun _ => forall_walkAll_cons (f.walk_noLoop outside) forall_walkAll_nil

theorem Expr.walkAll_noLoop (outside : StaysOut stop) : ∀ es : List Expr,
    ∀ o ∈ walkAll stop (Expr.outlines es), o.node.NoLoop
  | [] => forall_walkAll_nil
  | e :: rest =>
    forall_walkAll_cons (e.walk_noLoop outside)
      (Expr.walkAll_noLoop outside rest)

end

theorem Loop.node_outline (l : Loop) : l.outline.node = .loop l := by
  cases l <;> rfl

namespace Outline

theorem walk_cons (o : Outline) (stop : Node → Bool) : ∃ rest, o.walk stop = o :: rest := by
  cases o
  exact ⟨_, rfl⟩

theorem loops_quiet {before : List Outline} (quiet : ∀ x ∈ before, x.node.NoLoop) :
    (before.map node).filterMap Node.loop? = [] := by
  rw [List.filterMap_eq_nil_iff]
  intro n member
  obtain ⟨x, inside, rfl⟩ := List.mem_map.mp member
  have other := quiet x inside
  cases found : x.node <;> simp_all [Node.loop?, Node.NoLoop, Node.isLoop]

theorem loops_first {o : Outline} {l : Loop} {before after : List Outline}
    (walk : o.walk Node.isFunc = before ++ (l.outline.walk Node.isFunc ++ after))
    (quiet : ∀ x ∈ before, x.node.NoLoop) : ∃ rest, o.loops = l :: rest := by
  obtain ⟨rest, shape⟩ := l.outline.walk_cons Node.isFunc
  refine ⟨((rest ++ after).map Outline.node).filterMap Node.loop?, ?_⟩
  rw [loops, nodes, walk, shape, List.map_append, List.filterMap_append, loops_quiet quiet]
  simp [l.node_outline, Node.loop?]

theorem aroundLoop_eq {o l : Outline} {before after : List Outline}
    (visited : o.walk stop = before ++ (l.walk stop ++ after)) (loop : l.node.isLoop = true)
    (quiet : ∀ x ∈ before, x.node.NoLoop) :
    o.aroundLoop stop = (before.map node, after.map node) := by
  obtain ⟨rest, shape⟩ := l.walk_cons stop
  have outside : ∀ x ∈ before, (!x.node.isLoop) = true := fun x member => by
    have other : x.node.isLoop = false := quiet x member
    simp [other]
  simp only [aroundLoop, visited, List.takeWhile_append_of_pos outside,
    List.dropWhile_append_of_pos outside, shape]
  simp [loop, shape]

theorem aroundLoop_first {o : Outline} {l : Loop} {before : List Outline}
    (walk : o.walk stop = before ++ l.outline.walk stop)
    (quiet : ∀ x ∈ before, x.node.NoLoop) :
    o.aroundLoop stop = (before.map Outline.node, []) := by
  rw [← List.append_nil (l.outline.walk stop)] at walk
  refine aroundLoop_eq walk ?_ quiet
  rw [l.node_outline]
  rfl

end Outline

end

end SortTrace.Script
