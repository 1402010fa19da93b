import SortTrace.Proofs.Script.FirstLoop

/-!
Walks that stop earlier: they visit less, and miss something exactly if it lies below a node where they
alone stop. As long as they stop earlier at expressions only, they come by the same first loop.
-/

namespace SortTrace.Script

namespace Outline

structure Earlier (stop early : Node → Bool) : Prop where
  stops : ∀ n, stop n = true → early n = true
  expr : ∀ n, early n = true → stop n = false → ∃ e, n = .expr e

def stopsAt (closed : Expr → Bool) : Node → Bool
  | .func _ => true
  | .expr e => closed e
  | _ => false

theorem earlier_stopsAt (closed : Expr → Bool) : Earlier Node.isFunc (stopsAt closed) :=
  { stops := fun n func => by cases n <;> first | rfl | cases func
    expr := fun n halted other => by
      cases n with
      | expr e => exact ⟨e, rfl⟩
      | func f => cases other
      | _ => cases halted }

section

variable {stop early : Node → Bool}

mutual

theorem walk_sublist (earlier : Earlier stop early) : ∀ o : Outline,
    (o.walk early).Sublist (o.walk stop)
  | .mk n below => by
    have further := walkAll_sublist earlier below
    rw [walk, walk]
    refine List.Sublist.cons_cons _ ?_
    by_cases halted : early n = true
    · rw [if_pos halted]
      exact List.nil_sublist _
    · have going : ¬ stop n = true := fun stopped => halted (earlier.stops n stopped)
      rw [if_neg halted, if_neg going]
      exact further

theorem walkAll_sublist (earlier : Earlier stop early) : ∀ os : List Outline,
    (walkAll early os).Sublist (walkAll stop os)
  | [] => .slnil
  | o :: rest => by
    rw [walkAll, walkAll]
    exact (walk_sublist earlier o).append (walkAll_sublist earlier rest)

end

end

theorem append_eq_append_of_sublist {α : Type} {xs xs' ys ys' : List α} (first : xs.Sublist xs')
    (second : ys.Sublist ys') : xs ++ ys = xs' ++ ys' ↔ xs = xs' ∧ ys = ys' := by
  refine ⟨fun same => ?_, fun same => by rw [same.1, same.2]⟩
  have lengths := congrArg List.length same
  have short := first.length_le
  have brief := second.length_le
  rw [List.length_append, List.length_append] at lengths
  exact ⟨first.eq_of_length (by omega), second.eq_of_length (by omega)⟩

section

variable {stop early : Node → Bool} {α : Type} {f : Node → Option α}

mutual

theorem walk_misses_iff (earlier : Earlier stop early) : ∀ o : Outline,
    ((o.walk early).map node).filterMap f = ((o.walk stop).map node).filterMap f ↔
      ∀ x ∈ o.walk early, early x.node = true → stop x.node = false →
        ((walkAll stop x.children).map node).filterMap f = []
  | .mk n below => by
    have further := walkAll_misses_iff earlier below
    have own (xs ys : List Node) : (n :: xs).filterMap f = (n :: ys).filterMap f ↔
        xs.filterMap f = ys.filterMap f := by
      rw [← List.singleton_append, ← List.singleton_append (l := ys), List.filterMap_append,
        List.filterMap_append, List.append_right_inj]
    rw [walk, walk, List.forall_mem_cons, List.map_cons, List.map_cons]
    refine (own _ _).trans ?_
    by_cases halted : early n = true
    · rw [if_pos halted]
      by_cases stopped : stop n = true
      · simp [node, stopped]
      · rw [if_neg stopped]
        have missed : (early n = true → stop n = false →
            ((walkAll stop below).map node).filterMap f = []) ↔
            ((walkAll stop below).map node).filterMap f = [] :=
          ⟨fun below => below halted (Bool.eq_false_iff.mpr stopped), fun below _ _ => below⟩
        exact eq_comm.trans (by simpa [node, children] using missed.symm)
    · have going : ¬ stop n = true := fun stopped => halted (earlier.stops n stopped)
      rw [if_neg halted, if_neg going, further]
      exact ⟨fun below => ⟨fun here => absurd here halted, below⟩, And.right⟩

theorem walkAll_misses_iff (earlier : Earlier stop early) : ∀ os : List Outline,
    ((walkAll early os).map node).filterMap f = ((walkAll stop os).map node).filterMap f ↔
      ∀ x ∈ walkAll early os, early x.node = true → stop x.node = false →
        ((walkAll stop x.children).map node).filterMap f = []
  | [] => by simp [walkAll]
  | o :: rest => by
    have first := (walk_sublist earlier o).map node |>.filterMap f
    have others := (walkAll_sublist earlier rest).map node |>.filterMap f
    rw [walkAll, walkAll, List.forall_mem_append, List.map_append, List.map_append,
      List.filterMap_append, List.filterMap_append, append_eq_append_of_sublist first others,
      walk_misses_iff earlier o, walkAll_misses_iff earlier rest]

end

end

/-- Two walks, parted at a loop that both come by: what the second one visits on either side of it, the
first one visits there too. -/
inductive PartedAlike (stop early : Node → Bool) (wide narrow : List Outline) : Prop
  | mk {before before' after after' : List Outline} {l : Outline} :
      wide = before ++ (l.walk stop ++ after) → narrow = before' ++ (l.walk early ++ after') →
      l.node.isLoop = true → (∀ x ∈ before, x.node.NoLoop) → before'.Sublist before →
      after'.Sublist after → PartedAlike stop early wide narrow

theorem aroundLoop_quiet {stop : Node → Bool} {o : Outline}
    (quiet : ∀ x ∈ o.walk stop, x.node.NoLoop) : o.aroundLoop stop = (o.nodes stop, []) := by
  have all : ∀ x ∈ o.walk stop, (!x.node.isLoop) = true := fun x member => by
    have other : x.node.isLoop = false := quiet x member
    simp [other]
  have front := @List.takeWhile_append_of_pos _ _ _ [] all
  have back := @List.dropWhile_append_of_pos _ _ _ [] all
  simp only [List.append_nil, List.takeWhile_nil, List.dropWhile_nil] at front back
  simp only [aroundLoop, front, back, nodes]

section

variable {stop early : Node → Bool}

mutual

theorem walk_parted (earlier : Earlier stop early) (outside : StaysOut stop) : ∀ o : Outline, o.Genuine →
    (∀ x ∈ o.walk stop, x.node.NoLoop) ∨ PartedAlike stop early (o.walk stop) (o.walk early)
  | .mk n below, genuine => by
    by_cases here : n.isLoop = true
    · exact .inr (@PartedAlike.mk _ _ _ _ [] [] [] [] (.mk n below) (List.append_nil _).symm
        (List.append_nil _).symm here (by simp) .slnil .slnil)
    have other : n.NoLoop := Bool.eq_false_iff.mpr here
    by_cases halted : early n = true
    · -- Below a function nothing is visited, and below an expression there is no loop.
      refine .inl ?_
      by_cases stopped : stop n = true
      · rw [walk, if_pos stopped]
        exact List.forall_mem_singleton.mpr other
      · obtain ⟨e, rfl⟩ := earlier.expr n halted (Bool.eq_false_iff.mpr stopped)
        rw [← show e.outline = .mk (.expr e) below from genuine]
        exact e.walk_noLoop outside
    · have going : ¬ stop n = true := fun stopped => halted (earlier.stops n stopped)
      rw [walk, walk, if_neg going, if_neg halted]
      obtain quiet | ⟨wide, narrow, loop, quiet, front, back⟩ :=
        walkAll_parted earlier outside below genuine.children
      · exact .inl (List.forall_mem_cons.mpr ⟨other, quiet⟩)
      · refine .inr (@PartedAlike.mk _ _ _ _ (.mk n below :: _) (.mk n below :: _) _ _ _ ?_ ?_ loop
          (List.forall_mem_cons.mpr ⟨other, quiet⟩) (List.Sublist.cons_cons _ front) back)
        · rw [wide]
          rfl
        · rw [narrow]
          rfl

theorem walkAll_parted (earlier : Earlier stop early) (outside : StaysOut stop) :
    ∀ os : List Outline, (∀ o ∈ os, o.Genuine) →
    (∀ x ∈ walkAll stop os, x.node.NoLoop) ∨
      PartedAlike stop early (walkAll stop os) (walkAll early os)
  | [], _ => .inl (by simp [walkAll])
  | o :: rest, genuine => by
    rw [walkAll, walkAll]
    obtain quiet | ⟨wide, narrow, loop, quiet, front, back⟩ :=
      walk_parted earlier outside o (genuine o (List.mem_cons_self ..))
    · obtain quiet' | ⟨wide, narrow, loop, quiet', front, back⟩ :=
        walkAll_parted earlier outside rest fun x member => genuine x (List.mem_cons_of_mem o member)
      · exact .inl (List.forall_mem_append.mpr ⟨quiet, quiet'⟩)
      · refine .inr (@PartedAlike.mk _ _ _ _ (o.walk stop ++ _) (o.walk early ++ _) _ _ _ ?_ ?_ loop
          (List.forall_mem_append.mpr ⟨quiet, quiet'⟩)
          ((walk_sublist earlier o).append front) back)
        · rw [wide, List.append_assoc]
        · rw [narrow, List.append_assoc]
    · refine .inr (@PartedAlike.mk _ _ _ _ _ _ (_ ++ walkAll stop rest) (_ ++ walkAll early rest) _ ?_ ?_ loop
        quiet front (back.append (walkAll_sublist earlier rest)))
      · rw [wide]
        simp only [List.append_assoc]
      · rw [narrow]
        simp only [List.append_assoc]

end

theorem aroundLoop_sublist (earlier : Earlier stop early) (outside : StaysOut stop) {o : Outline}
    (genuine : o.Genuine) :
    (o.aroundLoop early).1.Sublist (o.aroundLoop stop).1 ∧
      (o.aroundLoop early).2.Sublist (o.aroundLoop stop).2 := by
  obtain quiet | ⟨wide, narrow, loop, quiet, front, back⟩ := walk_parted earlier outside o genuine
  · have less := walk_sublist earlier o
    rw [aroundLoop_quiet quiet, aroundLoop_quiet fun x member => quiet x (less.subset member)]
    exact ⟨less.map node, .slnil⟩
  · rw [aroundLoop_eq wide loop quiet,
      aroundLoop_eq narrow loop fun x member => quiet x (front.subset member)]
    exact ⟨front.map node, back.map node⟩

end

/-- The expressions outside functions and outside the first loop. -/
def exprsAround (o : Outline) : List Expr :=
  ((o.aroundLoop Node.isFunc).1 ++ (o.aroundLoop Node.isFunc).2).filterMap Node.expr?

end Outline

end SortTrace.Script
