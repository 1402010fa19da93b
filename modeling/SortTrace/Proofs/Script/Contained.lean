import SortTrace.Proofs.Script.FirstLoop

/-!
What a node contains: the nodes it is made of, what those are made of, and so on. A walk comes by exactly
the nodes that are contained, and in a script that was read its loops and declared variables start at
different places, in visiting order.
-/

namespace SortTrace.Script

/-- A node contains itself, and what its parts contain unless `stop` holds of it. -/
inductive Node.Contains (stop : Node → Bool) : Node → Node → Prop
  | self (n : Node) : Contains stop n n
  | part {n m x : Node} : stop n = false → m ∈ n.parts → Contains stop m x → Contains stop n x

namespace Outline

variable {stop : Node → Bool}

theorem walk_child : ∀ {o : Outline}, stop o.node = false → ∀ x ∈ o.children, ∀ y ∈ x.walk stop,
    y ∈ o.walk stop
  | .mk n below, goes, x, child, y, member => by
    have goes : stop n = false := goes
    have child : x ∈ below := child
    rw [walk, goes, List.mem_cons]
    refine .inr ?_
    obtain ⟨front, back, split⟩ := List.append_of_mem child
    simp [split, walkAll_append, walkAll, member]

mutual

theorem Genuine.contains : ∀ {o : Outline}, o.Genuine → ∀ x ∈ o.walk stop,
    o.node.Contains stop x.node
  | .mk n below, genuine, x, member => by
    rw [walk, List.mem_cons] at member
    rcases member with rfl | member
    · exact .self n
    split at member
    · cases member
    rename_i goes
    obtain ⟨y, child, inner⟩ := walkAll_contains genuine.children x member
    have goes : stop n = false := by simpa using goes
    exact .part goes (genuine.part child) inner

theorem walkAll_contains : ∀ {os : List Outline}, (∀ o ∈ os, o.Genuine) → ∀ x ∈ walkAll stop os,
    ∃ o ∈ os, o.node.Contains stop x.node
  | [], _, x, member => by simp [walkAll] at member
  | o :: rest, genuine, x, member => by
    rw [walkAll, List.mem_append] at member
    rcases member with member | member
    · exact ⟨o, List.mem_cons_self .., (genuine o (List.mem_cons_self ..)).contains x member⟩
    · obtain ⟨y, inside, inner⟩ := walkAll_contains
        (fun y inside => genuine y (List.mem_cons_of_mem o inside)) x member
      exact ⟨y, List.mem_cons_of_mem o inside, inner⟩

end

end Outline

theorem Node.Contains.mem_walk {stop : Node → Bool} {n x : Node} (contains : n.Contains stop x) :
    x.outline ∈ n.outline.walk stop := by
  induction contains with
  | self n => exact Outline.mem_walk_self _
  | @part n m x goes part _ ih =>
    refine Outline.walk_child (by rwa [n.node_outline]) m.outline ?_ _ ih
    rw [n.children_outline]
    exact List.mem_map_of_mem part

theorem Node.mem_nodes_iff {stop : Node → Bool} {n x : Node} :
    x ∈ n.outline.nodes stop ↔ n.Contains stop x := by
  constructor
  · intro member
    obtain ⟨o, walked, rfl⟩ := List.mem_map.mp member
    simpa only [n.node_outline] using n.genuine.contains o walked
  · intro contains
    exact List.mem_map.mpr ⟨x.outline, contains.mem_walk, x.node_outline⟩

theorem Node.loop?_eq_some {n : Node} {l : Loop} : n.loop? = some l ↔ n = .loop l := by
  cases n <;> simp [Node.loop?]

theorem Node.declarator?_eq_some {n : Node} {d : Declarator} :
    n.declarator? = some d ↔ n = .declarator d := by
  cases n <;> simp [Node.declarator?]

theorem Node.mem_loops_iff {n : Node} {l : Loop} :
    l ∈ n.outline.loops ↔ n.Contains Node.isFunc (.loop l) := by
  simp [Outline.loops, Node.loop?_eq_some, ← Node.mem_nodes_iff]

theorem Program.mem_declarators_iff {p : Program} {d : Declarator} :
    d ∈ p.declarators ↔ (Node.program p).Contains (fun _ => false) (.declarator d) := by
  simp [Program.declarators, Node.declarator?_eq_some, ← Node.mem_nodes_iff, Node.outline,
    Outline.allNodes]

section

variable {text : String} {p : Program} (read : Program.ofText text = .ok p)

include read

theorem Program.ofText_apart (stop : Node → Bool) : (p.outline.nodes stop).Pairwise fun m n =>
    0 < m.lead → m.span.start < n.span.start := by
  obtain ⟨ts, j, ordered, solid, -, laid⟩ := ofText_laid read
  refine List.pairwise_map.mpr ?_
  rw [Program.outline, Outline.walk]
  refine .cons (fun x _ lead => absurd lead (Nat.lt_irrefl 0)) ?_
  split
  · exact .nil
  · exact laid.walkAll_apart ordered solid (Nat.le_refl j)

theorem Program.ofText_loops_apart :
    p.outline.loops.Pairwise fun l m => l.span.start < m.span.start := by
  refine List.Pairwise.filterMap _ ?_ (ofText_apart read Node.isFunc)
  rintro m n apart l first l' second
  rw [Node.loop?_eq_some] at first second
  subst first second
  exact apart Nat.one_pos

theorem Program.ofText_declarators_apart :
    p.declarators.Pairwise fun d d' => d.span.start < d'.span.start := by
  refine List.Pairwise.filterMap _ ?_ (ofText_apart read fun _ => false)
  rintro m n apart d first d' second
  rw [Node.declarator?_eq_some] at first second
  subst first second
  exact apart Nat.one_pos

end

end SortTrace.Script
