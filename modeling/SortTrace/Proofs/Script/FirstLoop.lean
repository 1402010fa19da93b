import SortTrace.Proofs.Script.Parts
import SortTrace.Proofs.Script.Spans
import SortTrace.Proofs.Script.Walk

/-!
Where the first loop of a walk stands: the nodes visited in front of it lie before it or around it, the
nodes visited behind it lie after it.
-/

namespace SortTrace.Script

namespace Outline

variable {stop : Node → Bool}

mutual

theorem Genuine.walk : ∀ {o : Outline}, o.Genuine → ∀ x ∈ o.walk stop, x.Genuine
  | .mk n below, genuine, x, member => by
    rw [Outline.walk, List.mem_cons] at member
    rcases member with rfl | member
    · exact genuine
    · split at member
      · cases member
      · exact walkAll_genuine genuine.children x member

theorem walkAll_genuine : ∀ {os : List Outline}, (∀ o ∈ os, o.Genuine) →
    ∀ x ∈ walkAll stop os, x.Genuine
  | [], _, x, member => by simp [walkAll] at member
  | o :: rest, genuine, x, member => by
    rw [walkAll, List.mem_append] at member
    rcases member with member | member
    · exact (genuine o (List.mem_cons_self ..)).walk x member
    · exact walkAll_genuine (fun y inside => genuine y (List.mem_cons_of_mem o inside)) x member

end

variable {ts : List Token} {i j : Nat}

inductive LoopSplit (ts : List Token) (stop : Node → Bool) (i j : Nat) (visited : List Outline) : Prop
  | mk {before after : List Outline} {l : Outline} {m n : Nat} :
      visited = before ++ (l.walk stop ++ after) → l.node.isLoop = true → i ≤ m → n ≤ j → Fits ts m n l →
      (∀ o ∈ before, o.node.NoLoop ∧ (l ∈ o.walk stop ∨ ∃ k, ∃ k' ≤ m, Fits ts k k' o)) →
      (∀ o ∈ after, ∃ k ≥ n, ∃ k', Fits ts k k' o) →
      LoopSplit ts stop i j visited

theorem mem_walk_self (o : Outline) : o ∈ o.walk stop := by
  obtain ⟨rest, shape⟩ := o.walk_cons stop
  rw [shape]
  exact List.mem_cons_self ..

mutual

theorem Fits.loopSplit : ∀ {o : Outline} {i j : Nat}, Fits ts i j o →
    (∃ x ∈ o.walk stop, x.node.isLoop = true) → LoopSplit ts stop i j (o.walk stop)
  | .mk n below, i, j, fits, found => by
    by_cases here : n.isLoop = true
    · exact @LoopSplit.mk _ _ _ _ _ [] [] (.mk n below) i j (List.append_nil _).symm here
        (Nat.le_refl i) (Nat.le_refl j) fits (by simp) (by simp)
    obtain ⟨x, member, loop⟩ := found
    rw [walk, List.mem_cons] at member
    have inside := member.resolve_left fun same => here (by rwa [same] at loop)
    by_cases stopped : stop n = true
    · rw [if_pos stopped] at inside
      cases inside
    rw [if_neg stopped] at inside
    have visited : walk stop (mk n below) = mk n below :: walkAll stop below := by
      rw [walk, if_neg stopped]
    have laid : Laid ts i j below := fits.laid
    obtain ⟨split, loop, starts, stops, inner, before, after⟩ := laid.loopSplit ⟨x, inside, loop⟩
    rename_i front back l m m'
    refine @LoopSplit.mk _ _ _ _ _ (mk n below :: front) back l m m' (by rw [visited, split]; rfl)
      loop starts stops inner (fun o member => ?_) after
    rcases List.mem_cons.mp member with rfl | member
    · refine ⟨Bool.eq_false_iff.mpr here, .inl ?_⟩
      rw [visited, split]
      simp [mem_walk_self]
    · exact before o member

theorem Laid.loopSplit : ∀ {os : List Outline} {i j : Nat}, Laid ts i j os →
    (∃ x ∈ walkAll stop os, x.node.isLoop = true) → LoopSplit ts stop i j (walkAll stop os)
  | [], _, _, _, found => by simp [walkAll] at found
  | o :: rest, i, j, laid, found => by
    cases laid with
    | @cons _ _ k k' _ _ between fits further =>
      rw [walkAll]
      by_cases first : ∃ x ∈ o.walk stop, x.node.isLoop = true
      · obtain ⟨split, loop, starts, stops, inner, before, after⟩ := fits.loopSplit first
        rename_i front back l m m'
        have bound := further.le
        refine @LoopSplit.mk _ _ _ _ _ front (back ++ walkAll stop rest) l m m'
          (by rw [split]; simp only [List.append_assoc]) loop (by omega) (by omega) inner before
          fun o member => ?_
        rcases List.mem_append.mp member with member | member
        · exact after o member
        · obtain ⟨p, p', later, -, other⟩ := further.mem_walkAll o member
          exact ⟨p, by omega, p', other⟩
      · obtain ⟨x, member, loop⟩ := found
        rw [walkAll, List.mem_append] at member
        have inside := member.resolve_left fun within => first ⟨x, within, loop⟩
        obtain ⟨split, loop, starts, stops, inner, before, after⟩ :=
          further.loopSplit ⟨x, inside, loop⟩
        rename_i front back l m m'
        have bound := fits.lt
        refine @LoopSplit.mk _ _ _ _ _ (o.walk stop ++ front) back l m m'
          (by rw [split]; simp only [List.append_assoc]) loop (by omega) stops inner
          (fun y member => ?_) after
        rcases List.mem_append.mp member with member | member
        · obtain ⟨p, p', -, earlier, other⟩ := fits.mem_walk y member
          refine ⟨?_, .inr ⟨p, p', by omega, other⟩⟩
          exact Bool.eq_false_iff.mpr fun loop => first ⟨y, member, loop⟩
        · exact before y member

end

/-- Visited nodes, parted at the first loop: in front of it are no loops, and the expressions there
lie before it; what is behind it lies after it. -/
structure Parted (stop : Node → Bool) (visited before : List Outline) (l : Outline)
    (after : List Outline) : Prop where
  visited_eq : visited = before ++ (l.walk stop ++ after)
  isLoop : l.node.isLoop = true
  quiet : ∀ o ∈ before, o.node.NoLoop
  earlier : ∀ o ∈ before, ∀ e, o.node = .expr e → e.span.stop ≤ l.node.span.start
  later : ∀ o ∈ after, l.node.span.stop ≤ o.node.span.start
  within : ∀ o ∈ l.walk stop,
    l.node.span.start ≤ o.node.span.start ∧ o.node.span.stop ≤ l.node.span.stop
  wide : l.node.span.start < l.node.span.stop
  proper : ∀ o ∈ visited, ∀ e, o.node = .expr e → e.span.start < e.span.stop

section

variable {visited before after : List Outline} {l : Outline} (parted : Parted stop visited before l after)

include parted

theorem Parted.proper_before (o : Outline) (member : o ∈ before) (e : Expr)
    (shape : o.node = .expr e) : e.span.start < e.span.stop :=
  parted.proper o (by simp [parted.visited_eq, member]) e shape

theorem Parted.proper_loop (o : Outline) (member : o ∈ l.walk stop) (e : Expr)
    (shape : o.node = .expr e) : e.span.start < e.span.stop :=
  parted.proper o (by simp [parted.visited_eq, member]) e shape

theorem Parted.proper_after (o : Outline) (member : o ∈ after) (e : Expr)
    (shape : o.node = .expr e) : e.span.start < e.span.stop :=
  parted.proper o (by simp [parted.visited_eq, member]) e shape

end

theorem Laid.parted {os : List Outline} (ordered : Ordered ts) (solid : Solid ts j)
    (outside : StaysOut stop) (genuine : ∀ o ∈ os, o.Genuine) (laid : Laid ts i j os)
    (found : ∃ x ∈ walkAll stop os, x.node.isLoop = true) :
    ∃ before l after, Parted stop (walkAll stop os) before l after := by
  obtain ⟨split, loop, -, stops, fits, inFront, behind⟩ := laid.loopSplit found
  rename_i before after l m n
  refine ⟨before, l, after, ⟨split, loop, fun o member => (inFront o member).1, ?_, ?_, ?_, ?_, ?_⟩⟩
  · -- An expression has loops in functions only, so none stands around the loop.
    intro o member e shape
    rcases (inFront o member).2 with around | ⟨k, k', earlier, other⟩
    · have same : e.outline = o := by
        have own := walkAll_genuine genuine o (split ▸ List.mem_append_left _ member)
        rw [Genuine, shape] at own
        exact own
      have quiet : l.node.isLoop = false := e.walk_noLoop outside l (same ▸ around)
      rw [loop] at quiet
      cases quiet
    · have bound := other.reaches.stop_le_start ordered fits.reaches earlier
      rwa [shape] at bound
  · intro o member
    obtain ⟨k, later, k', other⟩ := behind o member
    exact fits.reaches.stop_le_start ordered other.reaches later
  · intro o member
    obtain ⟨k, k', starts, stops, inner⟩ := fits.mem_walk o member
    exact ⟨fits.reaches.start_le ordered inner.reaches starts,
      inner.reaches.stop_le ordered fits.reaches stops⟩
  · exact fits.reaches.proper ordered solid stops
  · intro o member e shape
    obtain ⟨k, k', -, stops, inner⟩ := laid.mem_walkAll o member
    have bound := inner.reaches.proper ordered solid stops
    rwa [shape] at bound

def Parts (o : Outline) : Prop := ∀ stop, StaysOut stop →
  (∃ x ∈ o.walk stop, x.node.isLoop = true) → ∃ before l after, Parted stop (o.walk stop) before l after

theorem Fits.parts {o : Outline} {k : Nat} (ordered : Ordered ts) (solid : Solid ts j)
    (fits : Fits ts i k o) (inside : k ≤ j) (genuine : o.Genuine) : o.Parts := by
  intro stop outside found
  have alone : walkAll stop [o] = o.walk stop := by simp [walkAll]
  have laid : Laid ts i j [o] := .cons (Nat.le_refl i) fits (.nil inside)
  rw [← alone] at found ⊢
  exact laid.parted ordered solid outside (by simpa using genuine) found

theorem Laid.parts {p : Program} (ordered : Ordered ts) (solid : Solid ts j)
    (laid : Laid ts i j (Stmt.outlines p.body)) : p.outline.Parts := by
  rintro stop outside ⟨x, member, loop⟩
  have other : p.outline.node.isLoop = false := rfl
  rw [Program.outline, walk, List.mem_cons] at member
  have below := member.resolve_left fun same => by
    rw [same] at loop
    cases loop
  by_cases stopped : stop (.program p) = true
  · rw [if_pos stopped] at below
    cases below
  rw [if_neg stopped] at below
  have visited : p.outline.walk stop = p.outline :: walkAll stop (Stmt.outlines p.body) := by
    rw [Program.outline, walk, if_neg stopped]
  obtain ⟨before, l, after, parted⟩ :=
    laid.parted ordered solid outside (Stmt.outlines_genuine p.body) ⟨x, below, loop⟩
  rw [visited]
  refine ⟨p.outline :: before, l, after, ⟨by rw [parted.visited_eq]; rfl, parted.isLoop, ?_, ?_,
    parted.later, parted.within, parted.wide, ?_⟩⟩
  · exact List.forall_mem_cons.mpr ⟨other, parted.quiet⟩
  · exact List.forall_mem_cons.mpr ⟨fun e shape => (by cases shape), parted.earlier⟩
  · exact List.forall_mem_cons.mpr ⟨fun e shape => (by cases shape), parted.proper⟩

end Outline

open Outline

theorem Loop.body_mem (l : Loop) : l.body.outline ∈ l.outline.children := by
  cases l <;> simp [Loop.body, Loop.outline, Outline.children]

theorem Outline.Genuine.outline_mem {o : Outline} {l : Loop} (genuine : o.Genuine)
    (member : l ∈ o.loops) : l.outline ∈ o.walk Node.isFunc := by
  obtain ⟨n, inside, found⟩ := List.mem_filterMap.mp member
  obtain ⟨x, walked, rfl⟩ := List.mem_map.mp inside
  have shape : x.node = .loop l := by
    cases kind : x.node <;> rw [kind] at found <;> cases found
    rfl
  have own := genuine.walk x walked
  rw [Genuine, shape] at own
  rwa [← own] at walked

theorem Scanned.wide {cs : List Char} {p : Position} {ts : List Token} (scanned : Scanned cs p ts) :
    ∀ t ∈ ts, t.kind ≠ .eof → t.span.start < t.span.stop := by
  induction scanned with
  | done p =>
    intro t member other
    rw [List.mem_singleton.mp member] at other
    exact absurd rfl other
  | gap _ _ ih => exact ih
  | token _ _ ih =>
    intro t member
    rcases List.mem_cons.mp member with rfl | member
    · exact fun _ => Nat.lt_add_of_pos_right (Nat.succ_pos _)
    · exact ih t member

theorem Program.ofText_laid {text : String} {p : Program} (read : Program.ofText text = .ok p) :
    ∃ ts j, Ordered ts ∧ Solid ts j ∧ Fits ts 0 (j + 1) p.outline ∧
      Laid ts 0 j (Stmt.outlines p.body) := by
  rcases scan : scan text with e | ts
  · rw [Program.ofText, scan] at read
    cases read
  rw [Program.ofText, scan] at read
  have scanned : Scanned text.toList .origin ts := scanned_of_scanFrom scan
  obtain ⟨j, fits, laid, inside⟩ := Program.ofTokens_fits scanned.ordered scanned.exists_eof read
  refine ⟨ts, j, scanned.ordered, fun i t less found => ?_, fits, laid⟩
  have early : t ∈ ts.take j := by
    refine List.mem_of_getElem? (i := i) ?_
    rw [List.getElem?_take_of_lt less, found]
  exact scanned.wide t (List.mem_of_getElem? found) (inside t early)

theorem Program.ofText_forward {text : String} {p : Program} (read : Program.ofText text = .ok p)
    (stop : Node → Bool) :
    (p.outline.nodes stop).Pairwise fun m n => m.span.start ≤ n.span.start := by
  obtain ⟨ts, j, ordered, -, fits, -⟩ := ofText_laid read
  exact List.pairwise_map.mpr (fits.walk_pairwise ordered)

theorem Program.ofText_parts {text : String} {p : Program} (read : Program.ofText text = .ok p) :
    p.outline.Parts ∧ ∀ l ∈ p.outline.loops, l.body.outline.Parts := by
  obtain ⟨ts, j, ordered, solid, -, laid⟩ := ofText_laid read
  refine ⟨laid.parts ordered solid, fun l member => ?_⟩
  have walked := p.genuine.outline_mem member
  rw [Program.outline, walk, List.mem_cons] at walked
  have below := walked.resolve_left fun same => by
    have kinds := congrArg (fun o => o.node.isLoop) same
    rw [l.node_outline] at kinds
    cases kinds
  obtain ⟨k, k', -, stops, whole⟩ := laid.mem_walkAll _ below
  obtain ⟨m, m', -, ends, body⟩ := whole.laid.mem l.body_mem
  exact body.parts ordered solid (by omega) l.body.genuine

end SortTrace.Script
