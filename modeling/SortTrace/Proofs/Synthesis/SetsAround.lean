import SortTrace.Proofs.Results
import SortTrace.Proofs.Script.FirstLoop
import SortTrace.Synthesis.Action

/-!
The sets around a loop: those among the expressions outside functions that lie before it in the text,
and those that lie after it. A search that looks for nothing inside a set finds all of them.
-/

namespace SortTrace.Synthesis

open Script Script.Outline

def Pattern.set? : Pattern → Option (Nat × Int64)
  | set i value => some (i, value)
  | _ => none

namespace Watch

variable (w : Watch)

def setAt? (place : Span → Bool) (n : Node) : Option (Nat × Int64) :=
  match n with
  | .expr e => if place e.span then (w.pattern e).set? else none
  | _ => none

def anywhere (_ : Span) : Bool := true

def sets (o : Outline) : List (Nat × Int64) :=
  (o.nodes Node.isFunc).filterMap (w.setAt? anywhere)

def setsBefore (s : Span) (o : Outline) : List (Nat × Int64) :=
  (o.nodes Node.isFunc).filterMap (w.setAt? fun t => t.stop ≤ s.start)

def setsAfter (s : Span) (o : Outline) : List (Nat × Int64) :=
  (o.nodes Node.isFunc).filterMap (w.setAt? fun t => s.stop ≤ t.start)

/-- The sets of an outline are those before one of its loops, those in it and those after it. -/
def SetsSplit (o : Outline) (l : Loop) : Prop :=
  w.sets o = w.setsBefore l.span o ++ (w.sets l.outline ++ w.setsAfter l.span o)

def stopsAtSets : Node → Bool
  | .func _ => true
  | .expr e => (w.pattern e).isSet
  | _ => false

def overwritten (nodes : List Node) : List Action :=
  (nodes.filterMap Node.expr?).flatMap fun e => (w.pattern e).overwrites

theorem surroundings_before (o : Outline) :
    (w.surroundings o).before = w.overwritten (o.aroundLoop w.stopsAtSets).1 := rfl

theorem surroundings_after (o : Outline) :
    (w.surroundings o).after = w.overwritten (o.aroundLoop w.stopsAtSets).2 := rfl

variable {w}

theorem swapPattern_not_set {target value : Expr} {i : Nat} {x : Int64} :
    w.swapPattern target value ≠ .ok (.set i x) := by
  intro swap
  unfold swapPattern at swap
  split at swap
  · split at swap
    · obtain ⟨j, -, swap⟩ := ok_of_bind swap
      obtain ⟨k, -, swap⟩ := ok_of_bind swap
      split at swap <;> cases swap
    · cases swap
    · cases swap
  · cases swap

theorem position_shape {object index : Expr} {s : Span} {n : Nat}
    (positioned : w.position (.index object index s) = .ok n) :
    object.name? = some w.name ∧ index.number?.isSome = true := by
  unfold position elementIndex? at positioned
  simp only [Expr.indexed?] at positioned
  split at positioned
  · cases positioned
  · rename_i i found
    split at found
    · rename_i named
      cases found
      refine ⟨named, ?_⟩
      cases number : index.number? with
      | some v => rfl
      | none => simp [number] at positioned
    · cases found

theorem recognize_of_pattern {e : Expr} {p : Pattern} (known : p ≠ .unrecognized)
    (pattern : w.pattern e = p) : w.recognize e = .ok p := by
  unfold Watch.pattern at pattern
  split at pattern
  · rename_i q found
    rw [found, pattern]
  · exact absurd pattern.symm known

theorem set_shape {e : Expr} {i : Nat} {x : Int64} (set : w.pattern e = .set i x) :
    ∃ object index value s t, e = .assign .assign (.index object index s) value t ∧
      object.name? = some w.name ∧ index.number?.isSome = true ∧ value.number?.isSome = true := by
  have recognized := recognize_of_pattern (by simp) set
  unfold recognize at recognized
  split at recognized
  · split at recognized <;> cases recognized
  · rename_i target value s
    split at recognized
    · split at recognized
      · exact absurd recognized swapPattern_not_set
      · cases recognized
    · rename_i object index t
      split at recognized
      · obtain ⟨n, positioned, valued⟩ := ok_of_bind recognized
        obtain ⟨named, numbered⟩ := position_shape positioned
        refine ⟨object, index, value, t, s, rfl, named, numbered, ?_⟩
        split at valued
        · rename_i y number
          rw [number]
          rfl
        · cases valued
      · cases recognized
    · cases recognized
  · split at recognized
    · unfold comparisonPattern at recognized
      split at recognized
      · obtain ⟨j, -, recognized⟩ := ok_of_bind recognized
        obtain ⟨k, -, recognized⟩ := ok_of_bind recognized
        cases recognized
      · cases recognized
    · cases recognized
  · cases recognized

def Inert (n : Node) : Prop := ∃ e, n = .expr e ∧ ∀ op t v s, e ≠ .assign op t v s

theorem Inert.setAt? {n : Node} (inert : Inert n) (place : Span → Bool) :
    w.setAt? place n = none := by
  obtain ⟨e, rfl, other⟩ := inert
  unfold Watch.setAt?
  dsimp only
  split
  · cases pattern : w.pattern e with
    | set i x =>
      obtain ⟨_, _, _, _, _, shape, -⟩ := set_shape pattern
      exact absurd shape (other _ _ _ _)
    | _ => rfl
  · rfl

theorem Inert.loop? {n : Node} (inert : Inert n) : n.loop? = none := by
  obtain ⟨e, rfl, -⟩ := inert
  rfl

theorem name_inert {e : Expr} {name : String} (named : e.name? = some name) :
    ∀ o ∈ e.outline.walk Node.isFunc, Inert o.node := by
  cases e with
  | ident => exact forall_walk ⟨_, rfl, by simp⟩ fun _ => forall_walkAll_nil
  | _ => cases named

theorem number_inert {e : Expr} (number : e.number?.isSome = true) :
    ∀ o ∈ e.outline.walk Node.isFunc, Inert o.node := by
  cases e with
  | number => exact forall_walk ⟨_, rfl, by simp⟩ fun _ => forall_walkAll_nil
  | unary op operand s =>
    have plain : ∀ o ∈ operand.outline.walk Node.isFunc, Inert o.node := by
      cases operand with
      | number => exact forall_walk ⟨_, rfl, by simp⟩ fun _ => forall_walkAll_nil
      | _ => cases op <;> cases number
    exact forall_walk ⟨_, rfl, by simp⟩ fun _ => forall_walkAll_cons plain forall_walkAll_nil
  | _ => cases number

/-- Below a set there is neither a set nor a loop. -/
theorem below_set {e : Expr} (set : (w.pattern e).isSet = true) :
    ∀ o ∈ walkAll Node.isFunc e.outline.children, Inert o.node := by
  cases pattern : w.pattern e with
  | set i x =>
    obtain ⟨object, index, value, s, t, rfl, named, numbered, valued⟩ := set_shape pattern
    have element : ∀ o ∈ (Expr.index object index s).outline.walk Node.isFunc, Inert o.node :=
      forall_walk ⟨_, rfl, by simp⟩ fun _ =>
        forall_walkAll_cons (name_inert named)
          (forall_walkAll_cons (number_inert numbered) forall_walkAll_nil)
    exact forall_walkAll_cons element (forall_walkAll_cons (number_inert valued) forall_walkAll_nil)
  | _ =>
    rw [pattern] at set
    cases set

section

variable {α : Type} {f : Node → Option α}

mutual

theorem walk_stopsAtSets (blind : ∀ n, Inert n → f n = none) : ∀ o : Outline, o.Genuine →
    ((o.walk w.stopsAtSets).map node).filterMap f = ((o.walk Node.isFunc).map node).filterMap f
  | .mk n below, genuine => by
    have further := walkAll_stopsAtSets blind below genuine.children
    -- The two walks part at sets only, and below a set nothing is seen.
    have rest :
        ((if w.stopsAtSets n then [] else walkAll w.stopsAtSets below).map node).filterMap f =
          ((if n.isFunc then [] else walkAll Node.isFunc below).map node).filterMap f := by
      cases n with
      | func => rfl
      | expr e =>
        by_cases set : (w.pattern e).isSet = true
        · have shape : below = e.outline.children := by
            rw [show e.outline = .mk (.expr e) below from genuine]
            rfl
          have nothing : ((walkAll Node.isFunc below).map node).filterMap f = [] := by
            rw [List.filterMap_eq_nil_iff]
            intro n member
            obtain ⟨o, inside, rfl⟩ := List.mem_map.mp member
            exact blind _ (below_set set o (shape ▸ inside))
          rw [if_pos (show w.stopsAtSets (.expr e) = true from set)]
          exact nothing.symm
        · rw [if_neg (show ¬ w.stopsAtSets (.expr e) = true from set)]
          exact further
      | _ => exact further
    rw [walk, walk, List.map_cons, List.map_cons, List.filterMap_cons, List.filterMap_cons, rest]

theorem walkAll_stopsAtSets (blind : ∀ n, Inert n → f n = none) :
    ∀ os : List Outline, (∀ o ∈ os, o.Genuine) →
    ((walkAll w.stopsAtSets os).map node).filterMap f =
      ((walkAll Node.isFunc os).map node).filterMap f
  | [], _ => rfl
  | o :: rest, genuine => by
    have first := walk_stopsAtSets blind o (genuine o (List.mem_cons_self ..))
    have others := walkAll_stopsAtSets blind rest fun x inside => genuine x (List.mem_cons_of_mem o inside)
    rw [walkAll, walkAll, List.map_append, List.map_append, List.filterMap_append,
      List.filterMap_append, first, others]

end

end

def setAction (s : Nat × Int64) : Action := .set s.1 s.2

theorem overwritten_eq (nodes : List Node) :
    w.overwritten nodes = (nodes.filterMap (w.setAt? anywhere)).map setAction := by
  induction nodes with
  | nil => rfl
  | cons n rest ih =>
    cases n with
    | expr e =>
      have step : w.overwritten (.expr e :: rest) =
          (w.pattern e).overwrites ++ w.overwritten rest := rfl
      rw [step, ih, List.filterMap_cons]
      cases pattern : w.pattern e <;>
        simp [setAt?, anywhere, pattern, Pattern.set?, Pattern.overwrites, setAction]
    | _ => exact ih

variable {place : Span → Bool} {os : List Outline}

theorem setAt?_inside (inside : ∀ o ∈ os, ∀ e, o.node = .expr e → place e.span = true) :
    (os.map node).filterMap (w.setAt? place) = (os.map node).filterMap (w.setAt? anywhere) := by
  induction os with
  | nil => rfl
  | cons o rest ih =>
    have here : w.setAt? place o.node = w.setAt? anywhere o.node := by
      have first := inside o (List.mem_cons_self ..)
      cases shape : o.node with
      | expr e => simp [setAt?, anywhere, first e shape]
      | _ => rfl
    have further := ih fun x member => inside x (List.mem_cons_of_mem o member)
    rw [List.map_cons, List.filterMap_cons, List.filterMap_cons, here, further]

theorem setAt?_outside (outside : ∀ o ∈ os, ∀ e, o.node = .expr e → place e.span = false) :
    (os.map node).filterMap (w.setAt? place) = [] := by
  refine List.filterMap_eq_nil_iff.mpr fun n member => ?_
  obtain ⟨o, found, rfl⟩ := List.mem_map.mp member
  cases shape : o.node with
  | expr e => simp [setAt?, outside o found e shape]
  | _ => rfl

section

variable {stop : Node → Bool} {visited before after : List Outline} {l : Outline}

theorem setAt?_before (parted : Parted stop visited before l after) :
    (visited.map node).filterMap (w.setAt? fun t => t.stop ≤ l.node.span.start) =
      (before.map node).filterMap (w.setAt? anywhere) := by
  have front := @setAt?_inside w (fun t => t.stop ≤ l.node.span.start) before
    fun o member e shape => decide_eq_true (parted.earlier o member e shape)
  have loop := @setAt?_outside w (fun t => t.stop ≤ l.node.span.start) (l.walk stop)
    fun o member e shape => by
      have proper := parted.proper_loop o member e shape
      have within := (parted.within o member).1
      rw [shape] at within
      have starts : l.node.span.start ≤ e.span.start := within
      exact decide_eq_false (by omega)
  have back := @setAt?_outside w (fun t => t.stop ≤ l.node.span.start) after
    fun o member e shape => by
      have proper := parted.proper_after o member e shape
      have later := parted.later o member
      have wide := parted.wide
      rw [shape] at later
      have starts : l.node.span.stop ≤ e.span.start := later
      exact decide_eq_false (by omega)
  rw [parted.visited_eq]
  simp only [List.map_append, List.filterMap_append, front, loop, back, List.append_nil]

theorem setAt?_after (parted : Parted stop visited before l after) :
    (visited.map node).filterMap (w.setAt? fun t => l.node.span.stop ≤ t.start) =
      (after.map node).filterMap (w.setAt? anywhere) := by
  have front := @setAt?_outside w (fun t => l.node.span.stop ≤ t.start) before
    fun o member e shape => by
      have proper := parted.proper_before o member e shape
      have earlier := parted.earlier o member e shape
      have wide := parted.wide
      exact decide_eq_false (by omega)
  have loop := @setAt?_outside w (fun t => l.node.span.stop ≤ t.start) (l.walk stop)
    fun o member e shape => by
      have proper := parted.proper_loop o member e shape
      have within := (parted.within o member).2
      rw [shape] at within
      have stops : e.span.stop ≤ l.node.span.stop := within
      exact decide_eq_false (by omega)
  have back := @setAt?_inside w (fun t => l.node.span.stop ≤ t.start) after
    fun o member e shape => by
      have later := parted.later o member
      rw [shape] at later
      exact decide_eq_true later
  rw [parted.visited_eq]
  simp only [List.map_append, List.filterMap_append, front, loop, back, List.nil_append]

end

theorem loop_parted {o x : Outline} {l : Loop} {before after : List Outline} (genuine : o.Genuine)
    (first : o.loops.head? = some l)
    (parted : Parted w.stopsAtSets (o.walk w.stopsAtSets) before x after) : x = l.outline := by
  have loops : ((o.walk w.stopsAtSets).map node).filterMap Node.loop? = o.loops :=
    walk_stopsAtSets (fun n inert => inert.loop?) o genuine
  have isLoop := parted.isLoop
  obtain ⟨rest, shape⟩ := x.walk_cons w.stopsAtSets
  have member : x ∈ o.walk w.stopsAtSets := by simp [parted.visited_eq, shape]
  have own := genuine.walk x member
  rw [parted.visited_eq, shape, List.map_append, List.filterMap_append,
    loops_quiet parted.quiet] at loops
  rw [← loops] at first
  cases kind : x.node with
  | loop l' =>
    have same : l' = l := by simpa [kind, Node.loop?] using first
    rw [Genuine, kind, same] at own
    exact own.symm
  | _ =>
    rw [kind] at isLoop
    cases isLoop

theorem surroundings_split {o : Outline} {l : Loop} (genuine : o.Genuine) (parts : o.Parts)
    (first : o.loops.head? = some l) :
    w.SetsSplit o l ∧
      (w.surroundings o).before = (w.setsBefore l.span o).map setAction ∧
      (w.surroundings o).after = (w.setsAfter l.span o).map setAction := by
  have visited {α : Type} {f : Node → Option α} (blind : ∀ n, Inert n → f n = none) {x : Outline}
      (own : x.Genuine) :
      (x.nodes Node.isFunc).filterMap f = ((x.walk w.stopsAtSets).map node).filterMap f :=
    (walk_stopsAtSets blind x own).symm
  have found : ∃ x ∈ o.walk w.stopsAtSets, x.node.isLoop = true := by
    have member : l ∈ ((o.walk w.stopsAtSets).map node).filterMap Node.loop? := by
      rw [← visited (fun n inert => inert.loop?) genuine]
      exact List.mem_of_mem_head? first
    obtain ⟨n, inside, loop⟩ := List.mem_filterMap.mp member
    obtain ⟨x, walked, rfl⟩ := List.mem_map.mp inside
    refine ⟨x, walked, ?_⟩
    cases kind : x.node <;> rw [kind] at loop <;> cases loop
    rfl
  obtain ⟨before, x, after, parted⟩ := parts w.stopsAtSets (fun _ => rfl) found
  obtain rfl := loop_parted genuine first parted
  have span : l.outline.node.span = l.span := by
    rw [l.node_outline]
    rfl
  have around := aroundLoop_eq parted.visited_eq parted.isLoop parted.quiet
  have inside (place : Span → Bool) {x : Outline} (own : x.Genuine) :=
    @visited _ (w.setAt? place) (fun n inert => inert.setAt? place) x own
  have front : w.setsBefore l.span o = (before.map node).filterMap (w.setAt? anywhere) := by
    rw [setsBefore, inside _ genuine, ← span, setAt?_before parted]
  have back : w.setsAfter l.span o = (after.map node).filterMap (w.setAt? anywhere) := by
    rw [setsAfter, inside _ genuine, ← span, setAt?_after parted]
  refine ⟨?_, ?_, ?_⟩
  · rw [SetsSplit, front, back, sets, sets, inside _ genuine, inside _ l.genuine, parted.visited_eq]
    simp only [List.map_append, List.filterMap_append]
  · rw [surroundings_before, around, overwritten_eq, front]
  · rw [surroundings_after, around, overwritten_eq, back]

end Watch

end SortTrace.Synthesis
