import SortTrace.Proofs.Script.Contained
import SortTrace.Proofs.Script.RenamedOutline

/-!
How wide the tree of a text can be: every token takes a character at least, and every part of a node takes
a token at least.
-/

namespace SortTrace.Script

theorem Scanned.length_le {cs : List Char} {p : Position} {ts : List Token}
    (scanned : Scanned cs p ts) : ts.length ≤ cs.length + 1 := by
  induction scanned with
  | done p => simp
  | gap _ _ ih =>
    rw [List.length_cons, List.length_append]
    omega
  | token _ _ ih =>
    rw [List.length_cons, List.length_cons, List.length_append]
    omega

namespace Outline

variable {ts : List Token} {i j : Nat} {os : List Outline}

theorem Laid.length_le (laid : Laid ts i j os) : i + os.length ≤ j := by
  induction os generalizing i with
  | nil => exact laid.le
  | cons o rest ih =>
    cases laid with
    | cons before fits further =>
      have inner := fits.lt
      have outer := ih further
      rw [List.length_cons]
      omega

theorem Genuine.length_parts {o : Outline} (genuine : o.Genuine) :
    o.node.parts.length = o.children.length := by
  rw [genuine.children_eq, List.length_map]

theorem Laid.narrow (laid : Laid ts i j os) (genuine : ∀ o ∈ os, o.Genuine) :
    ∀ o ∈ os, o.Every fun n => n.parts.length ≤ j := by
  refine every_of_walkAll os fun x member => ?_
  obtain ⟨k, l, -, stops, fits⟩ := laid.mem_walkAll x member
  have length := fits.laid.length_le
  rw [(walkAll_genuine genuine x member).length_parts]
  omega

end Outline

theorem Node.every_part {P : Node → Prop} {n m : Node} (every : n.outline.Every P)
    (part : m ∈ n.parts) : m.outline.Every P := by
  have child : m.outline ∈ n.outline.children := by
    rw [n.children_outline]
    exact List.mem_map_of_mem part
  rcases shape : n.outline with ⟨node, below⟩
  rw [shape] at every child
  exact (Outline.every_mk.mp every).2 _ child

theorem Node.every_here {P : Node → Prop} {n : Node} (every : n.outline.Every P) : P n := by
  have here := every.here
  rwa [n.node_outline] at here

/-- The node has no more parts than a list in the memory of a machine of 64 bits can have. -/
def Node.Brief (n : Node) : Prop := n.parts.length < 2 ^ 63

theorem Program.ofText_narrow {text : String} {p : Program} (read : Program.ofText text = .ok p) :
    p.outline.Every fun n => n.parts.length ≤ text.length := by
  rcases scan : scan text with e | ts
  · rw [Program.ofText, scan] at read
    cases read
  rw [Program.ofText, scan] at read
  have scanned : Scanned text.toList .origin ts := scanned_of_scanFrom scan
  obtain ⟨j, fits, laid, -⟩ := Program.ofTokens_fits scanned.ordered scanned.exists_eof read
  have tokens := fits.reaches.le_length
  have characters := scanned.length_le
  rw [String.length_toList] at characters
  have within (n : Node) (few : n.parts.length ≤ j) : n.parts.length ≤ text.length := by omega
  have statements := laid.length_le
  rw [Stmt.outlines_map, List.length_map, List.length_map] at statements
  refine Outline.every_mk.mpr ⟨within _ ?_, fun o member => ?_⟩
  · rw [Node.parts, List.length_map]
    omega
  · exact (laid.narrow (Stmt.outlines_genuine p.body) o member).mono within

theorem Program.ofText_brief {text : String} {p : Program} (read : Program.ofText text = .ok p)
    (short : text.length < 2 ^ 63) : p.outline.Every Node.Brief :=
  (Program.ofText_narrow read).mono fun _ few => Nat.lt_of_le_of_lt few short

end SortTrace.Script
