import SortTrace.Proofs.Script.BareOutline
import SortTrace.Proofs.Script.Parsed
import SortTrace.Proofs.Script.RenamedOutline
import SortTrace.Proofs.Script.RenamedText

/-!
Renamable scripts. What the parser returns can be renamed in its texts, if it has no template and no
infinite number.
-/

namespace SortTrace.Script

def Node.Renamable (n : Node) : Prop := ∀ e, n.expr? = some e → e.isRenamable = true

abbrev Outline.Renamable (o : Outline) : Prop := o.Every Node.Renamable

abbrev Stmt.Renamable (s : Stmt) : Prop := s.outline.Renamable

theorem Expr.node_outline (e : Expr) : e.outline.node = .expr e := by
  cases e <;> rfl

theorem Expr.isRenamable_of_every {e : Expr} (every : e.outline.Renamable) :
    e.isRenamable = true := by
  refine every.here e ?_
  rw [e.node_outline]
  rfl

theorem Stmt.isRenamable_expr {e : Expr} {s : Span} (renamable : (Stmt.expr e s).Renamable) :
    e.isRenamable = true := by
  simp only [Stmt.Renamable, Outline.Renamable, Stmt.outline, Outline.every_mk,
    List.forall_mem_singleton] at renamable
  exact e.isRenamable_of_every renamable.2

theorem Stmt.renamable_block {body : List Stmt} {s : Span}
    (renamable : (Stmt.block body s).Renamable) : ∀ x ∈ body, x.Renamable := by
  have below : ∀ o ∈ Stmt.outlines body, o.Renamable := by
    simp only [Stmt.Renamable, Outline.Renamable, Stmt.outline, Outline.every_mk] at renamable
    exact renamable.2
  clear renamable
  induction body with
  | nil => simp
  | cons x rest ih =>
    obtain ⟨first, others⟩ := List.forall_mem_cons.mp below
    exact List.forall_mem_cons.mpr ⟨first, ih others⟩

theorem Stmt.renamable_statements {s : Stmt} (renamable : s.Renamable) :
    ∀ x ∈ s.statements, x.Renamable := by
  cases s with
  | block body _ => exact renamable_block renamable
  | _ => simpa [Stmt.statements] using renamable

theorem Loop.renamable_body {l : Loop} (renamable : l.outline.Renamable) :
    l.body.Renamable := by
  cases l <;> simp only [Outline.Renamable, Loop.outline, Outline.every_mk, List.forall_mem_append,
    List.forall_mem_cons] at renamable
  · exact renamable.2.2.2.2.1
  · exact renamable.2.2.1
  · exact renamable.2.2.1
  · exact renamable.2.1

theorem Stmt.renamable_loop {l : Loop} {s : Span} (renamable : (Stmt.loop l s).Renamable) :
    l.body.Renamable := by
  simp only [Stmt.Renamable, Outline.Renamable, Stmt.outline, Outline.every_mk,
    List.forall_mem_singleton] at renamable
  exact Loop.renamable_body renamable.2

def Expr.isIrregular : Expr → Bool
  | .number v _ => v.isInfinite
  | .template .. => true
  | _ => false

def Node.Regular (ks : List TokenKind) (n : Node) : Prop :=
  ∀ e, n.expr? = some e → e.BuiltFrom ks ∧ e.isIrregular = false

theorem Expr.regular_of_every {ks : List TokenKind} {e : Expr}
    (every : e.outline.Every (Node.Regular ks)) : e.BuiltFrom ks ∧ e.isIrregular = false := by
  refine every.here e ?_
  rw [e.node_outline]
  rfl

section

variable {ks : List TokenKind}

mutual

theorem isRenamable_of_regular (names : ∀ name, .ident name ∈ ks → isIdentifier name = true) :
    ∀ e : Expr, e.outline.Every (Node.Regular ks) → e.isRenamable = true
  | .number v _, every => by
    have finite := (Expr.regular_of_every every).2
    simpa [Expr.isRenamable, Expr.isIrregular] using finite
  | .str .., _ | .bool .., _ | .null _, _ => rfl
  | .template .., every => by
    have never := (Expr.regular_of_every every).2
    cases never
  | .ident name _, every => by
    cases (Expr.regular_of_every every).1 with
    | ident s member => exact names name member
  | .array items _, every => by
    simp only [Expr.outline, Outline.every_mk] at every
    exact areRenamable_of_regular names items every.2
  | .unary _ e _, every | .update _ _ e _, every => by
    simp only [Expr.outline, Outline.every_mk, List.forall_mem_singleton] at every
    exact isRenamable_of_regular names e every.2
  | .binary l _ r _, every | .assign _ l r _, every | .index l r _, every => by
    simp only [Expr.outline, Outline.every_mk, List.forall_mem_cons] at every
    rw [Expr.isRenamable, isRenamable_of_regular names l every.2.1,
      isRenamable_of_regular names r every.2.2.1, Bool.and_true]
  | .conditional t c a _, every => by
    simp only [Expr.outline, Outline.every_mk, List.forall_mem_cons] at every
    rw [Expr.isRenamable, isRenamable_of_regular names t every.2.1,
      isRenamable_of_regular names c every.2.2.1, isRenamable_of_regular names a every.2.2.2.1,
      Bool.and_true, Bool.and_true]
  | .call f args _, every => by
    simp only [Expr.outline, Outline.every_mk, List.forall_mem_cons] at every
    rw [Expr.isRenamable, isRenamable_of_regular names f every.2.1,
      areRenamable_of_regular names args every.2.2, Bool.and_true]
  | .member o p _, every => by
    have built := (Expr.regular_of_every every).1
    simp only [Expr.outline, Outline.every_mk, List.forall_mem_singleton] at every
    have word : isWord p = true := by
      cases built with
      | member s object spelled =>
        rcases spelled with member | ⟨w, rfl⟩
        · exact isWord_of_isIdentifier (names p member)
        · exact isWord_text w
    rw [Expr.isRenamable, isRenamable_of_regular names o every.2, word, Bool.and_true]
  | .func f _, every => by
    cases (Expr.regular_of_every every).1 with
    | func s title body =>
      rw [Expr.isRenamable, List.all_eq_true]
      exact fun name member => names name (title name member)

theorem areRenamable_of_regular (names : ∀ name, .ident name ∈ ks → isIdentifier name = true) :
    ∀ es : List Expr, (∀ o ∈ Expr.outlines es, o.Every (Node.Regular ks)) →
      Expr.areRenamable es = true
  | [], _ => rfl
  | e :: rest, every => by
    simp only [Expr.outlines, List.forall_mem_cons] at every
    rw [Expr.areRenamable, isRenamable_of_regular names e every.1,
      areRenamable_of_regular names rest every.2, Bool.and_true]

end

end

theorem Program.renamable_of_exprs {p : Program} (all : ∀ e ∈ p.exprs, e.isRenamable = true) :
    p.outline.Renamable := by
  refine Outline.every_of_walk p.outline fun x member e found => all e ?_
  exact List.mem_filterMap.mpr ⟨x.node, List.mem_map_of_mem member, found⟩

theorem Program.isRenamable_of_ofText {text : String} {p : Program}
    (read : Program.ofText text = .ok p) (regular : ∀ e ∈ p.exprs, e.isIrregular = false) :
    ∀ e ∈ p.exprs, e.isRenamable = true := by
  obtain ⟨tokens, scanned, built⟩ := Program.builtFrom_of_ofText read
  have all : p.outline.Every (Node.Regular (tokens.map Token.kind)) := by
    refine Outline.every_of_walk p.outline fun x member e found => ?_
    have inside : e ∈ p.exprs :=
      List.mem_filterMap.mpr ⟨x.node, List.mem_map_of_mem member, found⟩
    exact ⟨built e inside, regular e inside⟩
  intro e member
  obtain ⟨n, visited, found⟩ := List.mem_filterMap.mp member
  obtain ⟨x, walked, rfl⟩ := List.mem_map.mp visited
  have shape : x.node = .expr e := by
    cases kind : x.node <;> rw [kind] at found <;> cases found
    rfl
  have own := p.genuine.walk x walked
  rw [Outline.Genuine, shape] at own
  refine isRenamable_of_regular (fun _ member => scanFrom_ident scanned member) e ?_
  rw [show e.outline = x from own]
  exact all.walk x walked

mutual

theorem isRenamable_bare : ∀ e : Expr, e.bare.isRenamable = e.isRenamable
  | .number .. | .str .. | .template .. | .bool .. | .null _ | .ident .. => rfl
  | .array items _ => areRenamable_bares items
  | .unary _ e _ | .update _ _ e _ => isRenamable_bare e
  | .binary l _ r _ | .assign _ l r _ | .index l r _ => by
    simp only [Expr.bare, Expr.isRenamable, isRenamable_bare l, isRenamable_bare r]
  | .conditional t c a _ => by
    simp only [Expr.bare, Expr.isRenamable, isRenamable_bare t, isRenamable_bare c,
      isRenamable_bare a]
  | .call f args _ => by
    simp only [Expr.bare, Expr.isRenamable, isRenamable_bare f, areRenamable_bares args]
  | .member o p _ => by simp only [Expr.bare, Expr.isRenamable, isRenamable_bare o]
  | .func f _ => by cases f <;> rfl

theorem areRenamable_bares : ∀ es : List Expr,
    Expr.areRenamable (Expr.bares es) = Expr.areRenamable es
  | [] => rfl
  | e :: rest => by
    simp only [Expr.bares, Expr.areRenamable, isRenamable_bare e, areRenamable_bares rest]

end

theorem Expr.isIrregular_bare (e : Expr) : e.bare.isIrregular = e.isIrregular := by
  cases e <;> rfl

theorem Program.exprs_bare (p : Program) : p.bare.exprs = p.exprs.map Expr.bare := by
  have blind : Blind fun _ => false := fun _ => rfl
  have commutes (n : Node) : n.bare.expr? = n.expr?.map Expr.bare := by cases n <;> rfl
  rw [exprs, outline_bare, Outline.allNodes, Outline.nodes_bare blind,
    filterMap_commutes _ _ commutes]
  rfl

end SortTrace.Script
