import SortTrace.Proofs.Script.Size
import SortTrace.Proofs.Synthesis.GuardSearch
import SortTrace.Proofs.Synthesis.Words
import SortTrace.Synthesis.LoopPlan

/-!
Loop plans on the watched machine: ranges are read from literals and from the length of the array in
words, and the search for a guard goes through lists of statements by positions.
-/

namespace SortTrace.Synthesis

open Script Outline

namespace Machine

/-- A literal without its fraction, held at the ends of the range of a signed word. -/
def literal (x : Numeral.Signed) : Except Breach Int64 :=
  let whole : Int := if x.magnitude.isInfinite then 2 ^ 63 else x.magnitude.floor
  signed (max (-2 ^ 63) (min (2 ^ 63 - 1) (if x.negative then -whole else whole)))

def literal? : Option Numeral.Signed → Except Breach (Option Int64)
  | none => return none
  | some x => return some (← literal x)

def firstValue : ForInit → Except Breach (Option String × Option Int64)
  | .varDecl (.mk _ (.mk name init _ :: _) _) => do
    let start ← literal? (init.bind Expr.number?)
    return (some name, start)
  | .expr (.assign _ target value _) => do
    let start ← literal? value.number?
    return (target.name?, start)
  | _ => return (none, none)

def stopValue (e : Expr) (length : Int64) : Except Breach Int64 :=
  match e.number? with
  | some x => literal x
  | none =>
    match e with
    | .binary .. => signed (length.toInt - 1)
    | _ => return length

def startOf : Loop → Except Breach (Option String × Option Int64)
  | .forLoop init _ _ _ _ => firstValue init
  | _ => return (none, none)

def stopOf (l : Loop) (length : Int64) : Except Breach Int64 :=
  match testSides? l with
  | some (_, rhs) => stopValue rhs length
  | none => return length

def rangeOf (l : Loop) (length : Int64) : Except Breach LoopRange :=
  match l with
  | .forEach _ binding _ _ _ _ => return ⟨some binding, 0, length⟩
  | _ => do
    let first ← startOf l
    let stop ← stopOf l length
    let tested := (testSides? l).bind fun (lhs, _) => lhs.name?
    return ⟨first.1.or tested, first.2.getD 0, stop⟩

theorem literal_eq (x : Numeral.Signed) : literal x = .ok x.toInt64 := by
  unfold literal Numeral.Signed.toInt64
  exact signed_ok (by omega) (by omega)

theorem literal?_eq (x : Option Numeral.Signed) :
    literal? x = .ok (x.map Numeral.Signed.toInt64) := by
  cases x with
  | none => rfl
  | some x => rw [literal?, literal_eq]; rfl

theorem firstValue_eq (init : ForInit) : firstValue init = .ok (Synthesis.firstValue init) := by
  match init with
  | .varDecl (.mk _ (.mk name init _ :: _) _) => rw [firstValue, literal?_eq]; rfl
  | .expr (.assign _ target value _) => rw [firstValue, literal?_eq]; rfl
  | .none | .varDecl (.mk _ [] _) => rfl
  | .expr (.number ..) | .expr (.str ..) | .expr (.template ..) | .expr (.bool ..) | .expr (.null ..)
  | .expr (.ident ..) | .expr (.array ..) | .expr (.unary ..) | .expr (.update ..)
  | .expr (.binary ..) | .expr (.conditional ..) | .expr (.call ..) | .expr (.member ..)
  | .expr (.index ..) | .expr (.func ..) => rfl

theorem stopValue_eq (e : Expr) {length : Int64} (natural : 0 ≤ length.toInt) :
    stopValue e length = .ok (Synthesis.stopValue e length) := by
  unfold stopValue Synthesis.stopValue
  cases e.number? with
  | some x => exact literal_eq x
  | none =>
    cases e with
    | binary => exact signed_pred natural
    | _ => rfl

theorem stopOf_eq (l : Loop) {length : Int64} (natural : 0 ≤ length.toInt) :
    stopOf l length = .ok (match testSides? l with
      | some (_, rhs) => Synthesis.stopValue rhs length
      | none => length) := by
  unfold stopOf
  rcases testSides? l with _ | ⟨lhs, rhs⟩
  · rfl
  · exact stopValue_eq rhs natural

theorem rangeOf_eq (l : Loop) {length : Int64} (natural : 0 ≤ length.toInt) :
    rangeOf l length = .ok (LoopRange.ofLoop l length) := by
  cases l with
  | forEach => rfl
  | forLoop init => simp only [rangeOf, startOf, firstValue_eq, stopOf_eq _ natural]; rfl
  | _ => simp only [rangeOf, startOf, stopOf_eq _ natural]; rfl

def slice? {α : Type} (l : List α) (start stop : Nat) : Option (List α) :=
  if start ≤ stop ∧ stop ≤ l.length then some ((l.take stop).drop start) else none

def swapsAlone (w : Watch) : Stmt → Bool
  | .expr e _ => w.exchangesElements e
  | _ => false

def swapAt (w : Watch) (body : List Stmt) (i : Nat) : Except Breach Bool := do
  let s ← entry body i
  if swapsAlone w s then return true
  let stop ← unsigned (i + 3)
  match slice? body i stop with
  | some [save, shift, restore] => return w.exchangesThrough save shift restore
  | _ => return false

def swapFrom (w : Watch) (body : List Stmt) : (count : Nat) → (i : Nat) → Except Breach Bool
  | 0, _ => return false
  | count + 1, i => do
    if ← swapAt w body i then return true
    swapFrom w body count (← unsigned (i + 1))

def holdsSwap (w : Watch) (body : List Stmt) : Except Breach Bool := swapFrom w body body.length 0

/-- What guards a statement that stands alone, where `inside` searches inside it. -/
def aloneGuard? (w : Watch) (s : Stmt) (inside : Except Breach (Option Guard)) :
    Except Breach (Option Guard) := do
  match s with
  | .block .. => inside
  | _ => if ← swapAt w [s] 0 then return some .always else inside

mutual

def firstGuard? (w : Watch) (body : List Stmt) (i : Nat) : List Stmt →
    Except Breach (Option Guard)
  | [] => return none
  | s :: rest => do
    if ← swapAt w body i then return some .always
    match ← guardInside? w s with
    | some g => return some g
    | none => firstGuard? w body (← unsigned (i + 1)) rest

def guardInside? (w : Watch) : Stmt → Except Breach (Option Guard)
  | .ifElse test consequent alternate _ => do
    if let some r := w.testRelation? test then
      if ← holdsSwap w consequent.statements then return some (.holding r)
    match ← aloneGuard? w consequent (guardInside? w consequent) with
    | some g => return some g
    | none =>
      match alternate with
      | none => return none
      | some a => aloneGuard? w a (guardInside? w a)
  | .block body _ => firstGuard? w body 0 body
  | .loop (.forLoop _ _ _ body _) _ | .loop (.forEach _ _ _ _ body _) _
  | .loop (.whileLoop _ body _) _ | .loop (.doWhile body _ _) _ =>
    aloneGuard? w body (guardInside? w body)
  | _ => return none

end

def guardOf (w : Watch) (body : List Stmt) : Except Breach Guard := do
  return (← firstGuard? w body 0 body).getD .absent

theorem slice?_eq {α : Type} (l : List α) (i : Nat) :
    slice? l i (i + 3) = if 3 ≤ (l.drop i).length then some ((l.drop i).take 3) else none := by
  have room : (i ≤ i + 3 ∧ i + 3 ≤ l.length) ↔ 3 ≤ (l.drop i).length := by
    rw [List.length_drop]
    omega
  rw [slice?, List.drop_take, Nat.add_sub_cancel_left]
  simp only [room]

section

variable {w : Watch} {body rest : List Stmt} {i : Nat} {s : Stmt}

theorem inside_of_drop (left : body.drop i = s :: rest) : i < body.length := by
  have length := congrArg List.length left
  rw [List.length_drop, List.length_cons] at length
  omega

theorem drop_succ (left : body.drop i = s :: rest) : body.drop (i + 1) = rest := by
  rw [← List.drop_drop, left]
  rfl

theorem startsWithSwap_short (few : rest.length < 2) :
    w.startsWithSwap (s :: rest) = swapsAlone w s := by
  rcases rest with _ | ⟨shift, _ | ⟨restore, further⟩⟩
  · cases s <;> simp [Watch.startsWithSwap, swapsAlone]
  · cases s <;> simp [Watch.startsWithSwap, swapsAlone]
  · rw [List.length_cons, List.length_cons] at few
    omega

theorem startsWithSwap_long (s shift restore : Stmt) (further : List Stmt) :
    w.startsWithSwap (s :: shift :: restore :: further) =
      (swapsAlone w s || w.exchangesThrough s shift restore) := by
  cases s <;> simp [Watch.startsWithSwap, swapsAlone]

theorem swapAt_eq (short : body.length < 2 ^ 63) (left : body.drop i = s :: rest) :
    swapAt w body i = .ok (w.startsWithSwap (s :: rest)) := by
  have inside := inside_of_drop left
  have found : body[i]? = some s := by rw [← List.head?_drop, left, List.head?_cons]
  have next : unsigned ((i : Int) + 3) = .ok (i + 3) := unsigned_natCast (n := i + 3) (by omega)
  have part := slice?_eq body i
  rw [left] at part
  unfold swapAt
  rw [entry_ok found, next]
  simp only [ok_bind]
  rcases rest with _ | ⟨shift, _ | ⟨restore, further⟩⟩
  · rw [startsWithSwap_short (by simp), part]
    cases swapsAlone w s <;> rfl
  · rw [startsWithSwap_short (by simp), part]
    cases swapsAlone w s <;> rfl
  · rw [if_pos (by simp)] at part
    rw [startsWithSwap_long, part]
    cases swapsAlone w s <;> rfl

theorem unsigned_next (short : body.length < 2 ^ 63) (left : body.drop i = s :: rest) :
    unsigned ((i : Int) + 1) = .ok (i + 1) := by
  have inside := inside_of_drop left
  exact unsigned_natCast (n := i + 1) (by omega)

theorem swapFrom_eq (short : body.length < 2 ^ 63) : ∀ (rest : List Stmt) (i : Nat),
    body.drop i = rest → swapFrom w body rest.length i = .ok (w.holdsSwap rest)
  | [], _, _ => rfl
  | s :: rest, i, left => by
    have further := swapFrom_eq short rest (i + 1) (drop_succ left)
    rw [List.length_cons, swapFrom, swapAt_eq short left, Watch.holdsSwap, unsigned_next short left]
    cases w.startsWithSwap (s :: rest) with
    | true => rfl
    | false => exact further

theorem holdsSwap_eq (short : body.length < 2 ^ 63) :
    holdsSwap w body = .ok (w.holdsSwap body) :=
  swapFrom_eq short body 0 rfl

theorem aloneGuard?_eq {found : Option Guard} {inside : Except Breach (Option Guard)}
    (searched : inside = .ok found) : aloneGuard? w s inside = .ok (w.aloneGuard? s found) := by
  subst searched
  have alone : swapAt w [s] 0 = .ok (w.startsWithSwap [s]) := swapAt_eq (by simp) rfl
  cases s with
  | block => rfl
  | _ =>
    simp only [aloneGuard?, alone, Watch.aloneGuard?, ok_bind]
    split <;> rfl

theorem statements_brief (brief : s.outline.Every Node.Brief) : s.statements.length < 2 ^ 63 := by
  cases s with
  | block inner span =>
    have few : Node.Brief (.stmt (.block inner span)) := Node.every_here brief
    rwa [Node.Brief, Node.parts, List.length_map] at few
  | _ => simp [Stmt.statements]

theorem loop_brief {l : Loop} (brief : l.outline.Every Node.Brief) :
    l.body.outline.Every Node.Brief := by
  refine Node.every_part (n := .loop l) (m := .stmt l.body) brief ?_
  cases l <;> simp [Node.parts, Loop.body]

end

mutual

theorem firstGuard?_eq (w : Watch) {body : List Stmt} (short : body.length < 2 ^ 63) :
    ∀ (rest : List Stmt) (i : Nat), body.drop i = rest →
    (∀ s ∈ rest, s.outline.Every Node.Brief) → firstGuard? w body i rest = .ok (w.firstGuard? rest)
  | [], _, _, _ => rfl
  | s :: rest, i, left, brief => by
    obtain ⟨first, others⟩ := List.forall_mem_cons.mp brief
    have inside := guardInside?_eq w s first
    have further := firstGuard?_eq w short rest (i + 1) (drop_succ left) others
    rw [firstGuard?, swapAt_eq short left, inside, Watch.firstGuard?, unsigned_next short left]
    cases w.startsWithSwap (s :: rest) with
    | true => rfl
    | false =>
      cases w.guardInside? s with
      | some g => rfl
      | none => exact further

theorem guardInside?_eq (w : Watch) : ∀ s : Stmt, s.outline.Every Node.Brief →
    guardInside? w s = .ok (w.guardInside? s)
  | .ifElse test consequent alternate span, brief => by
    have first : consequent.outline.Every Node.Brief :=
      Node.every_part (n := .stmt (.ifElse test consequent alternate span)) (m := .stmt consequent)
        brief (by simp [Node.parts])
    have one := aloneGuard?_eq (w := w) (s := consequent) (guardInside?_eq w consequent first)
    have held := holdsSwap_eq (w := w) (statements_brief first)
    rw [Watch.guardInside?_ifElse]
    cases alternate with
    | none =>
      rw [guardInside?, one, held]
      cases w.testRelation? test <;> cases w.holdsSwap consequent.statements <;>
        cases w.aloneGuard? consequent (w.guardInside? consequent) <;> rfl
    | some branch =>
      have second : branch.outline.Every Node.Brief :=
        Node.every_part (n := .stmt (.ifElse test consequent (some branch) span)) (m := .stmt branch)
          brief (by simp [Node.parts])
      have two := aloneGuard?_eq (w := w) (s := branch) (guardInside?_eq w branch second)
      rw [guardInside?, one, two, held]
      cases w.testRelation? test <;> cases w.holdsSwap consequent.statements <;>
        cases w.aloneGuard? consequent (w.guardInside? consequent) <;> rfl
  | .block body span, brief => by
    have short : body.length < 2 ^ 63 := statements_brief brief
    have inner : ∀ s ∈ body, s.outline.Every Node.Brief := fun s member =>
      Node.every_part (n := .stmt (.block body span)) (m := .stmt s) brief (List.mem_map_of_mem member)
    rw [guardInside?, Watch.guardInside?]
    exact firstGuard?_eq w short body 0 rfl inner
  | .loop (.forLoop _ _ _ body _) _, brief | .loop (.forEach _ _ _ _ body _) _, brief
  | .loop (.whileLoop _ body _) _, brief | .loop (.doWhile body _ _) _, brief => by
    have inner := loop_brief <|
      Node.every_part (n := .stmt (.loop _ _)) (m := .loop _) brief (List.mem_singleton_self _)
    rw [guardInside?, Watch.guardInside?]
    exact aloneGuard?_eq (guardInside?_eq w body inner)
  | .varDecl .., _ | .func .., _ | .ret .., _ | .brk _, _ | .cont _, _ | .empty _, _
  | .expr .., _ => by simp only [guardInside?, Watch.guardInside?]; rfl

end

theorem guardOf_eq (w : Watch) {s : Stmt} (brief : s.outline.Every Node.Brief) :
    guardOf w s.statements = .ok (w.guardOf s.statements) := by
  have inner : ∀ x ∈ s.statements, x.outline.Every Node.Brief := by
    cases s with
    | block body span =>
      exact fun x member => Node.every_part (n := .stmt (.block body span)) (m := .stmt x) brief
        (List.mem_map_of_mem member)
    | _ => simpa [Stmt.statements] using brief
  have searched := firstGuard?_eq w (statements_brief brief) s.statements 0 rfl inner
  rw [guardOf, searched]
  rfl

def planOf (p : Program) (w : Watch) (length : Nat) : Except Breach LoopPlan := do
  let length ← signed length
  match p.outline.loops with
  | [] => return .none
  | first :: _ =>
    let outer ← rangeOf first length
    match firstLoop? first.body with
    | none => return .single first outer
    | some inner =>
      let range ← rangeOf inner length
      let guard ← guardOf w inner.body.statements
      return .nested ⟨first, inner, outer, range, innerStopOf outer inner, guard⟩

theorem planOf_eq {p : Program} (brief : p.outline.Every Node.Brief) (w : Watch) {length : Nat}
    (short : length < 2 ^ 63) : planOf p w length = .ok (LoopPlan.ofProgram p w length) := by
  have natural : 0 ≤ (Int64.ofNat length).toInt := by
    rw [Int64.toInt_ofNat_of_lt short]
    omega
  have loops := brief.loops p.genuine
  unfold planOf LoopPlan.ofProgram
  rw [signed_natCast short]
  cases found : p.outline.loops with
  | nil => rfl
  | cons first rest =>
    rw [found] at loops
    have body : first.body.outline.Every Node.Brief := loop_brief (loops first (List.mem_cons_self ..))
    simp only [ok_bind, rangeOf_eq _ natural]
    cases nested : firstLoop? first.body with
    | none => rfl
    | some inner =>
      have member : inner ∈ first.body.outline.loops := List.mem_of_head? nested
      have guard := guardOf_eq w (loop_brief (body.loops first.body.genuine inner member))
      simp only [guard]
      rfl

end Machine

end SortTrace.Synthesis
