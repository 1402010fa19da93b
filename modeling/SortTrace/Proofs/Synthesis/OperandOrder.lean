import SortTrace.Proofs.Synthesis.GuardedRun
import SortTrace.Proofs.Synthesis.GuardedText

/-!
The order of the operands in the condition of an exchange. The guard keeps the relation of the
condition and asks whether it holds of the left neighbour and the right one, whichever of them the
condition names first. So a condition with its operands exchanged and its operator mirrored, which
says the same, makes the script sort the other way.
-/

namespace SortTrace

open Sorting

namespace Relation

/-- The relation that holds of two values if this one holds of them the other way round. -/
def mirror : Relation → Relation
  | lt => gt
  | gt => lt
  | le => ge
  | ge => le
  | r => r

variable {r : Relation}

theorem holds_mirror (r : Relation) (x y : Int64) : r.mirror.holds x y = r.holds y x := by
  cases r with
  | eq => exact Bool.beq_comm
  | ne => exact bne_comm
  | lt | gt | le | ge => rfl

@[simp] theorem mirror_mirror (r : Relation) : r.mirror.mirror = r := by
  cases r <;> rfl

theorem Ascends.mirror (ascends : r.Ascends) : r.mirror.Descends :=
  { exchanged := fun x y holds =>
      Int.neg_le_neg (ascends.exchanged y x (r.holds_mirror x y ▸ holds))
    kept := fun x y fails =>
      Int.neg_le_neg (ascends.kept y x (r.holds_mirror x y ▸ fails)) }

theorem ascends_or_mirror (other : r.mirror ≠ r) : r.Ascends ∨ r.mirror.Ascends := by
  cases r with
  | eq | ne => exact absurd rfl other
  | gt => exact .inl ascends_gt
  | ge => exact .inl ascends_ge
  | lt => exact .inr ascends_gt
  | le => exact .inr ascends_ge

end Relation

namespace Script

def BinOp.mirror : BinOp → BinOp
  | lt => gt
  | gt => lt
  | ltEq => gtEq
  | gtEq => ltEq
  | op => op

theorem BinOp.isComparison_mirror (op : BinOp) : op.mirror.isComparison = op.isComparison := by
  cases op <;> rfl

theorem BinOp.ofSymbol?_mirror (op : BinOp) :
    Relation.ofSymbol? op.mirror.text = (Relation.ofSymbol? op.text).map Relation.mirror := by
  cases op <;> rfl

end Script

namespace Synthesis

open Script

namespace GuardedScript

variable (b : GuardedScript) (config : Config)

/-- The same script with the operands of its condition exchanged and the operator mirrored. -/
def turned : GuardedScript :=
  { b with
    op := b.op.mirror
    comparison := b.op.isComparison_mirror.trans b.comparison
    backward := !b.backward }

theorem relation_turned : b.turned.relation = b.relation.mirror := by
  have turned := b.turned.ofSymbol?_op
  have op : b.turned.op = b.op.mirror := rfl
  rw [op, BinOp.ofSymbol?_mirror, b.ofSymbol?_op] at turned
  exact (Option.some.inj turned).symm

theorem allEqual_of_finish_eq {up down : Relation} (ascends : up.Ascends)
    (descends : down.Descends)
    (same : (b.sorting config up (.start b.values)).finish =
      (b.sorting config down (.start b.values)).finish) : AllEqual b.values := by
  let last := b.values.length - 1
  let start := b.sayOuter config last (.start b.values)
  have comments (i : Nat) : Comments (b.sayInner config (last - i)) :=
    b.sayInner_comments config (last - i)
  have state : Recorder.Rearranges b.values start :=
    (b.sayOuter_comments config last).rearranges (.start b.values)
  have whole : last = start.size - 1 := by rw [state.size_eq]
  obtain ⟨⟨⟨_, upwards⟩, -⟩, -⟩ := sweeps_sort comments ascends state whole
  obtain ⟨⟨⟨_, downwards⟩, -⟩, -⟩ := sweeps_sort comments descends state whole
  -- A trace replays to the array its recorder ends with: here one that ascends and descends.
  have replays := congrArg Trace.replay same
  rw [sorting, sorting] at replays
  have arrays := upwards.replay_eq.symm.trans (replays.trans downwards.replay_eq)
  exact allEqual_of_sweeps_eq _ comments ascends descends state whole (Except.ok.inj arrays)

theorem sorting_mirror (relation : Relation) (equal : AllEqual b.values) :
    b.sorting config relation.mirror (.start b.values) =
      b.sorting config relation (.start b.values) := by
  let last := b.values.length - 1
  have said : AllEqual (b.sayOuter config last (.start b.values)).array := by
    rw [(b.sayOuter_comments config last).array_eq]
    exact equal
  have comments (i : Nat) : Comments (b.sayInner config (last - i)) :=
    b.sayInner_comments config (last - i)
  have same (x : Int64) : relation.mirror.holds x x = relation.holds x x :=
    relation.holds_mirror x x
  exact (sweeps_allEqual _ _ comments same said last last).1

theorem finish_sorting_mirror_iff (relation : Relation) :
    (b.sorting config relation.mirror (.start b.values)).finish =
        (b.sorting config relation (.start b.values)).finish ↔
      relation.mirror = relation ∨ AllEqual b.values := by
  constructor
  · intro same
    by_cases symmetric : relation.mirror = relation
    · exact .inl symmetric
    · rcases Relation.ascends_or_mirror symmetric with ascends | ascends
      · exact .inr (b.allEqual_of_finish_eq config ascends ascends.mirror same.symm)
      · have descends := ascends.mirror
        rw [Relation.mirror_mirror] at descends
        exact .inr (b.allEqual_of_finish_eq config ascends descends same)
  · rintro (symmetric | equal)
    · rw [symmetric]
    · rw [b.sorting_mirror config relation equal]

/-- Exchanging the operands and mirroring the operator, which keeps the meaning of the condition,
keeps the trace only where the operator is its own mirror image or all values are equal. -/
theorem synthesize_turned_iff {text turned : String}
    (spelled : spelling text = .ok (b.tokens ++ [TokenKind.eof]))
    (spelledTurned : spelling turned = .ok (b.turned.tokens ++ [TokenKind.eof]))
    (nonempty : b.literals ≠ []) (bound : b.literals.length < 2 ^ 63)
    (room : (b.literals.length - 1) + b.literals.length * (b.literals.length - 1) / 2 ≤
      config.maxSteps) :
    (synthesize config turned).result = (synthesize config text).result ↔
      b.relation.mirror = b.relation ∨ AllEqual b.values := by
  have steps := iterations_le (List.length_pos_iff.mpr nonempty) room
  have usual := b.synthesize_tokens config spelled nonempty bound steps
  have other : (synthesize config turned).result =
      .ok (b.sorting config b.relation.mirror (.start b.values)).finish := by
    rw [← relation_turned]
    exact b.turned.synthesize_tokens config spelledTurned nonempty bound steps
  rw [usual, other, Except.ok.injEq]
  exact b.finish_sorting_mirror_iff config b.relation

theorem isIdentifier_outer : isIdentifier "i" = true := by decide

theorem isIdentifier_inner : isIdentifier "j" = true := by decide

theorem isComparison_gt : BinOp.gt.isComparison = true := rfl

def twoNumbers (x y : Nat) : GuardedScript where
  array := ⟨"arr", by decide⟩
  outer := ⟨"i", isIdentifier_outer⟩
  inner := ⟨"j", isIdentifier_inner⟩
  arrayWord := .letKind
  loopWord := .letKind
  exchange := .destructuring
  literals := [.whole x, .whole y]
  numeric := by simp [Expr.whole, Expr.number?]
  op := .gt
  comparison := isComparison_gt
  backward := false

theorem spelling_twoNumbers {x y : Nat} (smallX : x ≤ 2 ^ 53) (smallY : y ≤ 2 ^ 53) :
    spelling (twoNumbers x y).text = .ok ((twoNumbers x y).tokens ++ [TokenKind.eof]) ∧
      spelling (twoNumbers x y).turned.text =
        .ok ((twoNumbers x y).turned.tokens ++ [TokenKind.eof]) := by
  have literals : (Expr.array (twoNumbers x y).literals {}).Printable :=
    (printable_whole smallX).pair (printable_whole smallY)
  have usual := (twoNumbers x y).spells_text literals
  have mirrored := (twoNumbers x y).turned.spells_text literals
  exact ⟨usual.spelling_eq, mirrored.spelling_eq⟩

theorem synthesize_turned_equalNumbers :
    (synthesize {} (twoNumbers 4 4).turned.text).result =
      (synthesize {} (twoNumbers 4 4).text).result := by
  obtain ⟨spelled, spelledTurned⟩ := @spelling_twoNumbers 4 4 (by omega) (by omega)
  have equal : AllEqual (twoNumbers 4 4).values := by
    rintro x memberX y memberY
    simp only [values, twoNumbers, List.map_cons, List.map_nil, List.mem_cons, List.not_mem_nil,
      or_false, or_self] at memberX memberY
    rw [memberX, memberY]
  exact ((twoNumbers 4 4).synthesize_turned_iff {} spelled spelledTurned (by simp [twoNumbers])
    (by decide) (by decide)).mpr (.inr equal)

def twoNumbersUsual : String :=
  "let arr = [2, 1];\nfor (let i = 0; i < arr.length - 1; i++) \x7b\n" ++
  "for (let j = 0; j < arr.length - i - 1; j++) \x7b\nif (arr[j] > arr[j + 1]) \x7b\n" ++
  "[arr[j], arr[j + 1]] = [arr[j + 1], arr[j]];\n\x7d\n\x7d\n\x7d\n"

def twoNumbersTurned : String :=
  "let arr = [2, 1];\nfor (let i = 0; i < arr.length - 1; i++) \x7b\n" ++
  "for (let j = 0; j < arr.length - i - 1; j++) \x7b\nif (arr[j + 1] < arr[j]) \x7b\n" ++
  "[arr[j], arr[j + 1]] = [arr[j + 1], arr[j]];\n\x7d\n\x7d\n\x7d\n"

/-- The two conditions say the same, but only the first one sorts the numbers upwards. -/
theorem synthesize_twoNumbersTurned :
    (synthesize {} twoNumbersUsual).result =
        .ok ⟨[.init [2, 1], .compare 0 1 2 1, .swap 0 1 2 1, .sorted [1], .complete]⟩ ∧
      (synthesize {} twoNumbersTurned).result =
        .ok ⟨[.init [2, 1], .compare 0 1 2 1, .sorted [1], .complete]⟩ := by
  obtain ⟨spelled, spelledTurned⟩ := @spelling_twoNumbers 2 1 (by omega) (by omega)
  have usual : twoNumbersUsual = (twoNumbers 2 1).text := by decide +kernel
  have mirrored : twoNumbersTurned = (twoNumbers 2 1).turned.text := by decide +kernel
  have upwards := (twoNumbers 2 1).synthesize_tokens {} spelled (by simp [twoNumbers]) (by decide)
    (by decide)
  have downwards := (twoNumbers 2 1).turned.synthesize_tokens {} spelledTurned
    (by simp [twoNumbers, turned]) (by decide) (by decide)
  rw [usual, mirrored, upwards, downwards]
  exact ⟨congrArg Except.ok (by decide +kernel), congrArg Except.ok (by decide +kernel)⟩

end GuardedScript

end Synthesis

end SortTrace
