import SortTrace.Proofs.Synthesis.GuardSearch
import SortTrace.Proofs.Synthesis.LoopSteps
import SortTrace.Proofs.Synthesis.PatternCases

/-!
How often the exchanges of a body are replayed in one iteration: the pair that the iteration points at is
exchanged at most once, under the guard of the body, and every swap of known positions that is a statement
of the body is performed besides.
-/

namespace SortTrace

namespace Recorder

def swaps (r : Recorder) : Nat := r.events.countP (·.kind = .swap)

theorem swaps_note (r : Recorder) (e : Event) :
    (r.note e).swaps = r.swaps + if e.kind = .swap then 1 else 0 := by
  simp only [swaps, events, note, Array.toList_push, List.countP_append, List.countP_singleton,
    decide_eq_true_eq]

theorem swaps_swap (r : Recorder) (i j : Nat) :
    (r.swap i j).1.swaps = r.swaps + if i < r.size ∧ j < r.size then 1 else 0 := by
  rcases Nat.lt_or_ge i r.size with boundI | outside
  · rcases Nat.lt_or_ge j r.size with boundJ | outside
    · rw [if_pos ⟨boundI, boundJ⟩]
      have atI := List.getElem?_eq_getElem boundI
      have atJ := List.getElem?_eq_getElem boundJ
      unfold swap
      rw [atI, atJ]
      exact r.swaps_note (.swap i j _ _)
    · have refused : r.swap i j = (r, false) := by
        unfold swap
        rw [List.getElem?_eq_none outside]
        split <;> simp_all
      rw [refused, if_neg (by omega)]
      rfl
  · have refused : r.swap i j = (r, false) := by
      unfold swap
      rw [List.getElem?_eq_none outside]
    rw [refused, if_neg (by omega)]
    rfl

theorem swaps_set (r : Recorder) (i : Nat) (value : Int64) : (r.set i value).1.swaps = r.swaps := by
  unfold set
  split
  · exact r.swaps_note (.set i value _)
  · rfl

def exchangeCount (r : Recorder) (asked : Int64 → Int64 → Bool) (i j : Nat) : Nat :=
  match r.value? i, r.value? j with
  | some x, some y => if asked x y then 1 else 0
  | _, _ => 0

theorem swaps_exchangeIf (r : Recorder) (asked : Int64 → Int64 → Bool) (i j : Nat) :
    (r.exchangeIf asked i j).swaps = r.swaps + r.exchangeCount asked i j := by
  unfold exchangeIf compare exchangeCount value?
  cases atI : r.array[i]? with
  | none => rfl
  | some x =>
    cases atJ : r.array[j]? with
    | none => rfl
    | some y =>
      have noted : (r.note (.compare i j x y)).swaps = r.swaps := r.swaps_note _
      have boundI := (List.getElem?_eq_some_iff.mp atI).1
      have boundJ := (List.getElem?_eq_some_iff.mp atJ).1
      dsimp only
      split
      · rw [swaps_swap, noted]
        exact congrArg (r.swaps + ·) (if_pos ⟨boundI, boundJ⟩)
      · exact noted

theorem exchangeCount_le (r : Recorder) (asked : Int64 → Int64 → Bool) (i j : Nat) :
    r.exchangeCount asked i j ≤ 1 := by
  unfold exchangeCount
  repeat' split
  all_goals omega

theorem exchangeCount_never (r : Recorder) {asked : Int64 → Int64 → Bool} (i j : Nat)
    (never : ∀ x y, asked x y = false) : r.exchangeCount asked i j = 0 := by
  unfold exchangeCount
  split
  · rw [never]
    rfl
  · rfl

theorem exchangeCount_outside (r : Recorder) (asked : Int64 → Int64 → Bool) (i : Nat) {j : Nat}
    (outside : r.size ≤ j) : r.exchangeCount asked i j = 0 := by
  have missing : r.value? j = none := List.getElem?_eq_none outside
  rw [exchangeCount, missing]
  split <;> first | rfl | cases ‹none = some _›

theorem exchangeCount_always (r : Recorder) {asked : Int64 → Int64 → Bool} {i j : Nat}
    (always : ∀ x y, asked x y = true) (boundI : i < r.size) (boundJ : j < r.size) :
    r.exchangeCount asked i j = 1 := by
  have atI : r.value? i = some r.array[i] := List.getElem?_eq_getElem boundI
  have atJ : r.value? j = some r.array[j] := List.getElem?_eq_getElem boundJ
  rw [exchangeCount, atI, atJ]
  exact if_pos (always _ _)

end Recorder

namespace Synthesis

open Script

def Pattern.swapsWithin (length : Nat) : Pattern → Bool
  | swap i j => i < length && j < length
  | _ => false

namespace Watch

/-- The exchanges of a statement that stands alone, where it may be one by itself; `inside` is how many
are inside it. -/
def exchangesAlone (w : Watch) (s : Stmt) (inside : Nat) : Nat :=
  (if w.startsWithSwap [s] then 1 else 0) + inside

mutual

/-- How many exchanges are written in a list of statements: each position where one starts counts, in
the list itself and inside its statements. -/
def exchanges (w : Watch) : List Stmt → Nat
  | [] => 0
  | s :: rest =>
    (if w.startsWithSwap (s :: rest) then 1 else 0) + (w.exchangesInside s + w.exchanges rest)

/-- How many exchanges are written inside a statement: in a block, in the branches of a condition and in
the body of a loop, but not in a function. -/
def exchangesInside (w : Watch) : Stmt → Nat
  | .ifElse _ consequent none _ => w.exchangesAlone consequent (w.exchangesInside consequent)
  | .ifElse _ consequent (some alternate) _ =>
    w.exchangesAlone consequent (w.exchangesInside consequent) +
      w.exchangesAlone alternate (w.exchangesInside alternate)
  | .block body _ => w.exchanges body
  | .loop (.forLoop _ _ _ body _) _ | .loop (.forEach _ _ _ _ body _) _
  | .loop (.whileLoop _ body _) _ | .loop (.doWhile body _ _) _ =>
    w.exchangesAlone body (w.exchangesInside body)
  | _ => 0

end

/-- How many statements of a list are by themselves swaps of positions within the array. -/
def directSwaps (w : Watch) (length : Nat) (stmts : List Stmt) : Nat :=
  stmts.countP fun s => (w.stmtPattern s).swapsWithin length

variable {w : Watch} {s : Stmt} {rest stmts : List Stmt} {length : Nat}

theorem startsWithSwap_of_swapsWithin (direct : (w.stmtPattern s).swapsWithin length = true) :
    w.startsWithSwap (s :: rest) = true := by
  cases s with
  | expr e span =>
    cases swap : w.pattern e with
    | swap i j =>
      have exchange := exchangesElements_of_swap swap
      simp only [startsWithSwap, exchange, Bool.true_or]
    | _ =>
      rw [stmtPattern, swap] at direct
      cases direct
  | _ => cases direct

theorem directSwaps_cons : w.directSwaps length (s :: rest) =
    (if (w.stmtPattern s).swapsWithin length then 1 else 0) + w.directSwaps length rest := by
  rw [directSwaps, List.countP_cons, Nat.add_comm]
  rfl

theorem directSwaps_le : w.directSwaps length stmts ≤ w.exchanges stmts := by
  induction stmts with
  | nil => exact Nat.le_refl _
  | cons s rest ih =>
    rw [directSwaps_cons, exchanges]
    split
    · rw [if_pos (startsWithSwap_of_swapsWithin ‹_›)]
      omega
    · omega

theorem exchanges_pos_of_holdsSwap (held : w.holdsSwap stmts = true) : 0 < w.exchanges stmts := by
  induction stmts with
  | nil => cases held
  | cons s rest ih =>
    rw [holdsSwap, Bool.or_eq_true] at held
    rw [exchanges]
    rcases held with here | later
    · rw [if_pos here]
      omega
    · have more := ih later
      omega

theorem exchanges_statements : w.exchanges s.statements = w.exchangesAlone s (w.exchangesInside s) := by
  cases s with
  | block body span =>
    have plain : w.startsWithSwap [.block body span] = false := rfl
    rw [exchangesAlone, plain, exchangesInside]
    exact (Nat.zero_add _).symm
  | _ => simp only [Stmt.statements, exchanges, exchangesAlone, Nat.add_zero]

theorem exchangesAlone_pos {g : Guard} (found : w.aloneGuard? s (w.guardInside? s) = some g)
    (inside : w.guardInside? s = some g → 0 < w.exchangesInside s) :
    0 < w.exchangesAlone s (w.exchangesInside s) := by
  unfold aloneGuard? at found
  unfold exchangesAlone
  split at found
  · rw [if_pos ‹_›]
    omega
  · have more := inside found
    omega

theorem guardInside?_ifElse_some {test : Expr} {consequent : Stmt} {alternate : Option Stmt}
    {span : Span} {g : Guard}
    (found : w.guardInside? (.ifElse test consequent alternate span) = some g) :
    (w.holdsSwap consequent.statements = true ∨
        w.aloneGuard? consequent (w.guardInside? consequent) = some g) ∨
      ∃ branch, alternate = some branch ∧ w.aloneGuard? branch (w.guardInside? branch) = some g := by
  rw [guardInside?_ifElse] at found
  split at found
  · exact .inl (.inl ‹_›)
  · obtain first | ⟨-, second⟩ := Option.or_eq_some_iff.mp found
    · exact .inl (.inr first)
    · exact .inr (Option.bind_eq_some_iff.mp second)

theorem consequent_pos {consequent : Stmt} {g : Guard}
    (found : w.holdsSwap consequent.statements = true ∨
      w.aloneGuard? consequent (w.guardInside? consequent) = some g)
    (inside : w.guardInside? consequent = some g → 0 < w.exchangesInside consequent) :
    0 < w.exchangesAlone consequent (w.exchangesInside consequent) := by
  obtain held | first := found
  · rw [← exchanges_statements]
    exact exchanges_pos_of_holdsSwap held
  · exact exchangesAlone_pos first inside

mutual

theorem exchanges_pos {g : Guard} (body : List Stmt) (found : w.firstGuard? body = some g) :
    0 < w.exchanges body := by
  match body with
  | [] => simp [firstGuard?] at found
  | s :: rest =>
    rw [firstGuard?] at found
    rw [exchanges]
    split at found
    · rw [if_pos ‹_›]
      omega
    · obtain inside | ⟨-, behind⟩ := Option.or_eq_some_iff.mp found
      · have more := exchangesInside_pos s inside
        omega
      · have more := exchanges_pos rest behind
        omega

theorem exchangesInside_pos {g : Guard} (s : Stmt) (found : w.guardInside? s = some g) :
    0 < w.exchangesInside s := by
  match s with
  | .block inner span =>
    rw [guardInside?] at found
    rw [exchangesInside]
    exact exchanges_pos inner found
  | .loop (.forLoop init test update body span') span =>
    rw [guardInside?] at found
    rw [exchangesInside]
    exact exchangesAlone_pos found (exchangesInside_pos body)
  | .loop (.forEach decl binding iterable values body span') span =>
    rw [guardInside?] at found
    rw [exchangesInside]
    exact exchangesAlone_pos found (exchangesInside_pos body)
  | .loop (.whileLoop test body span') span =>
    rw [guardInside?] at found
    rw [exchangesInside]
    exact exchangesAlone_pos found (exchangesInside_pos body)
  | .loop (.doWhile body test span') span =>
    rw [guardInside?] at found
    rw [exchangesInside]
    exact exchangesAlone_pos found (exchangesInside_pos body)
  | .ifElse test branch none span =>
    rw [exchangesInside]
    obtain first | ⟨_, missing, -⟩ := guardInside?_ifElse_some found
    · exact consequent_pos first (exchangesInside_pos branch)
    · cases missing
  | .ifElse test branch (some other) span =>
    rw [exchangesInside]
    obtain first | ⟨_, same, second⟩ := guardInside?_ifElse_some found
    · exact Nat.add_pos_left (consequent_pos first (exchangesInside_pos branch)) _
    · cases same
      exact Nat.add_pos_right _ (exchangesAlone_pos second (exchangesInside_pos other))
  | .varDecl .. | .func .. | .ret .. | .brk _ | .cont _ | .empty _ | .expr .. =>
    simp [guardInside?] at found

end

/-- If all exchanges are swaps of known positions that are statements themselves, the first of them is
found before any condition. -/
theorem firstGuard?_always (present : 0 < w.exchanges stmts)
    (all : w.directSwaps length stmts = w.exchanges stmts) : w.firstGuard? stmts = some .always := by
  induction stmts with
  | nil => cases present
  | cons s rest ih =>
    rw [firstGuard?]
    split
    · rfl
    · rename_i other
      have indirect : ¬ (w.stmtPattern s).swapsWithin length = true :=
        fun direct => other (startsWithSwap_of_swapsWithin direct)
      have least : w.directSwaps length rest ≤ w.exchanges rest := directSwaps_le
      rw [directSwaps_cons, exchanges, if_neg indirect, if_neg other] at all
      rw [exchanges, if_neg other] at present
      have nothing : w.guardInside? s = none := Option.eq_none_iff_forall_ne_some.mpr fun g inside => by
        have more := exchangesInside_pos s inside
        omega
      rw [nothing, Option.none_or]
      exact ih (by omega) (by omega)

end Watch

namespace DryRun

variable (s : DryRun)

theorem performAll_changes (pattern : Pattern) : (s.performAll pattern.changes).recorder.swaps =
    s.recorder.swaps + if pattern.swapsWithin s.recorder.size then 1 else 0 := by
  cases pattern with
  | swap i j =>
    have step : (s.performAll (Pattern.swap i j).changes).recorder = (s.recorder.swap i j).1 := by
      simp [performAll, perform, Pattern.changes]
    rw [step, Recorder.swaps_swap]
    simp only [Pattern.swapsWithin, Bool.and_eq_true, decide_eq_true_eq]
  | set i value =>
    have step : (s.performAll (Pattern.set i value).changes).recorder =
        (s.recorder.set i value).1 := by
      simp [performAll, perform, Pattern.changes]
    rw [step, Recorder.swaps_set]
    rfl
  | _ => rfl

theorem performAll_append (first second : List Action) :
    s.performAll (first ++ second) = (s.performAll first).performAll second :=
  List.foldl_append ..

theorem performAll_swaps (w : Watch) (stmts : List Stmt) :
    (s.performAll (w.bodyActions stmts)).recorder.swaps =
      s.recorder.swaps + w.directSwaps s.recorder.size stmts := by
  induction stmts generalizing s with
  | nil => rfl
  | cons st rest ih =>
    rw [Watch.directSwaps_cons]
    cases st with
    | expr e span =>
      have shape : w.bodyActions (.expr e span :: rest) =
          (w.notices e).map .tell ++ ((w.pattern e).changes ++ w.bodyActions rest) := by
        rw [← List.append_assoc]
        rfl
      have told : (s.performAll ((w.notices e).map .tell)).recorder = s.recorder :=
        s.performAll_tells fun a member => by
          obtain ⟨n, -, rfl⟩ := List.mem_map.mp member
          exact ⟨n, rfl⟩
      rw [shape, performAll_append, performAll_append, ih, performAll_changes, performAll_size,
        performAll_size, told, Nat.add_assoc]
      rfl
    | _ =>
      refine (ih s).trans (congrArg (s.recorder.swaps + ·) ?_)
      exact (Nat.zero_add _).symm

def pairSwaps (guard : Guard) (j : Int64) : Nat :=
  if 0 ≤ j.toInt then s.recorder.exchangeCount guard.asks j.toInt.toNat (j.toInt.toNat + 1) else 0

theorem visitPair_swaps (guard : Guard) (j : Int64) :
    (s.visitPair guard j).recorder.swaps = s.recorder.swaps + s.pairSwaps guard j := by
  unfold pairSwaps
  split
  · rw [visitPair_natural s guard ‹_›, Recorder.swaps_exchangeIf]
  · rw [visitPair_negative s guard (by omega)]
    rfl

theorem visit_swaps (loops : NestedLoops) (w : Watch) (stmts : List Stmt) (i j : Int64) :
    (s.visit loops (w.bodyActions stmts) i j).recorder.swaps =
      s.recorder.swaps + (s.pairSwaps loops.guard j + w.directSwaps s.recorder.size stmts) := by
  rw [visit, performAll_swaps, visitPair_swaps, visitPair_size, Nat.add_assoc]
  rfl

theorem pairSwaps_le (guard : Guard) (j : Int64) : s.pairSwaps guard j ≤ 1 := by
  unfold pairSwaps
  split
  · exact s.recorder.exchangeCount_le ..
  · omega

theorem pairSwaps_outside (guard : Guard) {j : Int64}
    (outside : ¬ (0 ≤ j.toInt ∧ j.toInt + 1 < s.recorder.size)) : s.pairSwaps guard j = 0 := by
  unfold pairSwaps
  split
  · exact s.recorder.exchangeCount_outside _ _ (by omega)
  · rfl

theorem pairSwaps_absent (j : Int64) : s.pairSwaps .absent j = 0 := by
  unfold pairSwaps
  split
  · exact s.recorder.exchangeCount_never _ _ fun _ _ => rfl
  · rfl

theorem pairSwaps_always {j : Int64} (inside : 0 ≤ j.toInt ∧ j.toInt + 1 < s.recorder.size) :
    s.pairSwaps .always j = 1 := by
  rw [pairSwaps, if_pos inside.1]
  exact s.recorder.exchangeCount_always (fun _ _ => rfl) (by omega) (by omega)

end DryRun

theorem Watch.guardOf_absent {w : Watch} {stmts : List Stmt} (none : w.exchanges stmts = 0) :
    w.guardOf stmts = .absent := by
  have nothing : w.firstGuard? stmts = Option.none :=
    Option.eq_none_iff_forall_ne_some.mpr fun g found => by
      have more := Watch.exchanges_pos stmts found
      omega
  rw [guardOf, nothing, Option.getD_none]

theorem Watch.guardOf_always {w : Watch} {stmts : List Stmt} {length : Nat}
    (present : 0 < w.exchanges stmts) (all : w.directSwaps length stmts = w.exchanges stmts) :
    w.guardOf stmts = .always := by
  rw [guardOf, Watch.firstGuard?_always present all, Option.getD_some]

theorem LoopPlan.ofProgram_guard {p : Program} {w : Watch} {length : Nat} {loops : NestedLoops}
    (planned : LoopPlan.ofProgram p w length = .nested loops) :
    loops.guard = w.guardOf loops.innerLoop.body.statements := by
  unfold ofProgram at planned
  dsimp only at planned
  split at planned
  · cases planned
  · split at planned
    · cases planned
    · cases planned
      rfl

namespace DryRun

variable {p : Program} {w : Watch} {length : Nat} {loops : NestedLoops}

theorem replays_le_iff (planned : LoopPlan.ofProgram p w length = .nested loops) (s : DryRun)
    (j : Int64) :
    let body := loops.innerLoop.body.statements
    s.pairSwaps loops.guard j + w.directSwaps s.recorder.size body ≤ w.exchanges body ↔
      ¬ (0 < w.exchanges body ∧ w.directSwaps s.recorder.size body = w.exchanges body ∧
        0 ≤ j.toInt ∧ j.toInt + 1 < s.recorder.size) := by
  intro body
  have direct : w.directSwaps s.recorder.size body ≤ w.exchanges body := Watch.directSwaps_le
  have pair := s.pairSwaps_le loops.guard j
  have guard : loops.guard = w.guardOf body := LoopPlan.ofProgram_guard planned
  constructor
  · rintro few ⟨present, all, inside⟩
    rw [guard, Watch.guardOf_always present all, s.pairSwaps_always inside] at few
    omega
  · intro other
    rcases Nat.eq_zero_or_pos (w.exchanges body) with none | present
    · rw [guard, Watch.guardOf_absent none, s.pairSwaps_absent]
      omega
    · by_cases all : w.directSwaps s.recorder.size body = w.exchanges body
      · rw [s.pairSwaps_outside loops.guard fun inside => other ⟨present, all, inside⟩]
        omega
      · omega

theorem announce_swaps (s : DryRun) (config : Config) (label : String) (range : LoopRange) :
    (s.announce config label range).recorder.swaps = s.recorder.swaps := by
  obtain ⟨said, comments, events, -⟩ := s.announce_said config label range
  have none : said.countP (·.kind = .swap) = 0 := List.countP_eq_zero.mpr fun e member => by
    simp [comments e member]
  rw [Recorder.swaps, events, List.countP_append, none]
  rfl

/-- A pass over a body with an exchange that is no statement of known positions replays at most as many
swaps in each iteration as exchanges are written. -/
theorem runInner_swaps_le (planned : LoopPlan.ofProgram p w length = .nested loops) {config : Config}
    {s t : DryRun} {i stop : Int64} :
    let body := loops.innerLoop.body.statements
    w.directSwaps s.recorder.size body < w.exchanges body →
    s.runInner config loops (w.bodyActions body) i stop = .ok t →
    t.recorder.swaps ≤
      s.recorder.swaps + rangeCount loops.inner.start stop * w.exchanges body := by
  intro body indirect ran
  rw [runInner_eq] at ran
  let Within (j : Int) (u : DryRun) : Prop := u.recorder.size = s.recorder.size ∧
    u.recorder.swaps ≤ s.recorder.swaps + (j - loops.inner.start.toInt).toNat * w.exchanges body
  have done : Within (max loops.inner.start.toInt stop.toInt) t := by
    refine iterate_range Within ⟨announce_size .., ?_⟩ (fun j u v low _ within once => ?_) ran
    · rw [announce_swaps]
      exact Nat.le_add_right ..
    · obtain ⟨counted, room, rest⟩ := ok_of_bind once
      cases rest
      obtain ⟨size, few⟩ := within
      have same := countStep_recorder room
      rw [← same] at size few
      refine ⟨(counted.visit_size ..).trans size, ?_⟩
      have more : counted.pairSwaps loops.guard j + w.directSwaps counted.recorder.size body ≤
          w.exchanges body := (replays_le_iff planned counted j).mpr <| by
        rintro ⟨-, all, -⟩
        rw [size] at all
        exact absurd all (Nat.ne_of_lt indirect)
      have next : (j.toInt + 1 - loops.inner.start.toInt).toNat =
          (j.toInt - loops.inner.start.toInt).toNat + 1 := by omega
      rw [visit_swaps, next, Nat.succ_mul]
      omega
  rw [rangeCount, ← show (max loops.inner.start.toInt stop.toInt - loops.inner.start.toInt).toNat =
    (stop.toInt - loops.inner.start.toInt).toNat by omega]
  exact done.2

/-- An iteration replays no more swaps than exchanges are written in the body, unless each of these is
a statement of the body that swaps two known positions, and the iteration points at a pair: then the
pair is exchanged besides. -/
theorem visit_swaps_le_iff (planned : LoopPlan.ofProgram p w length = .nested loops) (s : DryRun)
    (i j : Int64) :
    let body := loops.innerLoop.body.statements
    (s.visit loops (w.bodyActions body) i j).recorder.swaps ≤ s.recorder.swaps + w.exchanges body ↔
      ¬ (0 < w.exchanges body ∧ w.directSwaps s.recorder.size body = w.exchanges body ∧
        0 ≤ j.toInt ∧ j.toInt + 1 < s.recorder.size) := by
  intro body
  rw [visit_swaps, Nat.add_le_add_iff_left]
  exact replays_le_iff planned s j

end DryRun

def knownSwapText : String :=
  "let arr=[2,1];for(let i=0;i<1;i++)for(let j=0;j<1;j++)[arr[0],arr[1]]=[arr[1],arr[0]];"

def LoopPlan.nested? : LoopPlan → Option NestedLoops
  | nested loops => some loops
  | _ => .none

theorem LoopPlan.eq_of_nested? {plan : LoopPlan} {loops : NestedLoops}
    (found : plan.nested? = some loops) : plan = .nested loops := by
  cases plan <;> cases found
  rfl

theorem visit_swaps_le_outside : ∃ p loops, Program.ofText knownSwapText = .ok p ∧
    LoopPlan.ofProgram p ⟨"arr", .placeholder⟩ 2 = .nested loops ∧
    let w : Watch := ⟨"arr", .placeholder⟩
    let body := loops.innerLoop.body.statements
    let s : DryRun := { recorder := .start [2, 1] }
    w.exchanges body = 1 ∧
      (s.visit loops (w.bodyActions body) 0 1).recorder.swaps ≤ s.recorder.swaps + 1 := by
  have seen : ((Program.ofText knownSwapText).toOption.bind fun p =>
      (LoopPlan.ofProgram p ⟨"arr", .placeholder⟩ 2).nested?.map fun loops =>
        Watch.exchanges ⟨"arr", .placeholder⟩ loops.innerLoop.body.statements) = some 1 := by
    decide +kernel
  obtain ⟨p, found, seen⟩ := Option.bind_eq_some_iff.mp seen
  obtain ⟨loops, nested, written⟩ := Option.map_eq_some_iff.mp seen
  have planned := LoopPlan.eq_of_nested? nested
  refine ⟨p, loops, ok_of_toOption found, planned, written, ?_⟩
  have replayed := (DryRun.visit_swaps_le_iff planned { recorder := .start [2, 1] } 0 1).mpr <| by
    rintro ⟨-, -, -, inside⟩
    exact absurd inside (by decide)
  rw [written] at replayed
  exact replayed

/-- The only iteration of this text replays its only exchange twice. -/
theorem synthesize_knownSwap : ∃ p loops t, Program.ofText knownSwapText = .ok p ∧
    TrackedArray.ofProgram p = .ok ⟨"arr", [2, 1]⟩ ∧
    LoopPlan.ofProgram p ⟨"arr", .placeholder⟩ 2 = .nested loops ∧
    (let w : Watch := ⟨"arr", .placeholder⟩
      let body := loops.innerLoop.body.statements
      let s : DryRun := { recorder := .start [2, 1] }
      w.exchanges body = 1 ∧
        ¬ (s.visit loops (w.bodyActions body) 0 0).recorder.swaps ≤
          s.recorder.swaps + w.exchanges body) ∧
    (synthesize {} knownSwapText).result = .ok t ∧
    t.events = [.init [2, 1], .compare 0 1 2 1, .swap 0 1 2 1, .swap 0 1 1 2, .complete] := by
  have seen : ((Program.ofText knownSwapText).toOption.bind fun p =>
      (TrackedArray.ofProgram p).toOption.bind fun a =>
        (traceOf {} p a).result.toOption.bind fun t =>
          (LoopPlan.ofProgram p ⟨"arr", .placeholder⟩ 2).nested?.map fun loops =>
            let w : Watch := ⟨"arr", .placeholder⟩
            let body := loops.innerLoop.body.statements
            let s : DryRun := { recorder := .start [2, 1] }
            (a, w.exchanges body, (s.visit loops (w.bodyActions body) 0 0).recorder.swaps, t.events)) =
      some (⟨"arr", [2, 1]⟩, 1, 2,
        [.init [2, 1], .compare 0 1 2 1, .swap 0 1 2 1, .swap 0 1 1 2, .complete]) := by decide +kernel
  obtain ⟨p, found, seen⟩ := Option.bind_eq_some_iff.mp seen
  obtain ⟨a, named, seen⟩ := Option.bind_eq_some_iff.mp seen
  obtain ⟨t, traced, seen⟩ := Option.bind_eq_some_iff.mp seen
  obtain ⟨loops, nested, seen⟩ := Option.map_eq_some_iff.mp seen
  simp only [Prod.mk.injEq] at seen
  obtain ⟨rfl, written, replayed, events⟩ := seen
  have read := ok_of_toOption found
  have tracked := ok_of_toOption named
  have result := ok_of_toOption traced
  refine ⟨p, loops, t, read, tracked, LoopPlan.eq_of_nested? nested, ⟨written, ?_⟩, ?_, events⟩
  · dsimp only
    rw [written, replayed]
    decide
  · simp only [synthesize, read, tracked, result]

end Synthesis

end SortTrace
