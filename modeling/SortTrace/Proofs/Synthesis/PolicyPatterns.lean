import SortTrace.Proofs.Synthesis.Lockstep

/-!
What the index policy decides: whether a comparison whose positions are not both known is a pattern.
Swaps, sets, guards and plans are the same under both policies, so that a script with a loop is run alike.
-/

namespace SortTrace.Synthesis

open Script

namespace Watch

variable (name : String) (p q : IndexPolicy)

theorem startsWithSwap_policy (ss : List Stmt) :
    (⟨name, q⟩ : Watch).startsWithSwap ss = (⟨name, p⟩ : Watch).startsWithSwap ss := rfl

theorem holdsSwap_policy (ss : List Stmt) :
    (⟨name, q⟩ : Watch).holdsSwap ss = (⟨name, p⟩ : Watch).holdsSwap ss := by
  induction ss with
  | nil => rfl
  | cons s rest ih => rw [holdsSwap, holdsSwap, ih, startsWithSwap_policy name p q]

mutual

theorem firstGuard?_policy : ∀ ss : List Stmt,
    (⟨name, q⟩ : Watch).firstGuard? ss = (⟨name, p⟩ : Watch).firstGuard? ss
  | [] => rfl
  | s :: rest => by
    rw [firstGuard?, firstGuard?, startsWithSwap_policy name p q, guardInside?_policy s,
      firstGuard?_policy rest]

theorem guardInside?_policy : ∀ s : Stmt,
    (⟨name, q⟩ : Watch).guardInside? s = (⟨name, p⟩ : Watch).guardInside? s
  | .ifElse test consequent none _ => by
    simp only [guardInside?, guardInside?_policy consequent, holdsSwap_policy name p q]
    -- What is left does not read the policy.
    rfl
  | .ifElse test consequent (some a) _ => by
    simp only [guardInside?, guardInside?_policy consequent, guardInside?_policy a,
      holdsSwap_policy name p q]
    rfl
  | .block body _ => by simp only [guardInside?, firstGuard?_policy body]
  | .loop (.forLoop _ _ _ body _) _ | .loop (.forEach _ _ _ _ body _) _
  | .loop (.whileLoop _ body _) _ | .loop (.doWhile body _ _) _ => by
    simp only [guardInside?, guardInside?_policy body]
    rfl
  | .varDecl .. | .func .. | .ret .. | .brk _ | .cont _ | .empty _ | .expr .. => rfl

end

theorem guardOf_policy (body : List Stmt) :
    (⟨name, q⟩ : Watch).guardOf body = (⟨name, p⟩ : Watch).guardOf body := by
  rw [guardOf, guardOf, firstGuard?_policy name p q]

end Watch

theorem LoopPlan.ofProgram_policy (x : Program) (name : String) (p q : IndexPolicy) (length : Nat) :
    LoopPlan.ofProgram x ⟨name, q⟩ length = LoopPlan.ofProgram x ⟨name, p⟩ length := by
  simp only [ofProgram, Watch.guardOf_policy name p q]

namespace Watch

variable (name : String)

def placed : Watch := ⟨name, .placeholder⟩

def strict : Watch := ⟨name, .strict⟩

/-- A comparison is known without its positions, or it is not; nothing else depends on the policy. -/
inductive PolicyCases (e : Expr) : Prop
  | same : (strict name).pattern e = (placed name).pattern e → PolicyCases e
  | unknown {r : Relation} {i j : Nat} : (placed name).comparesElements e = true →
      (placed name).pattern e = .comparison r i j → (strict name).pattern e = .unrecognized →
      PolicyCases e

theorem comparedPosition_placed (e : Expr) (n : Nat) :
    ∃ i, (placed name).comparedPosition e n = .ok i := by
  unfold comparedPosition
  split
  · exact ⟨_, rfl⟩
  · exact ⟨_, rfl⟩
  · rename_i policy
    cases policy

theorem comparedPosition_strict (e : Expr) (n : Nat) :
    (strict name).comparedPosition e n = (placed name).comparedPosition e n ∨
      ∃ why, (strict name).comparedPosition e n = .error why := by
  have same : (strict name).position e = (placed name).position e := rfl
  unfold comparedPosition
  rw [same]
  cases (placed name).position e with
  | ok i => exact .inl rfl
  | error why => exact .inr ⟨why, rfl⟩

theorem comparisonPattern_placed {l r : Expr} {op : BinOp} {x : Relation}
    (symbol : Relation.ofSymbol? op.text = some x) :
    ∃ i j, (placed name).comparisonPattern l op r = .ok (.comparison x i j) := by
  obtain ⟨i, first⟩ := comparedPosition_placed name l 0
  obtain ⟨j, second⟩ := comparedPosition_placed name r 1
  refine ⟨i, j, ?_⟩
  simp only [comparisonPattern, symbol, first, second]
  rfl

theorem comparisonPattern_strict (l r : Expr) (op : BinOp) :
    (strict name).comparisonPattern l op r = (placed name).comparisonPattern l op r ∨
      ∃ why, (strict name).comparisonPattern l op r = .error why := by
  cases symbol : Relation.ofSymbol? op.text with
  | none => exact .inl (by simp only [comparisonPattern, symbol])
  | some x =>
    obtain ⟨i, known⟩ := comparedPosition_placed name l 0
    rcases comparedPosition_strict name l 0 with first | ⟨why, failed⟩
    · rcases comparedPosition_strict name r 1 with second | ⟨why, failed⟩
      · exact .inl (by simp only [comparisonPattern, symbol, first, second])
      · refine .inr ⟨why, ?_⟩
        simp only [comparisonPattern, symbol, first, known, failed]
        rfl
    · refine .inr ⟨why, ?_⟩
      simp only [comparisonPattern, symbol, failed]
      rfl

theorem pattern_policy (e : Expr) : PolicyCases name e := by
  cases e with
  | binary l op r s =>
    cases compares : (placed name).comparesElements (.binary l op r s) with
    | false =>
      have other : (strict name).comparesElements (.binary l op r s) = false := compares
      refine .same ?_
      rw [pattern, pattern, recognize, recognize, compares, other]
      rfl
    | true =>
      have compares' : (strict name).comparesElements (.binary l op r s) = true := compares
      have found : (placed name).recognize (.binary l op r s) =
        (placed name).comparisonPattern l op r := if_pos compares
      have found' : (strict name).recognize (.binary l op r s) =
        (strict name).comparisonPattern l op r := if_pos compares'
      rcases comparisonPattern_strict name l r op with same | ⟨why, failed⟩
      · refine .same ?_
        rw [pattern, pattern, found, found', same]
      · cases symbol : Relation.ofSymbol? op.text with
        | none =>
          have neither (w : Watch) : w.comparisonPattern l op r = .error .noShape := by
            simp only [comparisonPattern, symbol]
          refine .same ?_
          rw [pattern, pattern, found, found', neither, neither]
        | some x =>
          obtain ⟨i, j, known⟩ := @comparisonPattern_placed name l r op x symbol
          refine .unknown compares (r := x) (i := i) (j := j) ?_ ?_
          · rw [pattern, found, known]
          · rw [pattern, found', failed]
  | _ => exact .same rfl

theorem changes_policy (e : Expr) :
    ((strict name).pattern e).changes = ((placed name).pattern e).changes := by
  rcases pattern_policy name e with same | ⟨-, known, unknown⟩
  · rw [same]
  · rw [known, unknown]
    rfl

theorem overwrites_policy (e : Expr) :
    ((strict name).pattern e).overwrites = ((placed name).pattern e).overwrites := by
  rcases pattern_policy name e with same | ⟨-, known, unknown⟩
  · rw [same]
  · rw [known, unknown]
    rfl

theorem isSet_policy (e : Expr) :
    ((strict name).pattern e).isSet = ((placed name).pattern e).isSet := by
  rcases pattern_policy name e with same | ⟨-, known, unknown⟩
  · rw [same]
  · rw [known, unknown]
    rfl

theorem sameRequests_policy (stmts : List Stmt) :
    SameRequests (fun _ => True) ((placed name).bodyActions stmts)
      ((strict name).bodyActions stmts) := by
  refine ⟨?_, fun _ _ => trivial⟩
  rw [bodyActions, bodyActions, requests_flatMap, requests_flatMap]
  refine congrArg (stmts.flatMap ·) (funext fun s => ?_)
  cases s with
  | expr e _ =>
    simp only [requests_append, requests_tells, changes_policy name e]
  | _ => rfl

theorem overwritten_policy (nodes : List Node) :
    (strict name).overwritten nodes = (placed name).overwritten nodes :=
  congrArg ((nodes.filterMap Node.expr?).flatMap ·) (funext (overwrites_policy name))

theorem stopsAtSets_policy : (strict name).stopsAtSets = (placed name).stopsAtSets := by
  funext n
  cases n with
  | expr e => exact isSet_policy name e
  | _ => rfl

theorem sameAround_policy (o : Outline) :
    SameAround (fun _ => True) ((placed name).surroundings o) ((strict name).surroundings o) := by
  refine ⟨⟨?_, fun _ _ => trivial⟩, ⟨?_, fun _ _ => trivial⟩⟩
  · rw [surroundings_before, surroundings_before, stopsAtSets_policy, overwritten_policy]
  · rw [surroundings_after, surroundings_after, stopsAtSets_policy, overwritten_policy]

end Watch

theorem simulation_eq {config config' : Config} (limit : config'.maxSteps = config.maxSteps)
    (comments : config'.loopComments = config.loopComments) :
    Simulation config config' (fun _ => True) Eq where
  limit := limit
  array := fun same => same ▸ rfl
  handle := fun _ same => same ▸ rfl
  announced := fun label range same => by
    rw [same, DryRun.announced, DryRun.announced, DryRun.announce, DryRun.announce, comments]
  loops := fun _ _ => ⟨trivial, trivial, trivial⟩

theorem plan_looped {p : Program} {w : Watch} {length : Nat} (looped : p.outline.loops ≠ []) :
    LoopPlan.ofProgram p w length ≠ .none := by
  obtain ⟨l, others, shape⟩ := List.exists_cons_of_ne_nil looped
  exact (LoopPlan.ofProgram_looped shape).1

theorem dryRun_policies (config : Config) {p : Program} {a : TrackedArray}
    (looped : p.outline.loops ≠ []) :
    Alike (DryRun.InStep Eq) (dryRun { config with indexPolicy := .placeholder } p a)
      (dryRun { config with indexPolicy := .strict } p a) := by
  have plan := LoopPlan.ofProgram_policy p a.name .placeholder .strict a.values.length
  unfold dryRun
  dsimp only
  rw [plan]
  exact DryRun.InStep.run (simulation_eq rfl rfl) ⟨rfl, rfl⟩ (Watch.sameAround_policy a.name)
    (Watch.sameRequests_policy a.name) fun none => absurd none (plan_looped looped)

end SortTrace.Synthesis
