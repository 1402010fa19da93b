import SortTrace.Proofs.Synthesis.Addressing
import SortTrace.Proofs.Synthesis.WordPlan

/-!
Dry runs on the watched machine. Ranges are walked word by word, positions come from words, and every
iteration is counted in a word.
-/

namespace SortTrace.Synthesis

open Script Outline

namespace Machine

def perform (s : DryRun) : Action → Except Breach DryRun
  | .tell n => return s.tell n
  | .compare i j => do
    let i ← unsigned i
    let j ← unsigned j
    let s := s.tellOutside [i, j]
    let looked ← compare s.recorder i j
    return { s with recorder := looked.1 }
  | .swap i j => do
    let i ← unsigned i
    let j ← unsigned j
    let s := s.tellOutside [i, j]
    let r ← swap s.recorder i j
    return { s with recorder := r }
  | .set i value => do
    let i ← unsigned i
    let s := s.tellOutside [i]
    let r ← set s.recorder i value
    return { s with recorder := r }

def performAll (s : DryRun) : List Action → Except Breach DryRun
  | [] => return s
  | a :: rest => do performAll (← perform s a) rest

def visitPair (s : DryRun) (guard : Guard) (j : Int64) : Except Breach DryRun :=
  match (unsigned j.toInt).toOption with
  | some i => do
    let next ← unsigned (i + 1)
    let s := s.tellOutside [i, next]
    let r ← exchangeIf s.recorder guard.asks i next
    return { s with recorder := r }
  | none => return s.tell (.skippedIndex j)

abbrev Limited (α : Type) := ExceptT DryRun (Except Breach) α

def countStep (s : DryRun) (limit : Nat) : Limited DryRun := do
  let steps ← unsigned (s.steps + 1)
  let s := { s with steps := steps }
  if limit < s.steps then throw s else return s

def walk (body : Int64 → DryRun → Limited DryRun) (stop i : Int64) (s : DryRun) : Limited DryRun :=
  if i < stop then
    match _next : signed (i.toInt + 1) with
    | .ok k => body i s >>= walk body stop k
    | .error b => throwThe Breach b
  else return s
termination_by (stop.toInt - i.toInt).toNat
decreasing_by
  have below := Int64.lt_iff_toInt_lt.mp ‹i < stop›
  have further := toInt_of_signed _next
  omega

def runSingle (s : DryRun) (config : Config) (range : LoopRange) (body : List Action) :
    Limited DryRun :=
  let step (i : Int64) (s : DryRun) : Limited DryRun := do
    let s ← countStep s config.maxSteps
    performAll (s.tell (.singleIteration i)) body
  walk step range.stop range.start (s.announce config "single" range)

def runInner (s : DryRun) (config : Config) (loops : NestedLoops) (body : List Action)
    (i stop : Int64) : Limited DryRun :=
  let step (j : Int64) (s : DryRun) : Limited DryRun := do
    let s ← countStep s config.maxSteps
    let s ← visitPair (s.tell (.nestedIteration i j)) loops.guard j
    performAll s body
  walk step stop loops.inner.start (s.announce config "inner" { loops.inner with stop := stop })

def innerStop? (s : InnerStop) (length outer : Int64) : Option Int64 := do
  let last ← (signed (length.toInt - 1)).toOption
  match s with
  | .fixed => return last
  | .shrinks => (signed (last.toInt - outer.toInt)).toOption

def finishPass (s : DryRun) (loops : NestedLoops) (stop : Int64) : DryRun :=
  if loops.innerStop = .shrinks && loops.guard.isConditional then
    match (unsigned stop.toInt).toOption with
    | some i => s.markSorted i
    | none => s
  else s

def runMiddle (s : DryRun) (config : Config) (loops : NestedLoops) (body : List Action)
    (i : Int64) : Limited DryRun := do
  let length ← signed s.recorder.size
  match innerStop? loops.innerStop length i with
  | some stop =>
    let s ← runInner s config loops body i stop
    return finishPass s loops stop
  | none => return s.tell (.skippedInnerLoop i)

def runPass (s : DryRun) (config : Config) (loops : NestedLoops) (around : Surroundings)
    (body : List Action) (i : Int64) : Limited DryRun := do
  let s ← countStep s config.maxSteps
  let s ← performAll s around.before
  let s ← runMiddle s config loops body i
  performAll s around.after

def runNested (s : DryRun) (config : Config) (loops : NestedLoops) (around : Surroundings)
    (body : List Action) : Limited DryRun :=
  walk (fun i s => runPass s config loops around body i) loops.outer.stop loops.outer.start
    ((s.tellAll around.notices).announce config "outer" loops.outer)

def run (s : DryRun) (config : Config) (w : Watch) (p : Program) : LoopPlan → Limited DryRun
  | .none => performAll s (w.allActions p)
  | .single l range => do
    let sets := w.surroundings p.outline
    let s ← performAll (s.tellAll sets.notices) sets.before
    let s ← runSingle s config range (w.bodyActions l.body.statements)
    performAll s sets.after
  | .nested loops => do
    let sets := w.surroundings p.outline
    let s ← performAll (s.tellAll sets.notices) sets.before
    let s ← runNested s config loops (w.surroundings loops.outerLoop.body.outline)
      (w.bodyActions loops.innerLoop.body.statements)
    performAll s sets.after

theorem performAll_eq (s : DryRun) {actions : List Action}
    (fits : ∀ q ∈ requests actions, q.Addressable) :
    performAll s actions = .ok (s.performAll actions) := by
  induction actions generalizing s with
  | nil => rfl
  | cons a rest ih =>
    have split : requests (a :: rest) = a.request?.toList ++ requests rest :=
      requests_append [a] rest |>.trans (by cases asked : a.request? <;> simp [requests, asked])
    rw [split] at fits
    obtain ⟨here, others⟩ := List.forall_mem_append.mp fits
    have first : perform s a = .ok (s.perform a) := by
      cases a with
      | tell n => rfl
      | compare i j =>
        have positions : Request.Addressable (.compare i j) := here _ (List.mem_singleton_self _)
        have left := positions i (by simp [Request.positions])
        have right := positions j (by simp [Request.positions])
        simp only [perform, unsigned_natCast left, unsigned_natCast right, ok_bind, compare_eq]
        rfl
      | swap i j =>
        have positions : Request.Addressable (.swap i j) := here _ (List.mem_singleton_self _)
        have left := positions i (by simp [Request.positions])
        have right := positions j (by simp [Request.positions])
        simp only [perform, unsigned_natCast left, unsigned_natCast right, ok_bind, swap_eq]
        rfl
      | set i value =>
        have positions : Request.Addressable (.set i value) := here _ (List.mem_singleton_self _)
        have left := positions i (by simp [Request.positions])
        simp only [perform, unsigned_natCast left, ok_bind, set_eq]
        rfl
    rw [performAll, first]
    exact ih (s.perform a) others

theorem visitPair_eq (s : DryRun) (guard : Guard) (j : Int64) :
    visitPair s guard j = .ok (s.visitPair guard j) := by
  have high := j.toInt_lt
  unfold visitPair DryRun.visitPair
  rw [unsigned_toInt]
  by_cases negative : j < 0
  · rw [if_pos negative, if_pos negative]
    rfl
  · have next : unsigned ((j.toInt.toNat : Int) + 1) = .ok (j.toInt.toNat + 1) :=
      unsigned_natCast (n := j.toInt.toNat + 1) (by omega)
    rw [if_neg negative, if_neg negative]
    simp only [next, ok_bind, exchangeIf_eq]
    rfl

theorem innerStop?_eq (s : InnerStop) (length outer : Int64) :
    innerStop? s length outer = s.value? length outer := by
  unfold innerStop? InnerStop.value?
  rw [exactSub?_eq, Int64.toInt_one]
  cases (signed (length.toInt - 1)).toOption with
  | none => rfl
  | some last =>
    cases s with
    | fixed => rfl
    | shrinks => exact (exactSub?_eq last outer).symm

theorem finishPass_eq (s : DryRun) (loops : NestedLoops) (stop : Int64) :
    finishPass s loops stop = s.finishPass loops stop := by
  unfold finishPass DryRun.finishPass
  rw [unsigned_toInt, Bool.and_assoc]
  by_cases negative : stop < 0
  · have low : ¬ 0 ≤ stop := Int64.not_le.mpr negative
    simp [negative, low]
  · have high : 0 ≤ stop := Int64.not_lt.mp negative
    simp [negative, high]

/-- The run comes to no breach, is the run of the plain machine, and a state it ends in has a property. -/
structure Sound {α : Type} (R : α → Prop) (x : Limited α) (y : Except DryRun α) : Prop where
  same : x = ExceptT.mk (.ok y)
  keeps : ∀ a, y = .ok a → R a

theorem lift_ok_bind {α β : Type} (a : α) (f : α → Limited β) :
    (liftM (Except.ok a : Except Breach α) : Limited α) >>= f = f a := rfl

namespace Sound

variable {α β : Type} {R : α → Prop} {S : β → Prop}

theorem pure {a : α} (holds : R a) : Sound R (Pure.pure a) (.ok a) where
  same := rfl
  keeps := by
    rintro _ ⟨⟩
    exact holds

theorem lift {x : Except Breach α} {a : α} (fine : x = .ok a) (holds : R a) :
    Sound R (liftM x) (.ok a) where
  same := by
    rw [fine]
    rfl
  keeps := by
    rintro _ ⟨⟩
    exact holds

theorem bind {x : Limited α} {y : Except DryRun α} {f : α → Limited β} {g : α → Except DryRun β}
    (first : Sound R x y) (next : ∀ a, R a → Sound S (f a) (g a)) :
    Sound S (x >>= f) (y >>= g) := by
  obtain ⟨rfl, keeps⟩ := first
  cases y with
  | error s => exact ⟨rfl, by rintro _ ⟨⟩⟩
  | ok a => exact next a (keeps a rfl)

end Sound

structure Within (config : Config) (size : Nat) (s : DryRun) : Prop where
  steps : s.steps ≤ config.maxSteps
  size : s.recorder.size = size

section

variable {config : Config} {size : Nat} {s : DryRun} {loops : NestedLoops} {body : List Action}
  {around : Surroundings} (budget : config.maxSteps < 2 ^ 64 - 1)

theorem Within.tell (within : Within config size s) (n : Notice) : Within config size (s.tell n) :=
  ⟨within.steps, within.size⟩

theorem Within.tellAll (within : Within config size s) (ns : List Notice) :
    Within config size (s.tellAll ns) := by
  obtain ⟨recorder, steps⟩ := s.tellAll_keeps ns
  exact ⟨steps ▸ within.steps, by rw [recorder]; exact within.size⟩

theorem Within.announce (within : Within config size s) (label : String) (range : LoopRange) :
    Within config size (s.announce config label range) :=
  ⟨(s.announce_keeps config label range).2 ▸ within.steps,
    (s.announce_size config label range).trans within.size⟩

theorem Within.performAll (within : Within config size s) (actions : List Action) :
    Within config size (s.performAll actions) :=
  ⟨s.performAll_steps actions ▸ within.steps, (s.performAll_size actions).trans within.size⟩

theorem Within.visitPair (within : Within config size s) (guard : Guard) (j : Int64) :
    Within config size (s.visitPair guard j) :=
  ⟨s.visitPair_steps guard j ▸ within.steps, (s.visitPair_size guard j).trans within.size⟩

theorem Within.finishPass (within : Within config size s) (loops : NestedLoops) (stop : Int64) :
    Within config size (s.finishPass loops stop) :=
  ⟨s.finishPass_steps loops stop ▸ within.steps, (s.finishPass_size loops stop).trans within.size⟩

theorem performAll_sound (within : Within config size s) {actions : List Action}
    (fits : ∀ q ∈ requests actions, q.Addressable) :
    Sound (Within config size) (liftM (performAll s actions)) (.ok (s.performAll actions)) :=
  .lift (performAll_eq s fits) (within.performAll actions)

include budget in
theorem countStep_sound (within : Within config size s) :
    Sound (Within config size) (countStep s config.maxSteps) (s.countStep config.maxSteps) := by
  have steps := within.steps
  have next : unsigned ((s.steps : Int) + 1) = .ok (s.steps + 1) :=
    unsigned_natCast (n := s.steps + 1) (by omega)
  unfold countStep DryRun.countStep
  rw [next, lift_ok_bind]
  dsimp only
  split
  · exact ⟨rfl, by rintro _ ⟨⟩⟩
  · exact .pure ⟨Nat.not_lt.mp ‹_›, within.size⟩

theorem walk_sound {R : DryRun → Prop} {act : Int64 → DryRun → Limited DryRun}
    {act' : Int64 → DryRun → Except DryRun DryRun}
    (once : ∀ i s, R s → Sound R (act i s) (act' i s)) {stop i : Int64} {s : DryRun} (holds : R s) :
    Sound R (walk act stop i s) (iterate act' (rangeCount i stop) i s) := by
  induction count : rangeCount i stop generalizing i s with
  | zero =>
    have outside : ¬ i < stop := by
      rw [Int64.lt_iff_toInt_lt]
      rw [rangeCount] at count
      omega
    rw [walk, if_neg outside]
    exact .pure holds
  | succ n ih =>
    have inside : i < stop := by
      rw [Int64.lt_iff_toInt_lt]
      rw [rangeCount] at count
      omega
    have next := toInt_of_signed (signed_succ inside)
    have left : rangeCount (i + 1) stop = n := by
      rw [rangeCount] at count ⊢
      omega
    have turn : iterate act' (n + 1) i s = act' i s >>= iterate act' n (i + 1) := by
      rw [iterate]
      cases act' i s <;> rfl
    rw [walk, if_pos inside, turn]
    split
    · rename_i k held
      rw [signed_succ inside] at held
      cases held
      exact (once i s holds).bind fun t holds => ih holds left
    · rename_i b broken
      rw [signed_succ inside] at broken
      cases broken

include budget

theorem runSingle_sound (within : Within config size s) (range : LoopRange)
    (fits : ∀ q ∈ requests body, q.Addressable) :
    Sound (Within config size) (runSingle s config range body) (s.runSingle config range body) :=
  walk_sound (fun i _ within => (countStep_sound budget within).bind fun _ within =>
    performAll_sound (within.tell (.singleIteration i)) fits) (within.announce "single" range)

theorem runInner_sound (within : Within config size s)
    (fits : ∀ q ∈ requests body, q.Addressable) (i stop : Int64) :
    Sound (Within config size) (runInner s config loops body i stop)
      (s.runInner config loops body i stop) := by
  refine walk_sound (fun j t within => (countStep_sound budget within).bind fun t within => ?_)
    (within.announce "inner" { loops.inner with stop := stop })
  rw [visitPair_eq, lift_ok_bind]
  exact performAll_sound ((within.tell (.nestedIteration i j)).visitPair loops.guard j) fits

theorem runMiddle_sound (short : size < 2 ^ 63) (within : Within config size s)
    (fits : ∀ q ∈ requests body, q.Addressable) (i : Int64) :
    Sound (Within config size) (runMiddle s config loops body i)
      (s.runMiddle config loops body i) := by
  have length := signed_natCast (n := s.recorder.size) (within.size ▸ short)
  unfold runMiddle DryRun.runMiddle
  rw [length, lift_ok_bind, innerStop?_eq]
  cases loops.innerStop.value? (Int64.ofNat s.recorder.size) i with
  | some stop =>
    refine (runInner_sound budget within fits i stop).bind fun t within => ?_
    rw [finishPass_eq]
    exact .pure (within.finishPass loops stop)
  | none => exact .pure (within.tell (.skippedInnerLoop i))

theorem runPass_sound (short : size < 2 ^ 63) (within : Within config size s)
    (sets : SameAround Request.Addressable around around)
    (fits : ∀ q ∈ requests body, q.Addressable) (i : Int64) :
    Sound (Within config size) (runPass s config loops around body i)
      (s.runPass config loops around body i) := by
  rw [DryRun.runPass_eq]
  refine (countStep_sound budget within).bind fun t within => ?_
  rw [performAll_eq t sets.before.allowed, lift_ok_bind]
  have within := within.performAll around.before
  exact (runMiddle_sound budget short within fits i).bind fun u within =>
    performAll_sound within sets.after.allowed

theorem runNested_sound (short : size < 2 ^ 63) (within : Within config size s)
    (sets : SameAround Request.Addressable around around)
    (fits : ∀ q ∈ requests body, q.Addressable) :
    Sound (Within config size) (runNested s config loops around body)
      (s.runNested config loops around body) :=
  walk_sound (fun i _ within => runPass_sound budget short within sets fits i)
    ((within.tellAll around.notices).announce "outer" loops.outer)

theorem run_sound (short : size < 2 ^ 63) (within : Within config size s) (w : Watch) (p : Program)
    (plan : LoopPlan) :
    Sound (Within config size) (run s config w p plan) (s.run config w p plan) := by
  have sets (o : Outline) := Watch.sameAround_surroundings (w := w) pattern_addressable o
  have bodies (stmts : List Stmt) :=
    (Watch.sameRequests_bodyActions (w := w) pattern_addressable stmts).allowed
  have opened := (within.tellAll (w.surroundings p.outline).notices).performAll
    (w.surroundings p.outline).before
  cases plan with
  | none =>
    exact performAll_sound within (Watch.sameRequests_allActions (w := w) pattern_addressable p).allowed
  | single l range =>
    unfold run DryRun.run
    dsimp only
    rw [performAll_eq _ (sets p.outline).before.allowed, lift_ok_bind]
    exact (runSingle_sound budget opened range (bodies l.body.statements)).bind fun t within =>
      performAll_sound within (sets p.outline).after.allowed
  | nested loops =>
    unfold run DryRun.run
    dsimp only
    rw [performAll_eq _ (sets p.outline).before.allowed, lift_ok_bind]
    exact (runNested_sound budget short opened (sets loops.outerLoop.body.outline)
      (bodies loops.innerLoop.body.statements)).bind fun t within =>
        performAll_sound within (sets p.outline).after.allowed

end

def traceOf (config : Config) (p : Program) (a : TrackedArray) : Except Breach Outcome := do
  let w : Watch := ⟨a.name, config.indexPolicy⟩
  let plan ← planOf p w a.values.length
  let start : DryRun :=
    { recorder := .start a.values
      notices := #[.discoveredArray a.name a.values.length, .classifiedLoops plan.name] }
  match ← (run start config w p plan).run with
  | .ok s =>
    let t := s.recorder.finish
    let done := s.tell (.synthesized a.name t.length (t.count .compare) (t.count .swap))
    return ⟨.ok t, done.notices.toList⟩
  | .error s => return ⟨.error (.stepLimit config.maxSteps), s.notices.toList⟩

def synthesize (config : Config) (text : String) : Except Breach Outcome :=
  match Program.ofText text with
  | .error e => return ⟨.error (.syntaxError e), []⟩
  | .ok p =>
    match TrackedArray.ofProgram p with
    | .error why => return ⟨.error (.noArray why), []⟩
    | .ok a => traceOf config p a

theorem traceOf_eq {config : Config} (budget : config.maxSteps < 2 ^ 64 - 1) {p : Program}
    (brief : p.outline.Every Node.Brief) (a : TrackedArray) (short : a.values.length < 2 ^ 63) :
    traceOf config p a = .ok (Synthesis.traceOf config p a) := by
  unfold traceOf Synthesis.traceOf
  dsimp only
  rw [planOf_eq brief _ short, ok_bind]
  generalize LoopPlan.ofProgram p ⟨a.name, config.indexPolicy⟩ a.values.length = plan
  let start : DryRun :=
    { recorder := .start a.values
      notices := #[.discoveredArray a.name a.values.length, .classifiedLoops plan.name] }
  have within : Within config a.values.length start := ⟨Nat.zero_le _, rfl⟩
  have ran := (run_sound budget short within ⟨a.name, config.indexPolicy⟩ p plan).same
  rw [show run _ config _ p plan = _ from ran]
  cases start.run config ⟨a.name, config.indexPolicy⟩ p plan <;> rfl

theorem array_brief {p : Program} (brief : p.outline.Every Node.Brief) {a : TrackedArray}
    (tracked : TrackedArray.ofProgram p = .ok a) : a.values.length < 2 ^ 63 := by
  unfold TrackedArray.ofProgram at tracked
  split at tracked
  · cases tracked
  rename_i found
  split at tracked
  · cases tracked
  cases tracked
  obtain ⟨d, member, made⟩ := List.exists_of_findSome?_eq_some found
  obtain ⟨items, literal, rfl⟩ := Option.map_eq_some_iff.mp made
  obtain ⟨e, initial, shape⟩ := Option.bind_eq_some_iff.mp literal
  have declared := brief.walk _ (Program.mem_declarators_iff.mp member).mem_walk
  have value : (Node.expr e).outline.Every Node.Brief :=
    Node.every_part declared (by simp [Node.parts, initial])
  have few := Node.every_here value
  cases e with
  | array xs span =>
    cases shape
    rw [Node.Brief, Node.parts, List.length_map] at few
    rwa [List.length_map]
  | _ => cases shape

/-- Whatever a script says and whatever the configuration is, the machine comes to no breach while the
script is read for its loops and run, and does what is done without words. The step counter needs one word
more than the limit, and lists are as short as those in memory. -/
theorem synthesize_no_breach (config : Config) (text : String)
    (budget : config.maxSteps < 2 ^ 64 - 1)
    (held : ∀ p, Program.ofText text = .ok p → p.outline.Every Node.Brief) :
    synthesize config text = .ok (Synthesis.synthesize config text) := by
  unfold synthesize Synthesis.synthesize
  cases read : Program.ofText text with
  | error e => rfl
  | ok p =>
    dsimp only
    cases tracked : TrackedArray.ofProgram p with
    | error why => rfl
    | ok a => exact traceOf_eq budget (held p read) a (array_brief (held p read) tracked)

/-- The ranges of both loops go from one end of the signed words to the other. -/
def extremesText : String :=
  "let a=[2,1];for(let i=-1e30;i<1e30;i++)for(let j=-1e30;j<a.length-i;j++);"

theorem synthesize_no_breach_extremes :
    (Synthesis.synthesize { maxSteps := 3 } extremesText).result = .error (.stepLimit 3) ∧
      synthesize { maxSteps := 3 } extremesText =
        .ok (Synthesis.synthesize { maxSteps := 3 } extremesText) := by
  exact ⟨by decide +kernel,
    synthesize_no_breach _ _ (by decide) fun p read => Program.ofText_brief read (by decide)⟩

end Machine

end SortTrace.Synthesis
