import Mathlib.Data.List.Forall2
import SortTrace.Proofs.Synthesis.Lockstep
import SortTrace.Proofs.Synthesis.StepBudget

/-!
Comments of loops. A run that comments its loops does what the same run does without comments: the second
trace is the first one less its comments. Comments stand at the start of a loop, in front of everything
that its iterations compare.
-/

namespace SortTrace

def Recorder.Adds (kinds : EventKind → Prop) (r r' : Recorder) : Prop :=
  ∃ added, r'.events = r.events ++ added ∧ ∀ e ∈ added, kinds e.kind

namespace Recorder.Adds

variable {kinds : EventKind → Prop} {r r' r'' : Recorder}

theorem refl (r : Recorder) : r.Adds kinds r := ⟨[], (List.append_nil _).symm, by simp⟩

theorem trans (first : r.Adds kinds r') (second : r'.Adds kinds r'') : r.Adds kinds r'' := by
  obtain ⟨added, events, fine⟩ := first
  obtain ⟨further, events', fine'⟩ := second
  exact ⟨added ++ further, by rw [events', events, List.append_assoc],
    List.forall_mem_append.mpr ⟨fine, fine'⟩⟩

theorem handle (r : Recorder) {q : Request} (fine : kinds q.kind) :
    r.Adds kinds (r.handle q).1 := by
  refine ⟨(q.event? r.array).toList, by rw [handle_eq, extend_events], fun e member => ?_⟩
  obtain ⟨kind, -⟩ := Request.event?_names (Option.mem_toList.mp member)
  rwa [kind]

theorem run (r : Recorder) {qs : List Request} (fine : ∀ q ∈ qs, kinds q.kind) :
    r.Adds kinds (r.run qs) := by
  induction qs generalizing r with
  | nil => exact .refl r
  | cons q rest ih =>
    obtain ⟨first, others⟩ := List.forall_mem_cons.mp fine
    exact (Adds.handle r first).trans (ih _ others)

end Recorder.Adds

def EventKind.Silent (k : EventKind) : Prop := k ≠ .comment

def uncommented (events : List Event) : List Event := events.filter fun e => e.kind ≠ .comment

theorem uncommented_of_silent {events : List Event} (silent : ∀ e ∈ events, e.kind.Silent) :
    uncommented events = events :=
  List.filter_eq_self.mpr fun e member => decide_eq_true (silent e member)

structure Recorder.Commented (r r' : Recorder) : Prop where
  array : r'.array = r.array
  events : r'.events = uncommented r.events

namespace Recorder.Commented

variable {r r' : Recorder}

theorem handle {q : Request} (silent : q.kind.Silent) (commented : r.Commented r') :
    (r.handle q).1.Commented (r'.handle q).1 := by
  have kept : uncommented (q.event? r.array).toList = (q.event? r.array).toList := by
    refine uncommented_of_silent fun e member => ?_
    obtain ⟨kind, -⟩ := Request.event?_names (Option.mem_toList.mp member)
    rwa [kind]
  rw [handle_eq, handle_eq, commented.array]
  refine ⟨extend_array commented.array _, ?_⟩
  rw [extend_events, extend_events, commented.events, uncommented, uncommented, List.filter_append]
  exact congrArg _ kept.symm

theorem comment (commented : r.Commented r') (message : String) :
    (r.comment message).Commented r' := by
  refine ⟨commented.array, ?_⟩
  have said : (r.comment message).events = r.events ++ [.comment message] := Array.toList_push
  rw [said, uncommented, List.filter_append]
  exact commented.events.trans (List.append_nil _).symm

theorem finish (commented : r.Commented r') :
    r'.finish = ⟨uncommented r.finish.events⟩ := by
  simp only [Recorder.finish, commented.events, uncommented, List.filter_append]
  rfl

end Recorder.Commented

namespace Synthesis

open Script

variable {w : Watch}

theorem request_silent (e : Expr) : ∀ q ∈ requests (w.pattern e).actions, q.kind.Silent := by
  intro q member
  obtain ⟨a, -, asked⟩ := List.mem_filterMap.mp member
  cases a <;> cases asked <;> simp [EventKind.Silent, Request.kind]

theorem simulation_commented (config : Config) :
    Simulation { config with loopComments := true } { config with loopComments := false }
      (fun q => q.kind.Silent) Recorder.Commented where
  limit := rfl
  array := fun commented => commented.array
  handle := Recorder.Commented.handle
  announced := fun label range commented => commented.comment _
  loops := fun k _ => by simp [EventKind.Silent, Request.kind]

theorem dryRun_commented (config : Config) (p : Program) (a : TrackedArray) :
    Alike (DryRun.InStep Recorder.Commented) (dryRun { config with loopComments := true } p a)
      (dryRun { config with loopComments := false } p a) :=
  dryRun_alike (simulation_commented config) rfl request_silent ⟨rfl, rfl⟩

def loopComment (label : String) (range : LoopRange) : Event :=
  let var := range.var.getD "?"
  .comment s!"{label} loop: {var} from {range.start} to {range.stop}"

/-- What one pass of the outer loop adds: sets, then the comment of the inner loop, then no other
comment. A pass whose inner end does not resolve only sets. -/
inductive CommentedPass (loops : NestedLoops) (length : Nat) (i : Int64) : List Event → Prop
  | resolved {stop : Int64} {opening rest : List Event} :
      loops.innerStop.value? (Int64.ofNat length) i = some stop →
      (∀ e ∈ opening, e.kind = .set) → (∀ e ∈ rest, e.kind.Silent) →
      CommentedPass loops length i
        (opening ++ loopComment "inner" { loops.inner with stop := stop } :: rest)
  | unresolved {row : List Event} : loops.innerStop.value? (Int64.ofNat length) i = none →
      (∀ e ∈ row, e.kind = .set) → CommentedPass loops length i row

inductive Rows (pass : Int64 → DryRun → Except DryRun DryRun) :
    List Int64 → DryRun → List (List Event) → DryRun → Prop
  | done {s : DryRun} : Rows pass [] s [] s
  | pass {i : Int64} {is : List Int64} {s u t : DryRun} {row : List Event}
      {rows : List (List Event)} : pass i s = .ok u →
      u.recorder.events = s.recorder.events ++ row → Rows pass is u rows t →
      Rows pass (i :: is) s (row :: rows) t

def consecutive : (count : Nat) → Int64 → List Int64
  | 0, _ => []
  | count + 1, i => i :: consecutive count (i + 1)

theorem consecutive_eq (count : Nat) (i : Int64) (room : i.toInt + count < 2 ^ 63) :
    consecutive count i = (List.range count).map fun k : Nat => Int64.ofInt (i.toInt + k) := by
  induction count generalizing i with
  | zero => rfl
  | succ count ih =>
    have next : (i + 1).toInt = i.toInt + 1 := toInt_succ (by omega)
    have shift (k : Nat) : i.toInt + 1 + k = i.toInt + (k + 1 : Nat) := by omega
    have further := ih (i + 1) (by omega)
    simp only [next, shift] at further
    rw [consecutive, further, List.range_succ_eq_map, List.map_cons, List.map_map,
      Int.natCast_zero, Int.add_zero, Int64.ofInt_toInt]
    rfl

theorem consecutive_range (range : LoopRange) :
    consecutive (rangeCount range.start range.stop) range.start = range.values := by
  have low := range.start.toInt_lt
  have high := range.stop.toInt_lt
  exact consecutive_eq _ _ (by rw [rangeCount]; omega)

namespace DryRun

variable {config : Config} {loops : NestedLoops} {around : Surroundings} {body : List Action}
  {s t : DryRun}

theorem performAll_adds (kinds : EventKind → Prop) (s : DryRun) {actions : List Action}
    (fine : ∀ q ∈ requests actions, kinds q.kind) :
    s.recorder.Adds kinds (s.performAll actions).recorder := by
  rw [performAll_recorder]
  exact .run s.recorder fine

theorem simulation_silent (config : Config) (quiet : config.loopComments = false) (base : Recorder) :
    Simulation config config (fun q => q.kind.Silent)
      fun r r' => r' = r ∧ base.Adds EventKind.Silent r where
  limit := rfl
  array := fun ⟨same, _⟩ => same ▸ rfl
  handle := fun silent ⟨same, adds⟩ => ⟨same ▸ rfl, adds.trans (.handle _ silent)⟩
  announced := fun label range ⟨same, adds⟩ => by
    rw [announced_quiet quiet, announced_quiet quiet]
    exact ⟨same, adds⟩
  loops := fun k _ => by simp [EventKind.Silent, Request.kind]

theorem inStep_self (s : DryRun) : InStep (fun r r' => r' = r ∧
    s.recorder.Adds EventKind.Silent r) s s :=
  ⟨⟨rfl, .refl s.recorder⟩, rfl⟩

theorem sameRequests_self {allowed : Request → Prop} (fine : ∀ q ∈ requests body, allowed q) :
    SameRequests allowed body body := ⟨rfl, fine⟩

theorem announce_adds (s : DryRun) (label : String) (range : LoopRange) :
    (s.announce { config with loopComments := true } label range).recorder.events =
      s.recorder.events ++ [loopComment label range] := Array.toList_push

theorem runSingle_comments {range : LoopRange} (silent : ∀ q ∈ requests body, q.kind.Silent)
    (ran : s.runSingle { config with loopComments := true } range body = .ok t) :
    ∃ rest, t.recorder.events = s.recorder.events ++ loopComment "single" range :: rest ∧
      ∀ e ∈ rest, e.kind.Silent := by
  let quiet : Config := { config with loopComments := false }
  let u := s.announce { config with loopComments := true } "single" range
  have further : u.runSingle quiet range body = .ok t := ran
  have both := (inStep_self u).runSingle (simulation_silent quiet rfl u.recorder) range
    (sameRequests_self silent)
  obtain ⟨-, rest, events, fine⟩ := (both.of_ok further).recorder
  refine ⟨rest, ?_, fine⟩
  rw [events, announce_adds, List.append_assoc]
  rfl

theorem runInner_comments {i stop : Int64} (silent : ∀ q ∈ requests body, q.kind.Silent)
    (ran : s.runInner { config with loopComments := true } loops body i stop = .ok t) :
    ∃ rest, (t.finishPass loops stop).recorder.events =
        s.recorder.events ++ loopComment "inner" { loops.inner with stop := stop } :: rest ∧
      ∀ e ∈ rest, e.kind.Silent := by
  let quiet : Config := { config with loopComments := false }
  let u := s.announce { config with loopComments := true } "inner" { loops.inner with stop := stop }
  have further : u.runInner quiet loops body i stop = .ok t := ran
  have sim := simulation_silent quiet rfl u.recorder
  have inStep := ((inStep_self u).runInner sim (sameRequests_self silent) i stop).of_ok further
  obtain ⟨-, rest, events, fine⟩ := (inStep.finishPass sim loops stop).recorder
  refine ⟨rest, ?_, fine⟩
  rw [events, announce_adds, List.append_assoc]
  rfl

theorem runPass_comments {i : Int64} (before : ∀ q ∈ requests around.before, q.kind = .set)
    (after : ∀ q ∈ requests around.after, q.kind = .set)
    (silent : ∀ q ∈ requests body, q.kind.Silent)
    (ran : s.runPass { config with loopComments := true } loops around body i = .ok t) :
    ∃ row, t.recorder.events = s.recorder.events ++ row ∧
      t.recorder.size = s.recorder.size ∧ CommentedPass loops s.recorder.size i row := by
  rw [runPass_eq] at ran
  obtain ⟨counted, room, ran⟩ := ok_of_bind ran
  obtain ⟨u, middle, rest⟩ := ok_of_bind ran
  cases rest
  have counts := countStep_recorder room
  obtain ⟨opening, opened, sets⟩ := counted.performAll_adds (· = .set) before
  obtain ⟨closing, closed, sets'⟩ := u.performAll_adds (· = .set) after
  have size := counted.performAll_size around.before
  rw [counts] at opened size
  unfold runMiddle at middle
  rw [size] at middle
  cases resolved : loops.innerStop.value? (Int64.ofNat s.recorder.size) i with
  | none =>
    rw [resolved] at middle
    cases middle
    refine ⟨opening ++ closing, ?_, (performAll_size ..).trans size,
      .unresolved resolved (List.forall_mem_append.mpr ⟨sets, sets'⟩)⟩
    rw [closed, ← List.append_assoc, ← opened]
    rfl
  | some stop =>
    rw [resolved] at middle
    obtain ⟨v, inner, finished⟩ := ok_of_bind middle
    cases finished
    obtain ⟨_, -, innerSize⟩ := ((runInner_reaches inner).trans (v.finishPass_reaches loops stop)).grown
    obtain ⟨rest, events, fine⟩ := runInner_comments silent inner
    refine ⟨opening ++ loopComment "inner" { loops.inner with stop := stop } :: (rest ++ closing), ?_,
      (performAll_size ..).trans (innerSize.trans size), .resolved resolved sets ?_⟩
    · rw [closed, events, opened]
      simp only [List.append_assoc, List.cons_append]
    · refine List.forall_mem_append.mpr ⟨fine, fun e member => ?_⟩
      rw [EventKind.Silent, sets' e member]
      decide

theorem rows_of_iterate {pass : Int64 → DryRun → Except DryRun DryRun}
    {C : Nat → Int64 → List Event → Prop} (shape : ∀ i s t, pass i s = .ok t →
      ∃ row, t.recorder.events = s.recorder.events ++ row ∧ t.recorder.size = s.recorder.size ∧
        C s.recorder.size i row)
    {count : Nat} {i : Int64} (ran : iterate pass count i s = .ok t) :
    ∃ rows, Rows pass (consecutive count i) s rows t ∧
      t.recorder.events = s.recorder.events ++ rows.flatten ∧
      List.Forall₂ (C s.recorder.size) (consecutive count i) rows := by
  induction count generalizing i s with
  | zero =>
    cases ran
    exact ⟨[], .done, (List.append_nil _).symm, .nil⟩
  | succ count ih =>
    rw [iterate] at ran
    split at ran
    · rename_i u once
      obtain ⟨row, events, size, first⟩ := shape i s u once
      obtain ⟨rows, ran, further, others⟩ := ih ran
      rw [size] at others
      refine ⟨row :: rows, .pass once events ran, ?_, .cons first others⟩
      rw [further, events, List.append_assoc, List.flatten_cons]
    · cases ran

end DryRun

theorem surroundings_sets (o : Outline) :
    (∀ q ∈ requests (w.surroundings o).before, q.kind = .set) ∧
      ∀ q ∈ requests (w.surroundings o).after, q.kind = .set := by
  have overwrites (es : List Expr) :
      ∀ q ∈ requests (es.flatMap fun e => (w.pattern e).overwrites), q.kind = .set := by
    intro q member
    rw [requests_flatMap] at member
    obtain ⟨e, -, member⟩ := List.mem_flatMap.mp member
    cases shape : w.pattern e <;> simp [shape, Pattern.overwrites, requests, Action.request?] at member
    rw [member]
    rfl
  exact ⟨overwrites _, overwrites _⟩

def LoopPlan.comments (length : Nat) : LoopPlan → Nat
  | .none => 0
  | .single .. => 1
  | .nested loops => 1 + loops.outer.values.countP fun i =>
      (loops.innerStop.value? (Int64.ofNat length) i).isSome

def commentCount (events : List Event) : Nat := events.countP fun e => e.kind = .comment

theorem commentCount_append (first rest : List Event) :
    commentCount (first ++ rest) = commentCount first + commentCount rest := List.countP_append

theorem commentCount_comment (label : String) (range : LoopRange) (rest : List Event) :
    commentCount (loopComment label range :: rest) = commentCount rest + 1 := by
  simp [commentCount, loopComment, Event.kind]

theorem commentCount_framed (array : List Int64) (inner : List Event) :
    commentCount (framed array inner) = commentCount inner := by
  simp [commentCount, framed, Event.kind]

theorem commentCount_silent {events : List Event} (silent : ∀ e ∈ events, e.kind.Silent) :
    commentCount events = 0 :=
  List.countP_eq_zero.mpr fun e member => by simpa [EventKind.Silent] using silent e member

theorem silent_of_sets {events : List Event} (sets : ∀ e ∈ events, e.kind = .set) :
    ∀ e ∈ events, e.kind.Silent := by
  intro e member
  rw [EventKind.Silent, sets e member]
  decide

theorem CommentedPass.count {loops : NestedLoops} {length : Nat} {i : Int64} {row : List Event}
    (pass : CommentedPass loops length i row) : commentCount row =
      if (loops.innerStop.value? (Int64.ofNat length) i).isSome then 1 else 0 := by
  cases pass with
  | resolved found sets silent =>
    simp [commentCount_append, commentCount_comment, commentCount_silent (silent_of_sets sets),
      commentCount_silent silent, found]
  | unresolved missing sets => simp [commentCount_silent (silent_of_sets sets), missing]

theorem commentCount_rows {loops : NestedLoops} {length : Nat} {is : List Int64}
    {rows : List (List Event)} (placed : List.Forall₂ (CommentedPass loops length) is rows) :
    commentCount rows.flatten =
      is.countP fun i => (loops.innerStop.value? (Int64.ofNat length) i).isSome := by
  induction placed with
  | nil => rfl
  | cons pass _ ih =>
    rw [List.flatten_cons, commentCount_append, pass.count, ih, List.countP_cons]
    omega

/-- The trace of two loops that are commented: the comment of the outer one behind sets alone, then the
passes with what each of them adds, then sets. In each pass the comment of the inner loop stands behind
sets alone, too. -/
structure CommentedNest (config : Config) (w : Watch) (loops : NestedLoops) (values : List Int64)
    (t : Trace) (before after : List Event) (rows : List (List Event)) (u v : DryRun) : Prop where
  opened : u.recorder.events = .init values :: (before ++ [loopComment "outer" loops.outer])
  ran : Rows (fun i s => s.runPass config loops (w.surroundings loops.outerLoop.body.outline)
    (w.bodyActions loops.innerLoop.body.statements) i) loops.outer.values u rows v
  placed : List.Forall₂ (CommentedPass loops values.length) loops.outer.values rows
  events_eq : t.events = u.recorder.events ++ (rows.flatten ++ (after ++ [Event.complete]))
  around : ∀ e ∈ before ++ after, e.kind = .set

namespace DryRun

variable {config : Config} {p : Program} {s t : DryRun}

theorem run_comments_none (ran : s.run config w p .none = .ok t) :
    s.recorder.Adds EventKind.Silent t.recorder := by
  cases ran
  exact performAll_adds _ s (Watch.sameRequests_allActions request_silent p).allowed

theorem run_comments_single {l : Loop} {range : LoopRange}
    (ran : s.run { config with loopComments := true } w p (.single l range) = .ok t) :
    ∃ before rest, t.recorder.events = s.recorder.events ++
        (before ++ loopComment "single" range :: rest) ∧
      (∀ e ∈ before, e.kind.Silent) ∧ ∀ e ∈ rest, e.kind.Silent := by
  obtain ⟨u, looping, rest⟩ := ok_of_bind ran
  cases rest
  obtain ⟨fromBefore, fromAfter⟩ := @surroundings_sets w p.outline
  obtain ⟨before, opened, sets⟩ := performAll_adds (· = .set)
    (s.tellAll (w.surroundings p.outline).notices) fromBefore
  obtain ⟨after, closed, sets'⟩ := performAll_adds (· = .set) u fromAfter
  obtain ⟨rest, events, silent⟩ := runSingle_comments
    (Watch.sameRequests_bodyActions request_silent l.body.statements).allowed looping
  rw [(s.tellAll_keeps _).1] at opened
  refine ⟨before, rest ++ after, ?_, silent_of_sets sets,
    List.forall_mem_append.mpr ⟨silent, silent_of_sets sets'⟩⟩
  rw [closed, events, opened]
  simp only [List.append_assoc, List.cons_append]

theorem run_comments_nested {loops : NestedLoops} {values : List Int64}
    (start : s.recorder = .start values)
    (ran : s.run { config with loopComments := true } w p (.nested loops) = .ok t) :
    ∃ before after rows u v, CommentedNest { config with loopComments := true } w loops values
      t.recorder.finish before after rows u v := by
  obtain ⟨v, looping, rest⟩ := ok_of_bind ran
  cases rest
  obtain ⟨fromBefore, fromAfter⟩ := @surroundings_sets w p.outline
  obtain ⟨innerBefore, innerAfter⟩ := @surroundings_sets w loops.outerLoop.body.outline
  obtain ⟨before, opened, sets⟩ := performAll_adds (· = .set)
    (s.tellAll (w.surroundings p.outline).notices) fromBefore
  obtain ⟨after, closed, sets'⟩ := performAll_adds (· = .set) v fromAfter
  rw [(s.tellAll_keeps _).1, start] at opened
  let around := w.surroundings loops.outerLoop.body.outline
  let entered := ((s.tellAll (w.surroundings p.outline).notices).performAll
    (w.surroundings p.outline).before).tellAll around.notices
  let u := entered.announce { config with loopComments := true } "outer" loops.outer
  have size : u.recorder.size = values.length := by
    refine (entered.announce_size ..).trans ?_
    rw [(tellAll_keeps _ around.notices).1, performAll_size, (s.tellAll_keeps _).1, start]
    rfl
  obtain ⟨rows, ran, events, placed⟩ := rows_of_iterate (fun i s t once =>
    runPass_comments innerBefore innerAfter
      (Watch.sameRequests_bodyActions request_silent loops.innerLoop.body.statements).allowed once)
    looping
  rw [consecutive_range] at ran placed
  refine ⟨before, after, rows, u, v, ?_, ran, size ▸ placed, ?_,
    List.forall_mem_append.mpr ⟨sets, sets'⟩⟩
  · rw [announce_adds, (tellAll_keeps _ around.notices).1, opened]
    rfl
  · simp only [Recorder.finish, closed, events, List.append_assoc]
    rfl

end DryRun

theorem CommentedNest.count {config : Config} {loops : NestedLoops} {values : List Int64} {t : Trace}
    {before after : List Event} {rows : List (List Event)} {u v : DryRun}
    (nest : CommentedNest config w loops values t before after rows u v) :
    commentCount t.events = (LoopPlan.nested loops).comments values.length := by
  obtain ⟨sets, sets'⟩ := List.forall_mem_append.mp nest.around
  have events : t.events = framed values
      (before ++ loopComment "outer" loops.outer :: (rows.flatten ++ after)) := by
    simp [nest.events_eq, nest.opened, framed]
  rw [events, commentCount_framed, commentCount_append, commentCount_comment, commentCount_append,
    commentCount_silent (silent_of_sets sets), commentCount_silent (silent_of_sets sets'),
    commentCount_rows nest.placed, LoopPlan.comments]
  omega

theorem dryRun_comments {config : Config} {p : Program} {a : TrackedArray} {s : DryRun}
    (ran : dryRun { config with loopComments := true } p a = .ok s) :
    let w : Watch := ⟨a.name, config.indexPolicy⟩
    let plan := LoopPlan.ofProgram p w a.values.length
    commentCount s.recorder.finish.events = plan.comments a.values.length ∧
      ∀ loops, plan = .nested loops → ∃ before after rows u v,
        CommentedNest { config with loopComments := true } w loops a.values s.recorder.finish
          before after rows u v := by
  intro w plan
  have ran : DryRun.run _ { config with loopComments := true } w p plan = .ok s := ran
  generalize plan = plan at ran
  cases plan with
  | none =>
    obtain ⟨added, events, silent⟩ := DryRun.run_comments_none ran
    refine ⟨?_, fun loops same => by cases same⟩
    rw [Recorder.finish, events]
    exact (commentCount_framed a.values added).trans (commentCount_silent silent)
  | single l range =>
    obtain ⟨before, rest, events, silent, silent'⟩ := DryRun.run_comments_single ran
    refine ⟨?_, fun loops same => by cases same⟩
    rw [Recorder.finish, events]
    refine (commentCount_framed a.values (before ++ loopComment "single" range :: rest)).trans ?_
    rw [commentCount_append, commentCount_comment, commentCount_silent silent,
      commentCount_silent silent', LoopPlan.comments]
  | nested loops =>
    obtain ⟨before, after, rows, u, v, nest⟩ := DryRun.run_comments_nested rfl ran
    refine ⟨nest.count, fun others same => ?_⟩
    cases same
    exact ⟨before, after, rows, u, v, nest⟩

/-- Comments of loops change nothing else: with and without them the same errors come out, and the trace
without them is the commented one less its comments. There is one comment for each loop that is started,
and in each pass it stands in front of everything that is compared. -/
theorem synthesize_commented (config : Config) (text : String) :
    let said : Config := { config with loopComments := true }
    let quiet : Config := { config with loopComments := false }
    (∀ e, (synthesize said text).result = .error e ↔ (synthesize quiet text).result = .error e) ∧
    ∀ t, (synthesize said text).result = .ok t →
      (synthesize quiet text).result = .ok ⟨t.events.filter fun e => e.kind ≠ .comment⟩ ∧
      ∃ p a, Program.ofText text = .ok p ∧ TrackedArray.ofProgram p = .ok a ∧
        let w : Watch := ⟨a.name, config.indexPolicy⟩
        let plan := LoopPlan.ofProgram p w a.values.length
        t.count .comment = plan.comments a.values.length ∧
        ∀ loops, plan = .nested loops → ∃ before after rows u v,
          CommentedNest said w loops a.values t before after rows u v := by
  intro said quiet
  rcases synthesize_alike text (show quiet.maxSteps = said.maxSteps from rfl)
      (fun p a _ _ => dryRun_commented config p a) with
    ⟨e, failed, failed'⟩ | ⟨p, a, s, s', both⟩
  · rw [failed, failed']
    exact ⟨fun e => Iff.rfl, fun t done => by cases done⟩
  · rw [both.made, both.made']
    refine ⟨fun e => iff_of_false (by simp) (by simp), fun t done => ?_⟩
    cases done
    refine ⟨congrArg Except.ok both.related.recorder.finish, p, a, both.read, both.tracked, ?_⟩
    exact dryRun_comments both.ran

theorem synthesize_commented_twoPasses : ∃ t,
    (synthesize { loopComments := true } twoPassesText).result = .ok t ∧
    (synthesize { loopComments := false } twoPassesText).result =
      .ok ⟨t.events.filter fun e => e.kind ≠ .comment⟩ ∧
    t.count .comment = 3 := by
  have seen : ((Program.ofText twoPassesText).toOption.bind fun p =>
      (TrackedArray.ofProgram p).toOption.bind fun a =>
        (traceOf { loopComments := true } p a).result.toOption.map fun _ =>
          (LoopPlan.ofProgram p ⟨a.name, .placeholder⟩ a.values.length).comments a.values.length) =
      some 3 := by decide +kernel
  obtain ⟨p, found, seen⟩ := Option.bind_eq_some_iff.mp seen
  obtain ⟨a, named, seen⟩ := Option.bind_eq_some_iff.mp seen
  obtain ⟨t, traced, comments⟩ := Option.map_eq_some_iff.mp seen
  have read := ok_of_toOption found
  have tracked := ok_of_toOption named
  have done : (synthesize { loopComments := true } twoPassesText).result = .ok t := by
    rw [synthesize_eq_traceOf read tracked]
    exact ok_of_toOption traced
  obtain ⟨quiet, p', a', read', tracked', count, -⟩ := (synthesize_commented {} twoPassesText).2 t done
  cases read.symm.trans read'
  cases tracked.symm.trans tracked'
  exact ⟨t, done, quiet, count.trans comments⟩

end Synthesis

end SortTrace
