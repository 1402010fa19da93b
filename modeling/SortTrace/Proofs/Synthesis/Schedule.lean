import SortTrace.Proofs.Synthesis.LoopComments

/-!
Schedules: which events a run makes, of which kinds and at which positions, whatever the array holds. Only
exchanges depend on values. All the rest of a run of two loops is known beforehand, from the loops and the
length of the array.
-/

namespace SortTrace

abbrev Heading := EventKind × List Nat

def Event.heading (e : Event) : Heading := (e.kind, e.indices)

/-- The headings of some events, exchanges left out. -/
def schedule (events : List Event) : List Heading :=
  (events.filter fun e => e.kind ≠ .swap).map Event.heading

theorem schedule_append (first rest : List Event) :
    schedule (first ++ rest) = schedule first ++ schedule rest := by
  rw [schedule, List.filter_append, List.map_append, schedule, schedule]

def comparedAt (headings : List Heading) : List (List Nat) :=
  (headings.filter fun h => h.1 = .compare).map Prod.snd

theorem comparedAt_append (first rest : List Heading) :
    comparedAt (first ++ rest) = comparedAt first ++ comparedAt rest := by
  rw [comparedAt, List.filter_append, List.map_append, comparedAt, comparedAt]

theorem comparedAt_flatMap {α : Type} (headings : α → List Heading) (xs : List α) :
    comparedAt (xs.flatMap headings) = xs.flatMap fun x => comparedAt (headings x) := by
  rw [comparedAt, List.filter_flatMap, List.map_flatMap]
  rfl

theorem comparedAt_other {headings : List Heading} (other : ∀ h ∈ headings, h.1 ≠ .compare) :
    comparedAt headings = [] := by
  rw [comparedAt, List.map_eq_nil_iff, List.filter_eq_nil_iff]
  simpa using other

theorem comparedAt_schedule (events : List Event) :
    comparedAt (schedule events) =
      (events.filter fun e => e.kind = .compare).map Event.indices := by
  have both (e : Event) : (decide (e.heading.1 = .compare) && decide (e.kind ≠ .swap)) =
      decide (e.kind = .compare) := by
    cases e <;> rfl
  rw [comparedAt, schedule, List.filter_map, List.filter_filter, List.map_map]
  exact congrArg (List.map Event.indices) (List.filter_congr fun e _ => both e)

namespace Request

def headings (length : Nat) (q : Request) : List Heading :=
  if q.kind ≠ .swap ∧ ∀ i ∈ q.positions, i < length then [(q.kind, q.positions)] else []

theorem headings_kind {length : Nat} {q : Request} {h : Heading} (member : h ∈ q.headings length) :
    h.1 = q.kind := by
  unfold headings at member
  split at member
  · rw [List.mem_singleton.mp member]
  · cases member

theorem event?_isSome {array : List Int64} {q : Request} :
    (q.event? array).isSome ↔ ∀ i ∈ q.positions, i < array.length := by
  cases q with
  | compare i j | swap i j =>
    rcases Nat.lt_or_ge i array.length with inside | outside
    · simp [event?, positions, inside]
    · simp [event?, positions, Nat.not_lt.mpr outside]
  | set i value => simp [event?, positions]
  | highlight indices color | sorted indices =>
    rw [event?, positions]
    split <;> simp_all
  | comment message => simp [event?, positions]

theorem schedule_event? (array : List Int64) (q : Request) :
    schedule (q.event? array).toList = q.headings array.length := by
  have accepted := @event?_isSome array q
  cases found : q.event? array with
  | none =>
    have outside : ¬ ∀ i ∈ q.positions, i < array.length := by simp [← accepted, found]
    rw [headings, if_neg fun fine => outside fine.2]
    rfl
  | some e =>
    obtain ⟨kind, indices⟩ := event?_names found
    have inside := accepted.mp (by rw [found, Option.isSome_some])
    have same : e.heading = (q.kind, q.positions) := by rw [Event.heading, kind, indices]
    simp only [headings, schedule, Option.toList_some, List.filter_cons, List.filter_nil, kind]
    by_cases other : q.kind ≠ .swap
    · rw [if_pos (decide_eq_true other), if_pos ⟨other, inside⟩, List.map_singleton, same]
    · rw [if_neg (by simpa using other), if_neg fun fine => other fine.1, List.map_nil]

end Request

/-- The second recorder has gone on from the first by events with the given headings, exchanges left
out. -/
structure Recorder.Follows (headings : List Heading) (r r' : Recorder) : Prop where
  schedule_eq : schedule r'.events = schedule r.events ++ headings
  size_eq : r'.size = r.size

namespace Recorder.Follows

variable {r r' r'' : Recorder} {first rest : List Heading}

theorem refl (r : Recorder) : r.Follows [] r := ⟨(List.append_nil _).symm, rfl⟩

theorem trans (one : r.Follows first r') (two : r'.Follows rest r'') :
    r.Follows (first ++ rest) r'' :=
  ⟨by rw [two.schedule_eq, one.schedule_eq, List.append_assoc], two.size_eq.trans one.size_eq⟩

theorem handle (r : Recorder) (q : Request) :
    r.Follows (q.headings r.size) (r.handle q).1 := by
  obtain ⟨_, -, size⟩ := (Reaches.request r q).grown
  refine ⟨?_, size⟩
  rw [handle_eq, extend_events, schedule_append, Request.schedule_event?]
  rfl

theorem run (r : Recorder) (qs : List Request) :
    r.Follows (qs.flatMap (Request.headings r.size)) (r.run qs) := by
  induction qs generalizing r with
  | nil => exact .refl r
  | cons q rest ih =>
    have once := handle r q
    have further := ih (r.handle q).1
    rw [once.size_eq] at further
    exact once.trans further

theorem exchangeIf (r : Recorder) (asked : Int64 → Int64 → Bool) (i j : Nat) :
    r.Follows ((Request.compare i j).headings r.size) (r.exchangeIf asked i j) := by
  have looked := handle r (.compare i j)
  simp only [Recorder.handle] at looked
  unfold Recorder.exchangeIf
  split
  · rename_i next x y compared
    rw [compared] at looked
    split
    · have exchanged := looked.trans (handle next (.swap i j))
      have silent : (Request.swap i j).headings next.size = [] := if_neg fun fine => fine.1 rfl
      rwa [silent, List.append_nil] at exchanged
    · exact looked
  · rename_i next compared
    rwa [compared] at looked

end Recorder.Follows

namespace Synthesis

open Script

def actionHeadings (length : Nat) (actions : List Action) : List Heading :=
  (requests actions).flatMap (Request.headings length)

def loopHeadings (config : Config) : List Heading :=
  if config.loopComments then [(.comment, [])] else []

def visitHeadings (length : Nat) (body : List Action) (j : Int64) : List Heading :=
  (if 0 ≤ j.toInt then (Request.compare j.toInt.toNat (j.toInt.toNat + 1)).headings length else []) ++
    actionHeadings length body

namespace NestedLoops

variable (loops : NestedLoops) (config : Config) (length : Nat) (around : Surroundings)
  (body : List Action)

def markHeadings (stop : Int64) : List Heading :=
  if loops.innerStop = .shrinks && loops.guard.isConditional && 0 ≤ stop then
    (Request.sorted [stop.toInt.toNat]).headings length
  else []

def innerValues (stop : Int64) : List Int64 := { loops.inner with stop := stop : LoopRange }.values

def middleHeadings (i : Int64) : List Heading :=
  match loops.innerStop.value? (Int64.ofNat length) i with
  | some stop =>
    loopHeadings config ++ (loops.innerValues stop).flatMap (visitHeadings length body) ++
      loops.markHeadings length stop
  | none => []

def passHeadings (i : Int64) : List Heading :=
  actionHeadings length around.before ++ loops.middleHeadings config length body i ++
    actionHeadings length around.after

def headings : List Heading :=
  loopHeadings config ++ loops.outer.values.flatMap (loops.passHeadings config length around body)

variable {around body}

theorem headings_congr {around' : Surroundings} {body' : List Action}
    (before : requests around'.before = requests around.before)
    (after : requests around'.after = requests around.after)
    (asks : requests body' = requests body) :
    loops.headings config length around' body' = loops.headings config length around body := by
  have visits : visitHeadings length body' = visitHeadings length body := by
    funext j
    rw [visitHeadings, visitHeadings, actionHeadings, actionHeadings, asks]
  have passes : loops.passHeadings config length around' body' =
      loops.passHeadings config length around body := by
    funext i
    simp only [passHeadings, middleHeadings, visits, actionHeadings, before, after]
  rw [headings, headings, passes]

end NestedLoops

def nestedSchedule (config : Config) (w : Watch) (p : Program) (loops : NestedLoops) (length : Nat) :
    List Heading :=
  let sets := w.surroundings p.outline
  (.init, []) :: (actionHeadings length sets.before ++
    loops.headings config length (w.surroundings loops.outerLoop.body.outline)
      (w.bodyActions loops.innerLoop.body.statements) ++
    actionHeadings length sets.after) ++ [(.complete, [])]

namespace DryRun

variable {config : Config} {loops : NestedLoops} {around : Surroundings} {body : List Action}
  {s t : DryRun}

theorem performAll_follows (s : DryRun) (actions : List Action) :
    s.recorder.Follows (actionHeadings s.recorder.size actions) (s.performAll actions).recorder := by
  rw [performAll_recorder]
  exact .run s.recorder (requests actions)

theorem announce_follows (s : DryRun) (config : Config) (label : String) (range : LoopRange) :
    s.recorder.Follows (loopHeadings config) (s.announce config label range).recorder := by
  unfold announce loopHeadings
  split
  · exact .handle s.recorder (.comment _)
  · exact .refl s.recorder

theorem visitPair_follows (s : DryRun) (guard : Guard) (j : Int64) :
    s.recorder.Follows (if 0 ≤ j.toInt then
      (Request.compare j.toInt.toNat (j.toInt.toNat + 1)).headings s.recorder.size else [])
      (s.visitPair guard j).recorder := by
  split
  · rename_i natural
    rw [s.visitPair_natural guard natural]
    exact .exchangeIf s.recorder guard.asks _ _
  · rename_i negative
    rw [s.visitPair_negative guard (by omega)]
    exact .refl s.recorder

theorem visit_follows (s : DryRun) (loops : NestedLoops) (body : List Action) (i j : Int64) :
    s.recorder.Follows (visitHeadings s.recorder.size body j) (s.visit loops body i j).recorder := by
  let told := s.tell (.nestedIteration i j)
  have looked := told.visitPair_follows loops.guard j
  have acted := (told.visitPair loops.guard j).performAll_follows body
  rw [looked.size_eq] at acted
  exact looked.trans acted

theorem finishPass_follows (s : DryRun) (loops : NestedLoops) (stop : Int64) :
    s.recorder.Follows (loops.markHeadings s.recorder.size stop)
      (s.finishPass loops stop).recorder := by
  unfold finishPass NestedLoops.markHeadings
  split
  · rw [(s.markSorted_keeps _).1]
    exact .handle s.recorder (.sorted _)
  · exact .refl s.recorder

theorem iterate_follows {once : Int64 → DryRun → Except DryRun DryRun}
    (headings : Nat → Int64 → List Heading)
    (step : ∀ i s t, once i s = .ok t → s.recorder.Follows (headings s.recorder.size i) t.recorder)
    {count : Nat} {i : Int64} (ran : iterate once count i s = .ok t) :
    s.recorder.Follows ((consecutive count i).flatMap (headings s.recorder.size)) t.recorder := by
  induction count generalizing i s with
  | zero =>
    cases ran
    exact .refl _
  | succ count ih =>
    rw [iterate] at ran
    split at ran
    · rename_i u first
      have here := step i s u first
      have further := ih ran
      rw [here.size_eq] at further
      exact here.trans further
    · cases ran

theorem runInner_follows {i stop : Int64} (ran : s.runInner config loops body i stop = .ok t) :
    s.recorder.Follows (loopHeadings config ++
      (loops.innerValues stop).flatMap (visitHeadings s.recorder.size body)) t.recorder := by
  rw [runInner_eq] at ran
  have said := s.announce_follows config "inner" { loops.inner with stop := stop }
  have passed := iterate_follows (fun n => visitHeadings n body) (fun j s t once => by
    obtain ⟨counted, room, rest⟩ := ok_of_bind once
    cases rest
    have visited := counted.visit_follows loops body i j
    rwa [countStep_recorder room] at visited) ran
  have values : consecutive (rangeCount loops.inner.start stop) loops.inner.start =
      loops.innerValues stop := consecutive_range { loops.inner with stop := stop }
  rw [said.size_eq, values] at passed
  exact said.trans passed

theorem runMiddle_follows {i : Int64} (ran : s.runMiddle config loops body i = .ok t) :
    s.recorder.Follows (loops.middleHeadings config s.recorder.size body i) t.recorder := by
  unfold runMiddle at ran
  unfold NestedLoops.middleHeadings
  cases resolved : loops.innerStop.value? (Int64.ofNat s.recorder.size) i with
  | some stop =>
    rw [resolved] at ran
    obtain ⟨u, inner, finished⟩ := ok_of_bind ran
    cases finished
    have looped := runInner_follows inner
    have marked := u.finishPass_follows loops stop
    rw [looped.size_eq] at marked
    exact looped.trans marked
  | none =>
    rw [resolved] at ran
    cases ran
    exact .refl s.recorder

theorem runPass_follows {i : Int64} (ran : s.runPass config loops around body i = .ok t) :
    s.recorder.Follows (loops.passHeadings config s.recorder.size around body i) t.recorder := by
  rw [runPass_eq] at ran
  obtain ⟨counted, room, ran⟩ := ok_of_bind ran
  obtain ⟨u, middle, rest⟩ := ok_of_bind ran
  cases rest
  have before := counted.performAll_follows around.before
  have within := runMiddle_follows middle
  have after := u.performAll_follows around.after
  rw [within.size_eq, before.size_eq] at after
  rw [before.size_eq] at within
  rw [countStep_recorder room] at before within after
  exact (before.trans within).trans after

theorem runNested_follows (ran : s.runNested config loops around body = .ok t) :
    s.recorder.Follows (loops.headings config s.recorder.size around body) t.recorder := by
  let told := s.tellAll around.notices
  have said := told.announce_follows config "outer" loops.outer
  have passed := iterate_follows (fun n => loops.passHeadings config n around body)
    (fun i s t once => runPass_follows once) ran
  rw [said.size_eq, consecutive_range] at passed
  have whole := said.trans passed
  rw [(s.tellAll_keeps around.notices).1] at whole
  exact whole

theorem run_follows {w : Watch} {p : Program} (ran : s.run config w p (.nested loops) = .ok t) :
    s.recorder.Follows (actionHeadings s.recorder.size (w.surroundings p.outline).before ++
      loops.headings config s.recorder.size (w.surroundings loops.outerLoop.body.outline)
        (w.bodyActions loops.innerLoop.body.statements) ++
      actionHeadings s.recorder.size (w.surroundings p.outline).after) t.recorder := by
  obtain ⟨u, nested, rest⟩ := ok_of_bind ran
  cases rest
  let told := s.tellAll (w.surroundings p.outline).notices
  have before := told.performAll_follows (w.surroundings p.outline).before
  have within := runNested_follows nested
  have after := u.performAll_follows (w.surroundings p.outline).after
  rw [within.size_eq, before.size_eq] at after
  rw [before.size_eq] at within
  have whole := (before.trans within).trans after
  rw [(s.tellAll_keeps (w.surroundings p.outline).notices).1] at whole
  exact whole

end DryRun

theorem schedule_of_dryRun {config : Config} {p : Program} {a : TrackedArray} {loops : NestedLoops}
    {s : DryRun} (planned : LoopPlan.ofProgram p ⟨a.name, config.indexPolicy⟩ a.values.length =
      .nested loops) (ran : dryRun config p a = .ok s) :
    schedule s.recorder.finish.events =
      nestedSchedule config ⟨a.name, config.indexPolicy⟩ p loops a.values.length := by
  unfold dryRun at ran
  dsimp only at ran
  rw [planned] at ran
  have follows := DryRun.run_follows ran
  rw [Recorder.finish, schedule_append, follows.schedule_eq]
  rfl

theorem LoopRange.values_increasing (range : LoopRange) : range.values.Pairwise (· < ·) := by
  have low := range.start.le_toInt
  have high := range.stop.toInt_lt
  refine List.pairwise_map.mpr (List.pairwise_lt_range.imp_of_mem fun {k l} first second less => ?_)
  rw [List.mem_range] at first second
  rw [Int64.lt_iff_toInt_lt, Int64.toInt_ofInt_of_le (by omega) (by omega),
    Int64.toInt_ofInt_of_le (by omega) (by omega)]
  omega

/-- The values of the outer and the inner variable at which neighbours inside an array are compared, in
the order of the iterations. -/
def NestedLoops.pairs (loops : NestedLoops) (length : Nat) : List (Int64 × Int64) :=
  loops.outer.values.flatMap fun i =>
    match loops.innerStop.value? (Int64.ofNat length) i with
    | some stop =>
      ((loops.innerValues stop).filter fun j : Int64 =>
        0 ≤ j.toInt ∧ j.toInt + 1 < length).map fun j => (i, j)
    | none => []

def neighbours (j : Int64) : List Nat := [j.toInt.toNat, j.toInt.toNat + 1]

namespace NestedLoops

variable (loops : NestedLoops) (length : Nat)

theorem mem_pairs {i j : Int64} : (i, j) ∈ loops.pairs length ↔
    loops.outer.start ≤ i ∧ i < loops.outer.stop ∧
    ∃ stop, loops.innerStop.value? (Int64.ofNat length) i = some stop ∧
      loops.inner.start ≤ j ∧ j < stop ∧ 0 ≤ j ∧ j.toInt + 1 < length := by
  simp only [Int64.le_iff_toInt_le, Int64.lt_iff_toInt_lt, Int64.toInt_zero]
  rw [pairs, List.mem_flatMap]
  constructor
  · rintro ⟨i', pass, member⟩
    cases resolved : loops.innerStop.value? (Int64.ofNat length) i' with
    | none => simp [resolved] at member
    | some stop =>
      simp only [resolved, List.mem_map, List.mem_filter, decide_eq_true_eq, Prod.mk.injEq] at member
      obtain ⟨j', ⟨visited, natural, inside⟩, rfl, rfl⟩ := member
      obtain ⟨above, below⟩ := LoopRange.mem_values.mp pass
      obtain ⟨above', below'⟩ := LoopRange.mem_values.mp visited
      exact ⟨above, below, stop, resolved, above', below', natural, inside⟩
  · rintro ⟨above, below, stop, resolved, above', below', natural, inside⟩
    refine ⟨i, LoopRange.mem_values.mpr ⟨above, below⟩, ?_⟩
    rw [resolved]
    refine List.mem_map.mpr ⟨j, List.mem_filter.mpr ⟨?_, decide_eq_true ⟨natural, inside⟩⟩, rfl⟩
    exact LoopRange.mem_values.mpr ⟨above', below'⟩

theorem pairs_increasing : (loops.pairs length).Pairwise (Prod.Lex (· < ·) (· < ·)) := by
  refine List.pairwise_flatMap.mpr ⟨fun i _ => ?_, ?_⟩
  · cases loops.innerStop.value? (Int64.ofNat length) i with
    | none => exact .nil
    | some stop =>
      refine List.pairwise_map.mpr (List.Pairwise.filter _ ?_)
      exact (LoopRange.values_increasing _).imp fun less => .right i less
  · refine loops.outer.values_increasing.imp fun {i i'} less x member y member' => ?_
    have first : x.1 = i := by
      cases resolved : loops.innerStop.value? (Int64.ofNat length) i <;>
        simp only [resolved, List.not_mem_nil, List.mem_map] at member
      obtain ⟨j, -, rfl⟩ := member
      rfl
    have second : y.1 = i' := by
      cases resolved : loops.innerStop.value? (Int64.ofNat length) i' <;>
        simp only [resolved, List.not_mem_nil, List.mem_map] at member'
      obtain ⟨j, -, rfl⟩ := member'
      rfl
    rw [Prod.lex_def, first, second]
    exact .inl less

end NestedLoops

theorem comparedAt_actionHeadings (length : Nat) {actions : List Action}
    (quiet : ∀ q ∈ requests actions, q.kind ≠ .compare) :
    comparedAt (actionHeadings length actions) = [] := by
  refine comparedAt_other fun h member => ?_
  obtain ⟨q, asked, member⟩ := List.mem_flatMap.mp member
  rw [Request.headings_kind member]
  exact quiet q asked

theorem comparedAt_loopHeadings (config : Config) : comparedAt (loopHeadings config) = [] := by
  unfold loopHeadings
  split <;> rfl

theorem comparedAt_markHeadings (loops : NestedLoops) (length : Nat) (stop : Int64) :
    comparedAt (loops.markHeadings length stop) = [] := by
  refine comparedAt_other fun h member => ?_
  unfold NestedLoops.markHeadings at member
  split at member
  · simp [Request.headings_kind member, Request.kind]
  · cases member

theorem comparedAt_visitHeadings (length : Nat) {body : List Action}
    (quiet : ∀ q ∈ requests body, q.kind ≠ .compare) (j : Int64) :
    comparedAt (visitHeadings length body j) =
      if 0 ≤ j.toInt ∧ j.toInt + 1 < length then [neighbours j] else [] := by
  rw [visitHeadings, comparedAt_append, comparedAt_actionHeadings length quiet, List.append_nil]
  by_cases natural : 0 ≤ j.toInt
  · have accepted : (∀ i ∈ [j.toInt.toNat, j.toInt.toNat + 1], i < length) ↔
        j.toInt + 1 < length := by
      simp only [List.forall_mem_cons, List.not_mem_nil, false_implies, implies_true, and_true]
      omega
    rw [if_pos natural]
    simp only [Request.headings, Request.kind, Request.positions, accepted, natural, true_and,
      ne_eq, reduceCtorEq, not_false_eq_true]
    split <;> rfl
  · rw [if_neg natural, if_neg fun both => natural both.1]
    rfl

theorem neighbours_visited (length : Nat) (i : Int64) (js : List Int64) :
    (js.flatMap fun j : Int64 => if 0 ≤ j.toInt ∧ j.toInt + 1 < length then [neighbours j] else []) =
      ((js.filter fun j : Int64 => 0 ≤ j.toInt ∧ j.toInt + 1 < length).map fun j => (i, j)).map
        fun x => neighbours x.2 := by
  induction js with
  | nil => rfl
  | cons j rest ih =>
    rw [List.flatMap_cons, ih, List.filter_cons]
    simp only [decide_eq_true_eq]
    split <;> rfl

namespace NestedLoops

variable (loops : NestedLoops) (config : Config) (length : Nat) {around : Surroundings}
  {body : List Action}

theorem comparedAt_headings (before : ∀ q ∈ requests around.before, q.kind ≠ .compare)
    (after : ∀ q ∈ requests around.after, q.kind ≠ .compare)
    (quiet : ∀ q ∈ requests body, q.kind ≠ .compare) :
    comparedAt (loops.headings config length around body) =
      (loops.pairs length).map fun x => neighbours x.2 := by
  rw [headings, comparedAt_append, comparedAt_loopHeadings, List.nil_append, comparedAt_flatMap,
    pairs, List.map_flatMap]
  refine List.flatMap_congr fun i _ => ?_
  rw [passHeadings, comparedAt_append, comparedAt_append, comparedAt_actionHeadings length before,
    comparedAt_actionHeadings length after, List.nil_append, List.append_nil, middleHeadings]
  cases loops.innerStop.value? (Int64.ofNat length) i with
  | none => rfl
  | some stop =>
    simp only [comparedAt_append, comparedAt_loopHeadings, comparedAt_markHeadings,
      List.nil_append, List.append_nil, comparedAt_flatMap, comparedAt_visitHeadings length quiet]
    exact neighbours_visited length i (loops.innerValues stop)

end NestedLoops

theorem bodyActions_changes (w : Watch) (stmts : List Stmt) :
    ∀ q ∈ requests (w.bodyActions stmts), q.kind ≠ .compare := by
  intro q member
  rw [Watch.bodyActions, requests_flatMap] at member
  obtain ⟨s, -, member⟩ := List.mem_flatMap.mp member
  cases s with
  | expr e _ =>
    rw [requests_append, requests_tells, List.nil_append] at member
    cases shape : w.pattern e <;>
      simp [shape, Pattern.changes, requests, Action.request?] at member <;>
      simp [member, Request.kind]
  | _ => cases member

theorem surroundings_quiet (w : Watch) (o : Outline) :
    (∀ q ∈ requests (w.surroundings o).before, q.kind ≠ .compare) ∧
      ∀ q ∈ requests (w.surroundings o).after, q.kind ≠ .compare := by
  obtain ⟨before, after⟩ := @surroundings_sets w o
  exact ⟨fun q member => by simp [before q member], fun q member => by simp [after q member]⟩

theorem comparedAt_nestedSchedule (config : Config) (w : Watch) (p : Program) (loops : NestedLoops)
    (length : Nat) : comparedAt (nestedSchedule config w p loops length) =
      (loops.pairs length).map fun x => neighbours x.2 := by
  obtain ⟨before, after⟩ := surroundings_quiet w p.outline
  obtain ⟨innerBefore, innerAfter⟩ := surroundings_quiet w loops.outerLoop.body.outline
  have frame (headings : List Heading) :
      comparedAt ((.init, []) :: headings ++ [(.complete, [])]) = comparedAt headings := by
    rw [comparedAt_append]
    exact List.append_nil _
  rw [nestedSchedule, frame, comparedAt_append, comparedAt_append,
    comparedAt_actionHeadings length before, comparedAt_actionHeadings length after,
    List.nil_append, List.append_nil]
  exact loops.comparedAt_headings config length innerBefore innerAfter (bodyActions_changes w _)

end Synthesis

end SortTrace
