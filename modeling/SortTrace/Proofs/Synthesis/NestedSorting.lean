import SortTrace.Proofs.Script.Earlier
import SortTrace.Proofs.Sorting.LongSweep
import SortTrace.Proofs.Synthesis.LoopSteps
import SortTrace.Proofs.Synthesis.OperandOrder

/-!
What two loops make of an array if nothing but their guard changes it: each pass is a sweep, and passes
from the first position on that do not stop too early sort by the relation of the guard, whatever
superfluous passes come before or behind them.
-/

namespace SortTrace.Synthesis

open Script Sorting

/-- How many pairs of an array a pass compares: none if its end does not resolve. -/
def NestedLoops.reach (loops : NestedLoops) (length : Nat) (i : Int64) : Nat :=
  match loops.innerStop.value? (Int64.ofNat length) i with
  | some stop => min stop.toInt.toNat (length - 1)
  | none => 0

namespace DryRun

variable {s t : DryRun} {config : Config} {loops : NestedLoops} {body : List Action}

def Swept (asked : Int64 → Int64 → Bool) (r : Recorder) (j : Int) (s : DryRun) : Prop :=
  s.recorder.array = (sweep asked r (min j.toNat (r.size - 1))).array

theorem Swept.visit {r : Recorder} (quiet : ∀ a ∈ body, ∃ n, a = .tell n) {i j : Int64}
    (swept : Swept loops.guard.asks r j.toInt s) :
    Swept loops.guard.asks r (j.toInt + 1) (s.visit loops body i j) := by
  unfold Swept at swept ⊢
  rw [DryRun.visit, performAll_tells _ quiet]
  rcases Int.lt_or_le j.toInt 0 with negative | natural
  · rw [visitPair_negative _ loops.guard negative, show (j.toInt + 1).toNat = j.toInt.toNat by omega]
    exact swept
  have next : (j.toInt + 1).toNat = j.toInt.toNat + 1 := by omega
  have size : s.recorder.size = r.size := by
    rw [Recorder.size, swept]
    exact sweep_size loops.guard.asks r _
  rw [visitPair_natural _ loops.guard natural, next]
  generalize j.toInt.toNat = k at swept
  rcases Nat.lt_or_ge (k + 1) r.size with inside | outside
  · rw [show min k (r.size - 1) = k by omega] at swept
    rw [show min (k + 1) (r.size - 1) = k + 1 by omega, sweep_succ]
    exact Recorder.exchangeIf_congr loops.guard.asks swept k (k + 1)
  · rw [show min (k + 1) (r.size - 1) = min k (r.size - 1) by omega, ← swept]
    exact s.recorder.exchangeIf_outside loops.guard.asks (size ▸ outside)

theorem announce_array (s : DryRun) (config : Config) (label : String) (range : LoopRange) :
    (s.announce config label range).recorder.array = s.recorder.array := by
  rw [(s.announce_keeps config label range).1]
  exact (announced_comments config label range).array_eq s.recorder

theorem runInner_array (quiet : ∀ a ∈ body, ∃ n, a = .tell n) (start : loops.inner.start.toInt ≤ 0)
    {i stop : Int64} (ran : s.runInner config loops body i stop = .ok t) :
    t.recorder.array = (sweep loops.guard.asks s.recorder
      (min stop.toInt.toNat (s.recorder.size - 1))).array := by
  rw [runInner_eq] at ran
  have nothing : Swept loops.guard.asks s.recorder loops.inner.start.toInt
      (s.announce config "inner" { loops.inner with stop := stop }) := by
    rw [Swept, Int.toNat_of_nonpos start, Nat.zero_min]
    exact s.announce_array ..
  have swept := iterate_range (Swept loops.guard.asks s.recorder) nothing (fun j u v _ _ swept once => by
    obtain ⟨counted, room, rest⟩ := ok_of_bind once
    cases rest
    rw [Swept, ← countStep_recorder room] at swept
    exact Swept.visit quiet swept) ran
  rw [Swept] at swept
  rwa [show (max loops.inner.start.toInt stop.toInt).toNat = stop.toInt.toNat by omega] at swept

theorem finishPass_array (s : DryRun) (loops : NestedLoops) (stop : Int64) :
    (s.finishPass loops stop).recorder.array = s.recorder.array := by
  unfold finishPass
  split
  · rw [(s.markSorted_keeps _).1]
    exact s.recorder.sorted_array _
  · rfl

theorem runMiddle_array (quiet : ∀ a ∈ body, ∃ n, a = .tell n) (start : loops.inner.start.toInt ≤ 0)
    {i : Int64} (ran : s.runMiddle config loops body i = .ok t) : t.recorder.array =
      (sweep loops.guard.asks s.recorder (loops.reach s.recorder.size i)).array := by
  unfold runMiddle at ran
  unfold NestedLoops.reach
  cases resolved : loops.innerStop.value? (Int64.ofNat s.recorder.size) i with
  | none =>
    rw [resolved] at ran
    cases ran
    rfl
  | some stop =>
    rw [resolved] at ran
    obtain ⟨u, inner, rest⟩ := ok_of_bind ran
    cases rest
    rw [finishPass_array]
    exact runInner_array quiet start inner

theorem runPass_array {around : Surroundings} (before : around.before = []) (after : around.after = [])
    (quiet : ∀ a ∈ body, ∃ n, a = .tell n) (start : loops.inner.start.toInt ≤ 0) {i : Int64}
    (ran : s.runPass config loops around body i = .ok t) : t.recorder.array =
      (sweep loops.guard.asks s.recorder (loops.reach s.recorder.size i)).array := by
  rw [runPass_eq, before, after] at ran
  obtain ⟨counted, room, ran⟩ := ok_of_bind ran
  obtain ⟨u, middle, rest⟩ := ok_of_bind ran
  cases rest
  have swept := runMiddle_array quiet start middle
  rw [← countStep_recorder room]
  exact swept

end DryRun

theorem exactSub?_fits {a b : Int64} (low : -2 ^ 63 ≤ a.toInt - b.toInt)
    (high : a.toInt - b.toInt < 2 ^ 63) :
    ∃ d, exactSub? a b = some d ∧ d.toInt = a.toInt - b.toInt := by
  refine ⟨Int64.ofInt (a.toInt - b.toInt), ?_, Int64.toInt_ofInt_of_le low high⟩
  simp only [exactSub?]
  rw [if_pos ⟨low, high⟩]

theorem NestedLoops.reach_far (loops : NestedLoops) {length : Nat} (bound : length < 2 ^ 63) {i : Int64}
    (natural : 0 ≤ i.toInt) : length - i.toInt.toNat ≤ loops.reach length i + 1 := by
  have whole := Int64.toInt_ofNat_of_lt bound
  have one : (1 : Int64).toInt = 1 := rfl
  have below := i.toInt_lt
  obtain ⟨last, found, value⟩ := exactSub?_fits (a := Int64.ofNat length) (b := 1) (by omega) (by omega)
  unfold reach InnerStop.value?
  rw [found]
  cases loops.innerStop with
  | fixed =>
    show length - i.toInt.toNat ≤ min last.toInt.toNat (length - 1) + 1
    omega
  | shrinks =>
    obtain ⟨stop, resolved, stops⟩ := exactSub?_fits (a := last) (b := i) (by omega) (by omega)
    simp only [bind, Option.bind, resolved]
    omega

theorem NestedLoops.reach_lt (loops : NestedLoops) {length : Nat} (positive : 0 < length) (i : Int64) :
    loops.reach length i < length := by
  unfold reach
  split <;> omega

namespace DryRun

variable {s t : DryRun} {config : Config} {loops : NestedLoops} {around : Surroundings}
  {body : List Action}

theorem entry_array (s : DryRun) (config : Config) (notices : List Notice) (range : LoopRange) :
    ((s.tellAll notices).announce config "outer" range).recorder.array = s.recorder.array := by
  rw [announce_array, (s.tellAll_keeps notices).1]

section

variable (before : around.before = []) (after : around.after = [])
  (quiet : ∀ a ∈ body, ∃ n, a = .tell n) (innerStart : loops.inner.start.toInt ≤ 0)

include before after quiet innerStart

theorem runPass_settles {rank : Int → Int} (ranks : Ranks rank loops.guard.asks)
    (bound : s.recorder.size < 2 ^ 63) {i : Int64}
    (settled : SettledFrom rank s.recorder.array (s.recorder.size - i.toInt.toNat))
    (ran : s.runPass config loops around body i = .ok t) :
    SettledFrom rank t.recorder.array (s.recorder.size - (i.toInt + 1).toNat) := by
  rw [runPass_array before after quiet innerStart ran]
  rcases Int.lt_or_le i.toInt 0 with negative | natural
  · -- No position is settled yet.
    intro p q below behind inArray
    have size := sweep_size loops.guard.asks s.recorder (loops.reach s.recorder.size i)
    rw [Recorder.size] at size
    omega
  rcases Nat.eq_zero_or_pos s.recorder.size with empty | positive
  · intro p q below behind inArray
    have size := sweep_size loops.guard.asks s.recorder (loops.reach s.recorder.size i)
    rw [Recorder.size] at size
    omega
  · have swept := settled.sweep ranks (loops.reach_far bound natural) (loops.reach_lt positive i)
    rwa [show s.recorder.size - (i.toInt + 1).toNat = s.recorder.size - i.toInt.toNat - 1 by omega]

theorem runNested_settles {rank : Int → Int} (ranks : Ranks rank loops.guard.asks)
    (bound : s.recorder.size < 2 ^ 63) (outerStart : loops.outer.start.toInt ≤ 0)
    (ran : s.runNested config loops around body = .ok t) :
    t.recorder.array.Perm s.recorder.array ∧ SettledFrom rank t.recorder.array
      (s.recorder.size - (max loops.outer.start.toInt loops.outer.stop.toInt).toNat) := by
  let Passed (i : Int) (u : DryRun) : Prop := u.recorder.array.Perm s.recorder.array ∧
    SettledFrom rank u.recorder.array (s.recorder.size - i.toNat)
  refine iterate_range Passed ⟨?_, ?_⟩ (fun i u v _ _ passed once => ?_) ran
  · rw [entry_array]
  · rw [entry_array, Int.toNat_of_nonpos outerStart]
    intro p q below behind inArray
    exact absurd inArray (Nat.not_lt.mpr behind)
  · obtain ⟨perm, settled⟩ := passed
    have size : u.recorder.size = s.recorder.size := perm.length_eq
    refine ⟨?_, ?_⟩
    · rw [runPass_array before after quiet innerStart once]
      exact (sweep_perm loops.guard.asks u.recorder _).trans perm
    · rw [← size] at settled bound ⊢
      exact runPass_settles before after quiet innerStart ranks bound settled once

theorem runNested_absent (absent : loops.guard = .absent)
    (ran : s.runNested config loops around body = .ok t) : t.recorder.array = s.recorder.array := by
  refine iterate_range (fun _ u => u.recorder.array = s.recorder.array) (entry_array ..)
    (fun i u v _ _ same once => ?_) ran
  rw [runPass_array before after quiet innerStart once, absent]
  exact (sweep_never u.recorder _).trans same

end

end DryRun

namespace Watch

variable {w : Watch}

theorem overwritten_nil {nodes : List Node}
    (none : ∀ e ∈ nodes.filterMap Node.expr?, (w.pattern e).isSet = false) :
    w.overwritten nodes = [] := by
  refine List.flatMap_eq_nil_iff.mpr fun e member => ?_
  have other := none e member
  cases pattern : w.pattern e with
  | set i value =>
    rw [pattern] at other
    cases other
  | _ => rfl

section

variable {o : Outline} (genuine : o.Genuine)

include genuine

theorem surroundings_before_none
    (none : ∀ e ∈ (o.aroundLoop Node.isFunc).1.filterMap Node.expr?, (w.pattern e).isSet = false) :
    (w.surroundings o).before = [] := by
  have earlier : Outline.Earlier Node.isFunc w.stopsAtSets := Outline.earlier_stopsAt _
  obtain ⟨front, -⟩ := Outline.aroundLoop_sublist earlier (fun _ => rfl) genuine
  rw [surroundings_before]
  exact overwritten_nil fun e member => none e ((front.filterMap Node.expr?).subset member)

theorem surroundings_after_none
    (none : ∀ e ∈ (o.aroundLoop Node.isFunc).2.filterMap Node.expr?, (w.pattern e).isSet = false) :
    (w.surroundings o).after = [] := by
  have earlier : Outline.Earlier Node.isFunc w.stopsAtSets := Outline.earlier_stopsAt _
  obtain ⟨-, back⟩ := Outline.aroundLoop_sublist earlier (fun _ => rfl) genuine
  rw [surroundings_after]
  exact overwritten_nil fun e member => none e ((back.filterMap Node.expr?).subset member)

theorem surroundings_none (none : ∀ e ∈ o.exprsAround, (w.pattern e).isSet = false) :
    (w.surroundings o).before = [] ∧ (w.surroundings o).after = [] := by
  rw [Outline.exprsAround, List.filterMap_append] at none
  obtain ⟨noneBefore, noneAfter⟩ := List.forall_mem_append.mp none
  exact ⟨surroundings_before_none genuine noneBefore, surroundings_after_none genuine noneAfter⟩

end

theorem bodyActions_tells {stmts : List Stmt} (none : ∀ s ∈ stmts, (w.stmtPattern s).changes = []) :
    ∀ a ∈ w.bodyActions stmts, ∃ n, a = .tell n := by
  intro a member
  obtain ⟨s, inside, member⟩ := List.mem_flatMap.mp member
  have other := none s inside
  cases s with
  | expr e span =>
    rw [stmtPattern] at other
    dsimp only at member
    rw [other, List.append_nil] at member
    obtain ⟨n, -, rfl⟩ := List.mem_map.mp member
    exact ⟨n, rfl⟩
  | _ => cases member

end Watch

namespace DryRun

/-- Two loops without swaps and sets of their own sort the array by the relation of their guard, if the
inner range starts at the first position or before and the outer one covers all positions but one. Each
of the two may go further, and it does not matter whether passes get shorter. -/
theorem runLoops_sorts {s t : DryRun} {config : Config} {w : Watch} {loops : NestedLoops}
    (bound : s.recorder.size < 2 ^ 63) (innerStart : loops.inner.start.toInt ≤ 0)
    (outerStart : loops.outer.start.toInt ≤ 0)
    (outerStop : (s.recorder.size : Int) - 1 ≤ loops.outer.stop.toInt)
    (direct : ∀ st ∈ loops.innerLoop.body.statements, (w.stmtPattern st).changes = [])
    (around : ∀ e ∈ loops.outerLoop.body.outline.exprsAround, (w.pattern e).isSet = false)
    (ran : s.runLoops config w (.nested loops) = .ok t) :
    (loops.guard = .holding .gt ∨ loops.guard = .holding .ge →
      t.recorder.array.Perm s.recorder.array ∧ t.recorder.array.Pairwise (· ≤ ·)) ∧
    (loops.guard = .holding .lt ∨ loops.guard = .holding .le →
      t.recorder.array.Perm s.recorder.array ∧ t.recorder.array.Pairwise (· ≥ ·)) ∧
    (loops.guard = .absent → t.recorder.array = s.recorder.array) := by
  obtain ⟨before, after⟩ := Watch.surroundings_none loops.outerLoop.body.genuine around
  have quiet := Watch.bodyActions_tells direct
  have sorted {rank : Int → Int} (ranks : Ranks rank loops.guard.asks) :
      t.recorder.array.Perm s.recorder.array ∧ ∀ p q, p < q → q < t.recorder.array.length →
        rank (valueAt t.recorder.array p) ≤ rank (valueAt t.recorder.array q) := by
    obtain ⟨perm, settled⟩ := runNested_settles before after quiet innerStart ranks bound outerStart ran
    exact ⟨perm, settled.ordered (by omega)⟩
  have up {r : Relation} (guard : loops.guard = .holding r) (ascends : r.Ascends) :
      t.recorder.array.Perm s.recorder.array ∧ t.recorder.array.Pairwise (· ≤ ·) := by
    obtain ⟨perm, ordered⟩ := @sorted id (guard ▸ ascends)
    exact ⟨perm, pairwise_of_valueAt _ ordered⟩
  have down {r : Relation} (guard : loops.guard = .holding r) (descends : r.Descends) :
      t.recorder.array.Perm s.recorder.array ∧ t.recorder.array.Pairwise (· ≥ ·) := by
    obtain ⟨perm, ordered⟩ := @sorted Neg.neg (guard ▸ descends)
    exact ⟨perm, pairwise_descending _ ordered⟩
  refine ⟨?_, ?_, fun absent => runNested_absent before after quiet innerStart absent ran⟩
  · rintro (guard | guard)
    · exact up guard Relation.ascends_gt
    · exact up guard Relation.ascends_ge
  · rintro (guard | guard)
    · exact down guard Relation.ascends_gt.mirror
    · exact down guard Relation.ascends_ge.mirror

def wideLoops : NestedLoops :=
  { (GuardedScript.twoNumbers 2 1).loops 3 with outer := ⟨none, -1, 5⟩, inner := ⟨none, -2, 0⟩ }

theorem runLoops_sorts_wide : ∃ t : DryRun,
    ({ recorder := .start [3, 1, 2] } : DryRun).runLoops {} ⟨"arr", .placeholder⟩ (.nested wideLoops) =
      .ok t ∧ t.recorder.array.Perm [3, 1, 2] ∧ t.recorder.array.Pairwise (· ≤ ·) := by
  have runs : ((({ recorder := .start [3, 1, 2] } : DryRun).runLoops {} ⟨"arr", .placeholder⟩
      (.nested wideLoops)).toOption.map fun _ => true) = some true := by decide +kernel
  obtain ⟨t, found, -⟩ := Option.map_eq_some_iff.mp runs
  have ran := ok_of_toOption found
  have small : (Recorder.start [3, 1, 2]).size < 2 ^ 63 := by decide
  obtain ⟨up, -, -⟩ := runLoops_sorts small (by decide +kernel) (by decide +kernel)
    (by decide +kernel) (by decide +kernel) (by decide +kernel) ran
  exact ⟨t, ran, up (.inl rfl)⟩

end DryRun

end SortTrace.Synthesis
