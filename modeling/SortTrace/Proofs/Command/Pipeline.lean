import SortTrace.Proofs.Sorting.Sorted
import SortTrace.Proofs.Synthesis.Addressing
import SortTrace.Proofs.Wire.RoundTrip

/-!
What the commands print is what they read: a trace that is printed whole is read back by `replay`, which
goes through all its steps and ends in the array that the trace was recorded on.
-/

namespace SortTrace.Command

open Synthesis Wire

/-- A text is replayed as a trace: as a whole to some final array, and up to each step the trace has, but
to no other. -/
structure ReplaysTo (text : String) (t : Trace) (final : List Int64) : Prop where
  sent : sentMessage? text = some (.whole t)
  whole : ∀ verbosity file, CommandLine.run ⟨verbosity, .replay file none⟩ (.ok text) =
    ⟨0, (ofInt64s final).compact ++ "\n", []⟩
  inside : ∀ verbosity file step, step < t.length →
    (CommandLine.run ⟨verbosity, .replay file (some step)⟩ (.ok text)).exitCode = 0
  outside : ∀ verbosity file step, t.length ≤ step →
    (CommandLine.run ⟨verbosity, .replay file (some step)⟩ (.ok text)).exitCode = 1

theorem sentMessage?_printed {t : Trace} (sendable : t.Sendable) :
    sentMessage? (traceOutput t false) = some (.whole t) := by
  have whole : (Message.whole t).Sendable := sendable
  have read := Json.ofText?_prettyLine (Message.within_maxDepth whole)
  have bare : Trace.ofJson? .held (Message.whole t).toJson = none := rfl
  have message := Message.ofJson?_toJson whole .held
  simp only [traceOutput, Bool.false_eq_true, if_false, sentMessage?, read, Option.bind_eq_bind,
    Option.bind_some, bare, message]

theorem replayReport_sent {text : String} {t : Trace} (sent : sentMessage? text = some (.whole t))
    (step : Option Nat) : replayReport step text =
      match step.elim t.replay t.stateAt with
      | .ok values => ⟨0, (ofInt64s values).compact ++ "\n", []⟩
      | .error e => ⟨1, "", [s!"Replay failed: {e.message}"]⟩ := by
  cases step <;> simp only [replayReport, sent] <;> rfl

theorem replaysTo_printed {array : List Int64} {r : Recorder}
    (printable : Recorder.Printable array r) :
    ReplaysTo (traceOutput r.finish false) r.finish r.array := by
  obtain ⟨inner, faithful⟩ := printable.faithful
  have sent := sentMessage?_printed printable.sendable
  have length : r.finish.length = inner.length + 2 := by
    simp [faithful.finish_eq, Trace.length, framed]
  refine ⟨sent, fun _ _ => ?_, fun _ _ step inside => ?_, fun _ _ step outside => ?_⟩
  · have report := replayReport_sent sent none
    simp only [Option.elim, faithful.replay_eq] at report
    exact report
  · have reached : r.finish.stateAt step = .ok (arrayAfter array (inner.take step)) := by
      rw [faithful.finish_eq]
      exact Recorder.stateAt_framed array inner faithful.replays step (by omega)
    have report := replayReport_sent sent (some step)
    simp only [Option.elim, reached] at report
    exact congrArg Report.exitCode report
  · have failed := (r.finish.stateAt_outside step).mpr outside
    have report := replayReport_sent sent (some step)
    simp only [Option.elim, failed] at report
    exact congrArg Report.exitCode report

theorem synthReport_cases (verbosity : Nat) (config : Config) (text : String) :
    let report := synthReport verbosity config false text
    report.output = "" ∧ report.exitCode ≠ 0 ∨
      ∃ p a s, Script.Program.ofText text = .ok p ∧ TrackedArray.ofProgram p = .ok a ∧
        dryRun config p a = .ok s ∧ report.exitCode = 0 ∧
        report.output = traceOutput s.recorder.finish false := by
  have same (p : Script.Program) (a : TrackedArray) :
      Alike (fun s s' => s' = s) (dryRun config p a) (dryRun config p a) := by
    cases dryRun config p a with
    | ok s => exact .ok rfl
    | error s => exact .error
  rcases synthesize_alike text rfl (fun p a _ _ => same p a) with
    ⟨e, failed, -⟩ | ⟨p, a, s, _, both⟩
  · refine .inl ?_
    simp only [synthReport, failed]
    cases e <;> simp
  · refine .inr ⟨p, a, s, both.read, both.tracked, both.ran, ?_⟩
    simp only [synthReport, both.made, and_self]

/-- Whatever script and options `synth` is given, it prints nothing or what `replay` takes, and then
`replay` ends in the array at the end of the dry run. What `generate` prints for a list of values is
replayed to the same values in ascending order, if 64 bits can name their positions. -/
theorem run_replayed (verbosity : Nat) :
    (∀ file config text,
      let report := CommandLine.run ⟨verbosity, .synth file config false⟩ (.ok text)
      (report.exitCode ≠ 0 → report.output = "") ∧
      (report.exitCode = 0 → ∃ p a s,
        Script.Program.ofText text = .ok p ∧ TrackedArray.ofProgram p = .ok a ∧
        dryRun config p a = .ok s ∧
        ReplaysTo report.output s.recorder.finish s.recorder.array)) ∧
    (∀ name a values seed input, Sorting.Algorithm.ofText? name = some a →
      values.length ≤ 2 ^ 64 →
      let report := CommandLine.run ⟨verbosity, .generate name values none seed false⟩ input
      report.exitCode = 0 ∧ ∃ sorted, sorted.Perm values ∧ sorted.Pairwise (· ≤ ·) ∧
        ReplaysTo report.output (a.trace values) sorted) := by
  constructor
  · intro file config text report
    rcases synthReport_cases verbosity config text with
      ⟨silent, failed⟩ | ⟨p, a, s, read, tracked, ran, done, printed⟩
    · exact ⟨fun _ => silent, fun done => absurd done failed⟩
    · refine ⟨fun failed => absurd done failed, fun _ => ⟨p, a, s, read, tracked, ran, ?_⟩⟩
      have replays := replaysTo_printed (dryRun_printable ran)
      rw [← printed] at replays
      exact replays
  · intro name a values seed input named small report
    obtain ⟨⟨⟨inner, faithful⟩, perm⟩, ascending⟩ :=
      a.sort_sorts values (.start values) (.start values)
    have generated : report = generateReport verbosity name values none seed false := by
      cases input <;> rfl
    have replays := replaysTo_printed (Recorder.printable_of_length faithful small)
    rw [generated]
    simp only [generateReport, named]
    exact ⟨trivial, _, perm, ascending, replays⟩

def overwritingText : String := "let a=[2,1];for(let i=0;i<2;i++)a[0]=7;"

theorem run_replayed_overwriting :
    (CommandLine.run ⟨0, .synth none {} false⟩ (.ok overwritingText)).exitCode = 0 ∧
    (∃ t, ReplaysTo (CommandLine.run ⟨0, .synth none {} false⟩ (.ok overwritingText)).output t
      [7, 1]) ∧
    ∃ sorted, sorted.Perm [3, -1, 2] ∧ sorted.Pairwise (· ≤ ·) ∧
      ReplaysTo (CommandLine.run ⟨0, .generate "Bubble-Sort" [3, -1, 2] none 0 false⟩ (.ok "")).output
        (Sorting.Algorithm.bubble.trace [3, -1, 2]) sorted := by
  obtain ⟨synth, generate⟩ := run_replayed 0
  have done : (CommandLine.run ⟨0, .synth none {} false⟩ (.ok overwritingText)).exitCode = 0 := by
    decide +kernel
  obtain ⟨p, a, s, read, tracked, ran, replays⟩ := (synth none {} overwritingText).2 done
  have seen : ((Script.Program.ofText overwritingText).toOption.bind fun p =>
      (TrackedArray.ofProgram p).toOption.bind fun a =>
        (dryRun {} p a).toOption.map fun s => s.recorder.array) = some [7, 1] := by decide +kernel
  simp only [read, tracked, ran, Except.toOption, Option.bind_some, Option.map_some,
    Option.some.injEq] at seen
  rw [seen] at replays
  obtain ⟨-, sorted⟩ := generate "Bubble-Sort" .bubble [3, -1, 2] 0 (.ok "") rfl (by decide)
  exact ⟨done, ⟨_, replays⟩, sorted⟩

end SortTrace.Command
