import SortTrace.Command.Run
import SortTrace.Proofs.Wire.Messages

/-!
Messages go through their texts and back. The compact text of a message is one line, so that the lines
of a stream are its messages.
-/

namespace SortTrace

open Wire

namespace Wire

theorem digitChar_ne_newline : ∀ d < 16, '\n' ≠ Nat.digitChar d := by decide

theorem escapeChar_oneLine (c : Char) : '\n' ∉ escapeChar c := by
  unfold escapeChar
  repeat' split
  -- Only the hexadecimal digits of a control character and a bare character are not fixed.
  any_goals decide
  · rename_i low
    have first := digitChar_ne_newline (c.toNat / 16) (by omega)
    have second := digitChar_ne_newline (c.toNat % 16) (by omega)
    simp [first, second]
  · rename_i other _ _ _
    simpa using Ne.symm other

theorem stringChars_oneLine (s : String) : '\n' ∉ stringChars s := by
  simp [stringChars, escapeChar_oneLine]

theorem intChars_oneLine (n : Int) : '\n' ∉ intChars n := by
  have digits (m : Nat) : '\n' ∉ Nat.toDigits 10 m := fun member =>
    absurd (Numeral.isDigit_toDigits _ member) (by decide)
  cases n with
  | ofNat m => exact digits m
  | negSucc m => simpa [intChars] using digits (m + 1)

namespace Json

theorem compactItems_oneLine {xs : List Json} (items : ∀ x ∈ xs, '\n' ∉ x.compactChars) :
    '\n' ∉ compactItems xs := by
  induction xs with
  | nil => simp [compactItems]
  | cons x xs ih =>
    obtain ⟨first, others⟩ := List.forall_mem_cons.mp items
    simp [compactItems, first, ih others]

theorem compactFields_oneLine {fs : List (String × Json)}
    (values : ∀ f ∈ fs, '\n' ∉ f.2.compactChars) : '\n' ∉ compactFields fs := by
  induction fs with
  | nil => simp [compactFields]
  | cons f fs ih =>
    obtain ⟨first, others⟩ := List.forall_mem_cons.mp values
    simp [compactFields, first, ih others, stringChars_oneLine]

theorem Within.oneLine {depth : Nat} {x : Json} (within : x.Within depth) :
    '\n' ∉ x.compactChars := by
  induction within with
  | null => simp [compactChars]
  | @bool _ b => cases b <;> simp [compactChars]
  | @int _ n _ _ => simpa [compactChars] using intChars_oneLine n
  | @str _ s => simpa [compactChars] using stringChars_oneLine s
  | @list _ items _ ih =>
    cases items with
    | nil => simp [compactChars]
    | cons x xs =>
      obtain ⟨first, others⟩ := List.forall_mem_cons.mp ih
      simp [compactChars, first, compactItems_oneLine others]
  | @object _ fields _ ih =>
    cases fields with
    | nil => simp [compactChars]
    | cons f fs =>
      obtain ⟨first, others⟩ := List.forall_mem_cons.mp ih
      simp [compactChars, first, compactFields_oneLine others, stringChars_oneLine]

end Json

end Wire

namespace Message

theorem compact_oneLine {m : Message} (sendable : m.Sendable) :
    '\n' ∉ m.toJson.compact.toList := by
  rw [Json.compact, String.toList_ofList]
  exact (within_maxDepth sendable).oneLine

def lines (t : Trace) : List String := (stream t).map fun m => m.toJson.compact

theorem traceOutput_lines (t : Trace) :
    Command.traceOutput t true = String.join ((lines t).map (· ++ "\n")) := by
  simp [Command.traceOutput, lines, Function.comp_def]

theorem lines_sendable {t : Trace} (sendable : t.Sendable) :
    ∀ m ∈ stream t, m.Sendable := by
  intro m member
  obtain ⟨e, inside, rfl⟩ := List.mem_map.mp member
  exact sendable.addressable e inside

/-- Messages survive their texts, and so does what is read from any text; a list of well-formed events
is read as a trace exactly if it is accepted as one; and a trace sent as a stream of lines is the
list of its events. -/
theorem ofTextAt?_written (place : Place) :
    (∀ m : Message, m.Sendable →
      ofTextAt? place m.toJson.compact = some m ∧ ofTextAt? place m.toJson.pretty = some m) ∧
    (∀ text m, ofTextAt? place text = some m →
      ofTextAt? place m.toJson.compact = some m ∧ ofTextAt? place m.toJson.pretty = some m) ∧
    (∀ text xs events, Json.ofText? text = some (.list xs) →
      xs.mapM (Event.ofJson? place) = some events →
      ∀ t, (Json.ofText? text).bind (Trace.ofJson? place) = some t ↔
        Trace.ofEvents events = .ok t) ∧
    (∀ t : Trace, t.Sendable →
      Command.traceOutput t true = String.join ((lines t).map (· ++ "\n")) ∧
      (∀ line ∈ lines t, '\n' ∉ line.toList) ∧
      (lines t).mapM (ofTextAt? place) = some (t.events.map .single) ∧
      Trace.ofEvents t.events = .ok t) := by
  have both (m : Message) (sendable : m.Sendable) :
      ofTextAt? place m.toJson.compact = some m ∧ ofTextAt? place m.toJson.pretty = some m :=
    ⟨ofTextAt?_compact sendable place, ofTextAt?_pretty sendable place⟩
  refine ⟨both, ?_, ?_, ?_⟩
  · intro text m read
    exact both m (sendable_of_ofTextAt? read)
  · intro text xs events listed read t
    rw [listed, Option.bind_some]
    exact Trace.ofJson?_list_iff read
  · intro t sendable
    have each := lines_sendable sendable
    refine ⟨traceOutput_lines t, ?_, ?_, sendable.checked⟩
    · intro line member
      obtain ⟨m, inside, rfl⟩ := List.mem_map.mp member
      exact compact_oneLine (each m inside)
    · exact mapM_map_self fun m inside => ofTextAt?_compact (each m inside) place

def quotedTrace : Trace :=
  ⟨[.init [-9223372036854775808], .comment "a\n\x22é", .sorted [0], .complete]⟩

/-- The same trace written by hand, as a list with records of both sorts in it. -/
def quotedText : String :=
  "[\x22operations\x22, [[0, [-9223372036854775808]], \x7b\x22message\x22: " ++
    "\x22a\\n\\\x22\\u00e9\x22, \x22type\x22: \x22comment\x22\x7d, [\x22sorted\x22, [0]], [\x22complete\x22]]]"

theorem ofTextAt?_written_quoted :
    quotedTrace.Sendable ∧
    ofTextAt? .alone quotedText = some (.whole quotedTrace) ∧
    ofTextAt? .alone (whole quotedTrace).toJson.pretty = some (.whole quotedTrace) ∧
    (Json.ofText? quotedTrace.toJson.compact).bind (Trace.ofJson? .alone) = some quotedTrace ∧
    (lines quotedTrace).mapM (ofTextAt? .alone) = some (quotedTrace.events.map .single) := by
  obtain ⟨-, again, accepted, streamed⟩ := ofTextAt?_written .alone
  have sendable : quotedTrace.Sendable := ⟨rfl, by decide⟩
  have read : ofTextAt? .alone quotedText = some (.whole quotedTrace) := by decide +kernel
  have listed : Json.ofText? quotedTrace.toJson.compact =
      some (.list (quotedTrace.events.map Event.toJson)) :=
    Json.ofText?_compact (Trace.within_toJson sendable 124)
  have events := mapM_ofJson?_toJson sendable.addressable .alone
  obtain ⟨-, -, inOrder, -⟩ := streamed quotedTrace sendable
  exact ⟨sendable, read, (again _ _ read).2,
    (accepted _ _ _ listed events quotedTrace).mpr sendable.checked, inOrder⟩

end Message

end SortTrace
