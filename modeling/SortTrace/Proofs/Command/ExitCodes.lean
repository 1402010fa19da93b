import SortTrace.Proofs.Command.Pipeline

/-!
The exit codes of `replay`. What a text sends is told from its form alone: a list of events, bare or in
a message, or a single event. Whether the events are a trace is another question, but it is asked while
the text is read. So events that are no trace end like a text that sends nothing.
-/

namespace SortTrace.Command

open Wire

inductive Delivery where
  | events (es : List Event)
  | single (e : Event)

/-- The value is a delivery: its events can be read, whether or not they are a trace. -/
inductive IsDelivery (x : Json) : Delivery → Prop where
  | bare {es : List Event} (items : x.listOf? (Event.ofJson? .held) = some es) :
    IsDelivery x (.events es)
  | whole {data : Record} {body : Json} {es : List Event}
    (form : Message.form? .held x = some ("operations", data))
    (field : data.required? ["operations"] = some [body])
    (items : body.listOf? (Event.ofJson? .held) = some es) : IsDelivery x (.events es)
  | single {data : Record} {body : Json} {e : Event}
    (form : Message.form? .held x = some ("operation", data))
    (field : data.required? ["operation"] = some [body])
    (event : Event.ofJson? .held body = some e) : IsDelivery x (.single e)

def Sends (text : String) (d : Delivery) : Prop :=
  ∃ x, Json.ofText? text = some x ∧ IsDelivery x d

/-- What is read as an event is an object or a list, so it does not name a form. -/
theorem formName?_event {x : Json} {e : Event} {place : Place}
    (read : Event.ofJson? place x = some e) (forms : List String) (p : Place) :
    x.formName? forms p = none := by
  obtain ⟨record, found, -⟩ := Option.bind_eq_some_iff.mp read
  cases x with
  | object fields | list values => rfl
  | null | bool | int | real | str => cases found

theorem form?_events {x : Json} {es : List Event} {place : Place}
    (items : x.listOf? (Event.ofJson? place) = some es) : Message.form? .held x = none := by
  cases x with
  | list xs =>
    cases xs with
    | nil => rfl
    | cons y ys =>
      have read : (y :: ys).mapM (Event.ofJson? place) = some es := items
      rw [List.mapM_cons] at read
      obtain ⟨e, first, -⟩ := Option.bind_eq_some_iff.mp read
      simp only [Message.form?, Json.record?, Option.bind_some, Record.tagged?,
        formName?_event first, Option.bind_eq_bind, Option.bind_none]
  | null | bool | int | real | str | object => cases items

theorem IsDelivery.unique {x : Json} {d d' : Delivery} (h : IsDelivery x d) (h' : IsDelivery x d') :
    d = d' := by
  cases h with
  | bare items =>
    cases h' with
    | bare items' => rw [Option.some.inj (items.symm.trans items')]
    | whole form' | single form' => cases (form?_events items).symm.trans form'
  | whole form field items =>
    cases h' with
    | bare items' => cases (form?_events items').symm.trans form
    | whole form' field' items' =>
      cases form.symm.trans form'
      cases field.symm.trans field'
      rw [Option.some.inj (items.symm.trans items')]
    | single form' => exact absurd (form.symm.trans form') (by simp)
  | single form field event =>
    cases h' with
    | bare items' => cases (form?_events items').symm.trans form
    | whole form' => exact absurd (form.symm.trans form') (by simp)
    | single form' field' event' =>
      cases form.symm.trans form'
      cases field.symm.trans field'
      rw [Option.some.inj (event.symm.trans event')]

theorem Sends.unique {text : String} {d d' : Delivery} (h : Sends text d) (h' : Sends text d') :
    d = d' := by
  obtain ⟨x, read, delivery⟩ := h
  obtain ⟨x', read', delivery'⟩ := h'
  cases read.symm.trans read'
  exact delivery.unique delivery'

theorem sends_events {es : List Event} (fits : ∀ e ∈ es, e.Addressable) :
    Sends (Json.list (es.map Event.toJson)).compact (.events es) := by
  have within : (Json.list (es.map Event.toJson)).Within maxDepth := by
    refine .list fun x member => ?_
    obtain ⟨e, inside, rfl⟩ := List.mem_map.mp member
    exact Event.within_toJson (fits e inside) 124
  exact ⟨_, Json.ofText?_compact within, .bare (mapM_ofJson?_toJson fits .held)⟩

theorem sentMessage?_iff {text : String} {m : Message} :
    sentMessage? text = some m ↔ ∃ x, Json.ofText? text = some x ∧
      ((∃ t, Trace.ofJson? .held x = some t ∧ m = .whole t) ∨
        Trace.ofJson? .held x = none ∧ Message.ofJson? .held x = some m) := by
  rw [sentMessage?, Option.bind_eq_bind, Option.bind_eq_some_iff]
  refine exists_congr fun x => and_congr_right fun _ => ?_
  cases Trace.ofJson? .held x with
  | none => simp
  | some t => simp [eq_comm]

theorem ofJson?_trace_message {x : Json} {form : String × Record}
    (named : Message.form? .held x = some form) : Trace.ofJson? .held x = none := by
  cases trace : Trace.ofJson? .held x with
  | none => rfl
  | some t =>
    obtain ⟨es, items, -⟩ := Trace.ofJson?_iff.mp trace
    cases (form?_events items).symm.trans named

theorem sentMessage?_single_iff {text : String} {e : Event} :
    sentMessage? text = some (.single e) ↔ Sends text (.single e) := by
  rw [sentMessage?_iff]
  constructor
  · rintro ⟨x, read, ⟨_, _, other⟩ | ⟨-, message⟩⟩
    · cases other
    · rcases Message.ofJson?_iff.mp message with
        ⟨data, body, e', form, field, event, same⟩ | ⟨_, _, _, _, _, _, other⟩
      · cases same
        exact ⟨x, read, .single form field event⟩
      · cases other
  · rintro ⟨x, read, delivery⟩
    cases delivery with
    | single form field event =>
      refine ⟨x, read, .inr ⟨ofJson?_trace_message form, ?_⟩⟩
      exact Message.ofJson?_iff.mpr (.inl ⟨_, _, _, form, field, event, rfl⟩)

theorem sentMessage?_whole_iff {text : String} {t : Trace} :
    sentMessage? text = some (.whole t) ↔
      ∃ es, Sends text (.events es) ∧ Trace.ofEvents es = .ok t := by
  rw [sentMessage?_iff]
  constructor
  · rintro ⟨x, read, ⟨t', trace, same⟩ | ⟨-, message⟩⟩
    · cases same
      obtain ⟨es, items, accepted⟩ := Trace.ofJson?_iff.mp trace
      exact ⟨es, ⟨x, read, .bare items⟩, accepted⟩
    · rcases Message.ofJson?_iff.mp message with
        ⟨_, _, _, _, _, _, other⟩ | ⟨data, body, t', form, field, trace, same⟩
      · cases other
      · cases same
        obtain ⟨es, items, accepted⟩ := Trace.ofJson?_iff.mp trace
        exact ⟨es, ⟨x, read, .whole form field items⟩, accepted⟩
  · rintro ⟨es, ⟨x, read, delivery⟩, accepted⟩
    refine ⟨x, read, ?_⟩
    cases delivery with
    | bare items => exact .inl ⟨t, Trace.ofJson?_iff.mpr ⟨es, items, accepted⟩, rfl⟩
    | whole form field items =>
      have trace := Trace.ofJson?_iff.mpr ⟨es, items, accepted⟩
      refine .inr ⟨ofJson?_trace_message form, ?_⟩
      exact Message.ofJson?_iff.mpr (.inr ⟨_, _, _, form, field, trace, rfl⟩)

/-- What is sent and not found are events that are no trace. -/
theorem refused_of_sentMessage?_eq_none {text : String} {d : Delivery}
    (lost : sentMessage? text = none) (sent : Sends text d) :
    ∃ es error, d = .events es ∧ Trace.ofEvents es = .error error := by
  cases d with
  | single e => cases lost.symm.trans (sentMessage?_single_iff.mpr sent)
  | events es =>
    cases checked : Trace.ofEvents es with
    | ok t => cases lost.symm.trans (sentMessage?_whole_iff.mpr ⟨es, sent, checked⟩)
    | error error => exact ⟨es, error, rfl, checked⟩

/-- The exit code that a delivery is due; `refused` is that of events that are no trace. -/
def Delivery.exitCode (refused : Nat) (step : Option Nat) : Delivery → Nat
  | .single _ => 1
  | .events es =>
    match Trace.ofEvents es with
    | .error _ => refused
    | .ok t =>
      match step.elim t.replay t.stateAt with
      | .error _ => 1
      | .ok _ => 0

/-- The exit code that a text is due: 3 without a delivery, else that of the delivery. -/
inductive Verdict (refused : Nat) (step : Option Nat) (text : String) : Nat → Prop where
  | unreadable (nothing : ∀ d, ¬Sends text d) : Verdict refused step text 3
  | delivered {d : Delivery} (sent : Sends text d) :
    Verdict refused step text (d.exitCode refused step)

theorem Verdict.unique {refused : Nat} {step : Option Nat} {text : String} {code code' : Nat}
    (h : Verdict refused step text code) (h' : Verdict refused step text code') : code = code' := by
  cases h with
  | unreadable nothing =>
    cases h' with
    | unreadable => rfl
    | delivered sent' => exact absurd sent' (nothing _)
  | delivered sent =>
    cases h' with
    | unreadable nothing' => exact absurd sent (nothing' _)
    | delivered sent' => rw [sent.unique sent']

theorem Verdict.iff_eq {refused : Nat} {step : Option Nat} {text : String} {found : Nat}
    (h : Verdict refused step text found) (code : Nat) :
    Verdict refused step text code ↔ found = code :=
  ⟨h.unique, fun same => same ▸ h⟩

theorem replayReport_verdict (step : Option Nat) (text : String) :
    Verdict 3 step text (replayReport step text).exitCode := by
  cases found : sentMessage? text with
  | none =>
    simp only [replayReport, found]
    by_cases nothing : ∀ d, ¬Sends text d
    · exact .unreadable nothing
    · obtain ⟨d, sent⟩ := Classical.not_forall_not.mp nothing
      obtain ⟨es, error, rfl, refused⟩ := refused_of_sentMessage?_eq_none found sent
      have code : (Delivery.events es).exitCode 3 step = 3 := by
        simp only [Delivery.exitCode, refused]
      have verdict : Verdict 3 step text _ := .delivered sent
      rwa [code] at verdict
  | some m =>
    cases m with
    | single e =>
      simp only [replayReport, found]
      exact .delivered (sentMessage?_single_iff.mp found)
    | whole t =>
      obtain ⟨es, sent, accepted⟩ := sentMessage?_whole_iff.mp found
      have code : (Delivery.events es).exitCode 3 step = (replayReport step text).exitCode := by
        rw [replayReport_sent found step]
        simp only [Delivery.exitCode, accepted]
        cases step.elim t.replay t.stateAt <;> rfl
      exact code ▸ .delivered sent

theorem Delivery.exitCode_eq_iff {refused refused' : Nat} (other : refused ≠ refused')
    (step : Option Nat) (es : List Event) :
    (Delivery.events es).exitCode refused step = (Delivery.events es).exitCode refused' step ↔
      ∃ t, Trace.ofEvents es = .ok t := by
  cases checked : Trace.ofEvents es with
  | ok t => simp [Delivery.exitCode, checked]
  | error error => simp [Delivery.exitCode, checked, other]

theorem Verdict.agrees_iff {refused refused' : Nat} {step : Option Nat} {text : String} {found : Nat}
    (other : refused ≠ refused') (h : Verdict refused step text found) :
    (∀ code, Verdict refused' step text code ↔ found = code) ↔
      ∀ es, Sends text (.events es) → ∃ t, Trace.ofEvents es = .ok t := by
  constructor
  · intro agrees es sent
    have code := (h.iff_eq _).mp (.delivered sent)
    have code' := (agrees _).mp (.delivered sent)
    exact (Delivery.exitCode_eq_iff other step es).mp (code.symm.trans code')
  · intro accepted
    refine Verdict.iff_eq ?_
    cases h with
    | unreadable nothing => exact .unreadable nothing
    | @delivered d sent =>
      cases d with
      | single e => exact .delivered sent
      | events es =>
        rw [(Delivery.exitCode_eq_iff other step es).mpr (accepted es sent)]
        exact .delivered sent

/-- For every text, `replay` gives events that are no trace the code of an unreadable text. So its code
is the one of a verdict that blames the trace exactly where the text sends no such events. -/
theorem replay_exitCode_iff (verbosity : Nat) (file : Option String) (step : Option Nat)
    (text : String) :
    let found := (CommandLine.run ⟨verbosity, .replay file step⟩ (.ok text)).exitCode
    (∀ code, Verdict 3 step text code ↔ found = code) ∧
    ((∀ code, Verdict 1 step text code ↔ found = code) ↔
      ∀ es, Sends text (.events es) → ∃ t, Trace.ofEvents es = .ok t) :=
  have verdict := replayReport_verdict step text
  ⟨verdict.iff_eq, verdict.agrees_iff (by decide)⟩

/-- A list of events whose second one compares a position past the end. -/
def strayText : String :=
  "[\x7b\"type\":\"init\",\"array\":[2,1]\x7d," ++
  "\x7b\"type\":\"compare\",\"indices\":[0,5],\"values\":[2,1]\x7d," ++
  "\x7b\"type\":\"complete\"\x7d]"

theorem replay_exitCode_stray :
    Verdict 1 none strayText 1 ∧
      (CommandLine.run ⟨0, .replay none none⟩ (.ok strayText)).exitCode = 3 := by
  let stray : List Event := [.init [2, 1], .compare 0 5 2 1, .complete]
  have written : (Json.list (stray.map Event.toJson)).compact = strayText := by decide +kernel
  have sent := sends_events (show ∀ e ∈ stray, e.Addressable by decide)
  rw [written] at sent
  have code : (Delivery.events stray).exitCode 1 none = 1 := by decide
  have verdict : Verdict 1 none strayText _ := .delivered sent
  rw [code] at verdict
  exact ⟨verdict, by decide +kernel⟩

end SortTrace.Command
