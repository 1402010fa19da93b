import SortTrace.Proofs.Results
import SortTrace.Proofs.Trace.Frame
import SortTrace.Proofs.Wire.Written
import SortTrace.Wire.Message

/-!
Events, traces and messages are read back from their JSON texts, and what is read from any text can be
sent again. A list of events is read as a trace exactly if it is one.
-/

namespace SortTrace

open Wire

def Event.Addressable (e : Event) : Prop := ∀ i ∈ e.indices, i < 2 ^ 64

instance (e : Event) : Decidable e.Addressable :=
  inferInstanceAs (Decidable (∀ i ∈ e.indices, i < 2 ^ 64))

structure Trace.Sendable (t : Trace) : Prop where
  checked : Trace.ofEvents t.events = .ok t
  addressable : ∀ e ∈ t.events, e.Addressable

/-- A single event need not belong to any trace. -/
def Message.Sendable : Message → Prop
  | single e => e.Addressable
  | whole t => t.Sendable

namespace Wire

theorem nat64?_natCast {n : Nat} (fits : n < 2 ^ 64) : Json.nat64? (.int n) = some n := by
  have range : 0 ≤ (n : Int) ∧ (n : Int) < 2 ^ 64 := by omega
  rw [Json.nat64?, if_pos range, Int.toNat_natCast]

theorem int64?_toInt (x : Int64) : Json.int64? (.int x.toInt) = some x := by
  rw [Json.int64?, if_pos ⟨x.le_toInt, x.toInt_lt⟩, Int64.ofInt_toInt]

theorem mapM_map {α β γ : Type} {f : α → β} {g : β → Option γ} {h : α → γ} {as : List α}
    (back : ∀ a ∈ as, g (f a) = some (h a)) : (as.map f).mapM g = some (as.map h) := by
  induction as with
  | nil => rfl
  | cons a as ih =>
    rw [List.map_cons, List.mapM_cons, back a (List.mem_cons_self ..),
      ih fun b member => back b (List.mem_cons_of_mem a member)]
    rfl

theorem mapM_map_self {α β : Type} {f : α → β} {g : β → Option α} {as : List α}
    (back : ∀ a ∈ as, g (f a) = some a) : (as.map f).mapM g = some as := by
  simpa using @mapM_map _ _ _ f g id as back

theorem mapM_forall {α β : Type} {f : α → Option β} {P : β → Prop} {as : List α} {bs : List β}
    (holds : ∀ a b, f a = some b → P b) (mapped : as.mapM f = some bs) : ∀ b ∈ bs, P b := by
  induction as generalizing bs with
  | nil =>
    cases mapped
    simp
  | cons a as ih =>
    rw [List.mapM_cons] at mapped
    obtain ⟨b, first, mapped⟩ := Option.bind_eq_some_iff.mp mapped
    obtain ⟨rest, others, same⟩ := Option.bind_eq_some_iff.mp mapped
    cases same
    exact List.forall_mem_cons.mpr ⟨holds a b first, ih others⟩

theorem nat64?_lt {x : Json} {n : Nat} (read : x.nat64? = some n) : n < 2 ^ 64 := by
  unfold Json.nat64? at read
  split at read
  · split at read
    · cases read
      omega
    · cases read
  · cases read

theorem listOf?_forall {α : Type} {item? : Json → Option α} {P : α → Prop} {x : Json}
    {items : List α} (holds : ∀ y a, item? y = some a → P a) (read : x.listOf? item? = some items) :
    ∀ a ∈ items, P a := by
  cases x with
  | list ys => exact mapM_forall holds read
  | _ => cases read

theorem pairOf?_lt {x : Json} {i j : Nat} (read : x.pairOf? Json.nat64? = some (i, j)) :
    ∀ k ∈ [i, j], k < 2 ^ 64 := by
  unfold Json.pairOf? at read
  split at read
  · obtain ⟨a, first, read⟩ := Option.bind_eq_some_iff.mp read
    obtain ⟨b, second, same⟩ := Option.bind_eq_some_iff.mp read
    cases same
    simp [nat64?_lt first, nat64?_lt second]
  · cases read

theorem listOf?_ofNats {ns : List Nat} (fits : ∀ n ∈ ns, n < 2 ^ 64) :
    (ofNats ns).listOf? Json.nat64? = some ns :=
  mapM_map_self fun n member => nat64?_natCast (fits n member)

theorem listOf?_ofInt64s (xs : List Int64) : (ofInt64s xs).listOf? Json.int64? = some xs :=
  mapM_map_self fun x _ => int64?_toInt x

theorem pairOf?_ofNats {i j : Nat} (fits : ∀ k ∈ [i, j], k < 2 ^ 64) :
    (ofNats [i, j]).pairOf? Json.nat64? = some (i, j) := by
  have first := nat64?_natCast (fits i (by simp))
  have second := nat64?_natCast (fits j (by simp))
  simp [ofNats, Json.pairOf?, first, second]

theorem pairOf?_ofInt64s (x y : Int64) :
    (ofInt64s [x, y]).pairOf? Json.int64? = some (x, y) := by
  simp [ofInt64s, Json.pairOf?, int64?_toInt]

theorem within_ofNats {ns : List Nat} (fits : ∀ n ∈ ns, n < 2 ^ 64) (depth : Nat) :
    (ofNats ns).Within (depth + 1) := by
  refine .list fun x member => ?_
  obtain ⟨n, inside, rfl⟩ := List.mem_map.mp member
  have bound := fits n inside
  exact .int (by omega) (by omega)

theorem within_int64 (x : Int64) (depth : Nat) : (Json.int x.toInt).Within depth := by
  have low := x.le_toInt
  have high := x.toInt_lt
  exact .int low (by omega)

theorem within_ofInt64s (xs : List Int64) (depth : Nat) : (ofInt64s xs).Within (depth + 1) := by
  refine .list fun x member => ?_
  obtain ⟨n, -, rfl⟩ := List.mem_map.mp member
  exact within_int64 n depth

theorem tagged?_named {tag form : String} {fields : List (String × Json)} (forms : List String)
    (place : Place) (others : ∀ f ∈ fields, (f.1 == tag) = false) :
    (Record.named ((tag, .str form) :: fields)).tagged? tag forms place =
      some (form, .named fields) := by
  have none : fields.filter (·.1 == tag) = [] :=
    List.filter_eq_nil_iff.mpr fun f member => by simp [others f member]
  have all : fields.filter (·.1 != tag) = fields :=
    List.filter_eq_self.mpr fun f member => by simp [bne, others f member]
  simp [Record.tagged?, Record.optional?, Record.valuesOf, none, all, Json.formName?]

theorem valuesOf_of_mem {fields : List (String × Json)} {name : String} {x : Json}
    (distinct : (fields.map (·.1)).Nodup) (member : (name, x) ∈ fields) :
    Record.valuesOf fields name = [x] := by
  induction fields with
  | nil => simp at member
  | cons f fields ih =>
    obtain ⟨fresh, distinct⟩ := List.nodup_cons.mp distinct
    rcases List.mem_cons.mp member with rfl | member
    · have none : fields.filter (·.1 == name) = [] := by
        refine List.filter_eq_nil_iff.mpr fun g inside same => fresh ?_
        exact List.mem_map.mpr ⟨g, inside, eq_of_beq same⟩
      simp [Record.valuesOf, none]
    · have other : f.1 ≠ name := fun same =>
        fresh (List.mem_map.mpr ⟨(name, x), member, same.symm⟩)
      simpa [Record.valuesOf, other] using ih distinct member

theorem required?_own (fields : List (String × Json)) (distinct : (fields.map (·.1)).Nodup) :
    (Record.named fields).required? (fields.map (·.1)) = some (fields.map (·.2)) := by
  refine mapM_map fun f member => ?_
  simp [Record.optional?, valuesOf_of_mem distinct member]

end Wire

theorem Color.ofWireName?_wireName (c : Color) : ofWireName? c.wireName = some c := by
  cases c <;> rfl

namespace Event

theorem ofJson?_fields {kind : String} {fields : List (String × Json)} (place : Place)
    (others : ∀ f ∈ fields, (f.1 == "type") = false) :
    ofJson? place (.object (("type", .str kind) :: fields)) = ofRecord? kind (.named fields) := by
  simp only [ofJson?, Json.record?, tagged?_named _ place others, Option.bind_eq_bind,
    Option.bind_some]

/-! The fields of each kind of event, by what their values are read as. The names of the fields are
all there, so which value belongs to which name is found by evaluation. -/

section Fields

variable {u v w : Json} {i j : Nat} {x y : Int64} {positions : List Nat}

theorem ofRecord?_init {array : List Int64} (values : u.listOf? Json.int64? = some array) :
    ofRecord? "init" (.named [("array", u)]) = some (init array) :=
  Option.bind_eq_some_iff.mpr ⟨_, values, rfl⟩

theorem ofRecord?_compare (places : u.pairOf? Json.nat64? = some (i, j))
    (values : v.pairOf? Json.int64? = some (x, y)) :
    ofRecord? "compare" (.named [("indices", u), ("values", v)]) = some (compare i j x y) := by
  refine Option.bind_eq_some_iff.mpr ⟨_, places, ?_⟩
  exact Option.bind_eq_some_iff.mpr ⟨_, values, rfl⟩

theorem ofRecord?_swap (places : u.pairOf? Json.nat64? = some (i, j))
    (values : v.pairOf? Json.int64? = some (x, y)) :
    ofRecord? "swap" (.named [("indices", u), ("values", v)]) = some (swap i j x y) := by
  refine Option.bind_eq_some_iff.mpr ⟨_, places, ?_⟩
  exact Option.bind_eq_some_iff.mpr ⟨_, values, rfl⟩

theorem ofRecord?_set (place : u.nat64? = some i) (value : v.int64? = some x)
    (previous : w.int64? = some y) :
    ofRecord? "set" (.named [("index", u), ("value", v), ("previous", w)]) =
      some (set i x y) := by
  refine Option.bind_eq_some_iff.mpr ⟨_, place, ?_⟩
  refine Option.bind_eq_some_iff.mpr ⟨_, value, ?_⟩
  exact Option.bind_eq_some_iff.mpr ⟨_, previous, rfl⟩

theorem ofRecord?_highlight {color : Color}
    (places : u.listOf? Json.nat64? = some positions)
    (named : v.choice? Color.ofWireName? .held = some color) :
    ofRecord? "highlight" (.named [("indices", u), ("color", v)]) =
      some (highlight positions color) := by
  refine Option.bind_eq_some_iff.mpr ⟨_, places, ?_⟩
  exact Option.bind_eq_some_iff.mpr ⟨_, named, rfl⟩

theorem ofRecord?_sorted (places : u.listOf? Json.nat64? = some positions) :
    ofRecord? "sorted" (.named [("indices", u)]) = some (sorted positions) :=
  Option.bind_eq_some_iff.mpr ⟨_, places, rfl⟩

theorem ofRecord?_comment {message : String} (text : u.str? = some message) :
    ofRecord? "comment" (.named [("message", u)]) = some (comment message) :=
  Option.bind_eq_some_iff.mpr ⟨_, text, rfl⟩

end Fields

theorem ofJson?_toJson {e : Event} (fits : e.Addressable) (place : Place) :
    ofJson? place e.toJson = some e := by
  cases e with
  | init array =>
    exact (ofJson?_fields place (by simp)).trans (ofRecord?_init (listOf?_ofInt64s array))
  | compare i j x y =>
    exact (ofJson?_fields place (by simp)).trans
      (ofRecord?_compare (pairOf?_ofNats fits) (pairOf?_ofInt64s x y))
  | swap i j x y =>
    exact (ofJson?_fields place (by simp)).trans
      (ofRecord?_swap (pairOf?_ofNats fits) (pairOf?_ofInt64s x y))
  | set i value previous =>
    have bound : i < 2 ^ 64 := fits i (by simp [indices])
    exact (ofJson?_fields place (by simp)).trans
      (ofRecord?_set (nat64?_natCast bound) (int64?_toInt value) (int64?_toInt previous))
  | highlight positions color =>
    exact (ofJson?_fields place (by simp)).trans
      (ofRecord?_highlight (listOf?_ofNats fits) (Color.ofWireName?_wireName color))
  | sorted positions =>
    exact (ofJson?_fields place (by simp)).trans (ofRecord?_sorted (listOf?_ofNats fits))
  | complete => exact (ofJson?_fields place (by simp)).trans rfl
  | comment message => exact (ofJson?_fields place (by simp)).trans (ofRecord?_comment rfl)

theorem within_toJson {e : Event} (fits : e.Addressable) (depth : Nat) :
    e.toJson.Within (depth + 2) := by
  have tagged {fields : List (String × Json)} (inside : ∀ f ∈ fields, f.2.Within (depth + 1)) :
      (Json.object (("type", .str e.kind.name) :: fields)).Within (depth + 2) := by
    refine .object fun f member => ?_
    rcases List.mem_cons.mp member with rfl | member
    · exact .str
    · exact inside f member
  have places : (ofNats e.indices).Within (depth + 1) := within_ofNats fits depth
  have text (s : String) : (Json.str s).Within (depth + 1) := .str
  cases e with
  | init array => exact tagged (by simp [within_ofInt64s])
  | compare i j x y | swap i j x y =>
    rw [indices] at places
    exact tagged (by simp [within_ofInt64s, places])
  | set i value previous =>
    have bound : i < 2 ^ 64 := fits i (by simp [indices])
    have place : (Json.int i).Within (depth + 1) := .int (by omega) (by omega)
    exact tagged (by simp [within_int64, place])
  | highlight positions color =>
    rw [indices] at places
    exact tagged (by simp [places, text])
  | sorted positions =>
    rw [indices] at places
    exact tagged (by simp [places])
  | complete => exact tagged (by simp)
  | comment message => exact tagged (by simp [text])

theorem addressable_of_ofRecord? {kind : String} {data : Record} {e : Event}
    (read : ofRecord? kind data = some e) : e.Addressable := by
  unfold ofRecord? at read
  split at read
  case h_9 => cases read
  all_goals
    obtain ⟨values, -, read⟩ := Option.bind_eq_some_iff.mp read
    split at read
    case h_2 => cases read
  · obtain ⟨array, -, same⟩ := Option.bind_eq_some_iff.mp read
    cases same
    simp [Addressable, indices]
  · obtain ⟨⟨i, j⟩, places, read⟩ := Option.bind_eq_some_iff.mp read
    obtain ⟨⟨x, y⟩, -, same⟩ := Option.bind_eq_some_iff.mp read
    cases same
    exact pairOf?_lt places
  · obtain ⟨⟨i, j⟩, places, read⟩ := Option.bind_eq_some_iff.mp read
    obtain ⟨⟨x, y⟩, -, same⟩ := Option.bind_eq_some_iff.mp read
    cases same
    exact pairOf?_lt places
  · obtain ⟨i, place, read⟩ := Option.bind_eq_some_iff.mp read
    obtain ⟨x, -, read⟩ := Option.bind_eq_some_iff.mp read
    obtain ⟨y, -, same⟩ := Option.bind_eq_some_iff.mp read
    cases same
    simpa [Addressable, indices] using nat64?_lt place
  · obtain ⟨positions, places, read⟩ := Option.bind_eq_some_iff.mp read
    obtain ⟨color, -, same⟩ := Option.bind_eq_some_iff.mp read
    cases same
    exact listOf?_forall (fun _ _ => nat64?_lt) places
  · obtain ⟨positions, places, same⟩ := Option.bind_eq_some_iff.mp read
    cases same
    exact listOf?_forall (fun _ _ => nat64?_lt) places
  · cases read
    simp [Addressable, indices]
  · obtain ⟨text, -, same⟩ := Option.bind_eq_some_iff.mp read
    cases same
    simp [Addressable, indices]

theorem addressable_of_ofJson? {place : Place} {x : Json} {e : Event}
    (read : ofJson? place x = some e) : e.Addressable := by
  obtain ⟨record, -, read⟩ := Option.bind_eq_some_iff.mp read
  obtain ⟨⟨kind, data⟩, -, read⟩ := Option.bind_eq_some_iff.mp read
  exact addressable_of_ofRecord? read

end Event

theorem mapM_ofJson?_toJson {events : List Event} (fits : ∀ e ∈ events, e.Addressable)
    (place : Place) : (events.map Event.toJson).mapM (Event.ofJson? place) = some events :=
  mapM_map_self fun e member => Event.ofJson?_toJson (fits e member) place

namespace Trace

theorem ofJson?_toJson {t : Trace} (sendable : t.Sendable) (place : Place) :
    ofJson? place t.toJson = some t := by
  have events : t.toJson.listOf? (Event.ofJson? place) = some t.events :=
    mapM_ofJson?_toJson sendable.addressable place
  simp only [ofJson?, events, Option.bind_eq_bind, Option.bind_some, sendable.checked]
  rfl

theorem within_toJson {t : Trace} (sendable : t.Sendable) (depth : Nat) :
    t.toJson.Within (depth + 3) := by
  refine .list fun x member => ?_
  obtain ⟨e, inside, rfl⟩ := List.mem_map.mp member
  exact Event.within_toJson (sendable.addressable e inside) depth

theorem ofJson?_iff {place : Place} {x : Json} {t : Trace} :
    ofJson? place x = some t ↔
      ∃ events, x.listOf? (Event.ofJson? place) = some events ∧ ofEvents events = .ok t := by
  constructor
  · intro read
    obtain ⟨events, listed, checked⟩ := Option.bind_eq_some_iff.mp read
    exact ⟨events, listed, ok_of_toOption checked⟩
  · rintro ⟨events, listed, accepted⟩
    refine Option.bind_eq_some_iff.mpr ⟨events, listed, ?_⟩
    rw [accepted]
    rfl

theorem sendable_of_ofJson? {place : Place} {x : Json} {t : Trace}
    (read : ofJson? place x = some t) : t.Sendable := by
  obtain ⟨events, listed, checked⟩ := ofJson?_iff.mp read
  obtain ⟨same, -⟩ := (ofEvents_eq_ok_iff events t).mp checked
  subst same
  exact ⟨checked, listOf?_forall (fun _ _ => Event.addressable_of_ofJson?) listed⟩

theorem ofJson?_list_iff {place : Place} {xs : List Json} {events : List Event} {t : Trace}
    (read : xs.mapM (Event.ofJson? place) = some events) :
    ofJson? place (.list xs) = some t ↔ ofEvents events = .ok t := by
  rw [ofJson?_iff]
  constructor
  · rintro ⟨events', listed, accepted⟩
    cases read.symm.trans listed
    exact accepted
  · exact fun accepted => ⟨events, read, accepted⟩

end Trace

namespace Message

def form? (place : Place) (x : Json) : Option (String × Record) :=
  x.record?.bind (Record.tagged? "type" ["operation", "operations"] place)

theorem ofJson?_iff {place : Place} {x : Json} {m : Message} :
    ofJson? place x = some m ↔
      (∃ data body e, form? place x = some ("operation", data) ∧
        data.required? ["operation"] = some [body] ∧ Event.ofJson? .held body = some e ∧
        m = .single e) ∨
      (∃ data body t, form? place x = some ("operations", data) ∧
        data.required? ["operations"] = some [body] ∧ Trace.ofJson? .held body = some t ∧
        m = .whole t) := by
  constructor
  · intro read
    obtain ⟨record, found, read⟩ := Option.bind_eq_some_iff.mp read
    obtain ⟨⟨name, data⟩, tagged, read⟩ := Option.bind_eq_some_iff.mp read
    have form : form? place x = some (name, data) :=
      Option.bind_eq_some_iff.mpr ⟨record, found, tagged⟩
    dsimp only at read
    split at read
    case h_3 => cases read
    all_goals
      obtain ⟨values, field, read⟩ := Option.bind_eq_some_iff.mp read
      split at read
      case h_2 => cases read
    · obtain ⟨e, event, same⟩ := Option.bind_eq_some_iff.mp read
      cases same
      exact .inl ⟨data, _, e, form, field, event, rfl⟩
    · obtain ⟨t, trace, same⟩ := Option.bind_eq_some_iff.mp read
      cases same
      exact .inr ⟨data, _, t, form, field, trace, rfl⟩
  · rintro (⟨data, body, e, form, field, event, rfl⟩ | ⟨data, body, t, form, field, trace, rfl⟩)
    all_goals
      obtain ⟨record, found, tagged⟩ := Option.bind_eq_some_iff.mp form
      simp only [ofJson?, found, tagged, field, Option.bind_eq_bind, Option.bind_some]
    · rw [event]
      rfl
    · rw [trace]
      rfl

theorem form?_written {form field : String} (other : (field == "type") = false) (x : Json)
    (place : Place) : form? place (.object [("type", .str form), (field, x)]) =
      some (form, .named [(field, x)]) := by
  rw [form?, Json.record?, Option.bind_some]
  exact tagged?_named _ place (by simpa using other)

theorem ofJson?_toJson {m : Message} (sendable : m.Sendable) (place : Place) :
    ofJson? place m.toJson = some m := by
  cases m with
  | single e =>
    have form := @form?_written "operation" "operation" (by simp) e.toJson place
    have all := required?_own [("operation", e.toJson)] (by simp)
    exact ofJson?_iff.mpr (.inl ⟨_, _, e, form, all, Event.ofJson?_toJson sendable .held, rfl⟩)
  | whole t =>
    have form := @form?_written "operations" "operations" (by simp) t.toJson place
    have all := required?_own [("operations", t.toJson)] (by simp)
    exact ofJson?_iff.mpr (.inr ⟨_, _, t, form, all, Trace.ofJson?_toJson sendable .held, rfl⟩)

theorem within_toJson {m : Message} (sendable : m.Sendable) (depth : Nat) :
    m.toJson.Within (depth + 4) := by
  have message {form field : String} {x : Json} (inside : x.Within (depth + 3)) :
      (Json.object [("type", .str form), (field, x)]).Within (depth + 4) := by
    have text : (Json.str form).Within (depth + 3) := .str
    exact .object (by simp [text, inside])
  cases m with
  | single e => exact message (Event.within_toJson sendable (depth + 1))
  | whole t => exact message (Trace.within_toJson sendable depth)

theorem within_maxDepth {m : Message} (sendable : m.Sendable) : m.toJson.Within maxDepth :=
  within_toJson sendable 123

theorem sendable_of_ofJson? {place : Place} {x : Json} {m : Message}
    (read : ofJson? place x = some m) : m.Sendable := by
  rcases ofJson?_iff.mp read with ⟨_, _, e, -, -, event, rfl⟩ | ⟨_, _, t, -, -, trace, rfl⟩
  · exact Event.addressable_of_ofJson? event
  · exact Trace.sendable_of_ofJson? trace

def ofTextAt? (place : Place) (text : String) : Option Message :=
  (Json.ofText? text).bind (ofJson? place)

theorem ofTextAt?_compact {m : Message} (sendable : m.Sendable) (place : Place) :
    ofTextAt? place m.toJson.compact = some m := by
  rw [ofTextAt?, Json.ofText?_compact (within_maxDepth sendable), Option.bind_some,
    ofJson?_toJson sendable]

theorem ofTextAt?_pretty {m : Message} (sendable : m.Sendable) (place : Place) :
    ofTextAt? place m.toJson.pretty = some m := by
  rw [ofTextAt?, Json.ofText?_pretty (within_maxDepth sendable), Option.bind_some,
    ofJson?_toJson sendable]

theorem sendable_of_ofTextAt? {place : Place} {text : String} {m : Message}
    (read : ofTextAt? place text = some m) : m.Sendable := by
  obtain ⟨x, -, read⟩ := Option.bind_eq_some_iff.mp read
  exact sendable_of_ofJson? read

end Message

end SortTrace
