import SortTrace.Proofs.Wire.Scalars

/-!
Written JSON is read back. The compact and the pretty form of a value differ in blanks only, and the
reader passes over blanks: a value whose whole numbers fit 64 bits, in no more levels than the reader
opens, is read as itself from both.
-/

namespace SortTrace.Wire

namespace Json

/-- The value can be read where `depth` further levels may be opened. -/
inductive Within : (depth : Nat) → Json → Prop
  | null {depth : Nat} : Within depth .null
  | bool {depth : Nat} {b : Bool} : Within depth (.bool b)
  | int {depth : Nat} {n : Int} : -2 ^ 63 ≤ n → n < 2 ^ 64 → Within depth (.int n)
  | str {depth : Nat} {s : String} : Within depth (.str s)
  | list {depth : Nat} {items : List Json} : (∀ x ∈ items, Within depth x) →
      Within (depth + 1) (.list items)
  | object {depth : Nat} {fields : List (String × Json)} : (∀ f ∈ fields, Within depth f.2) →
      Within (depth + 1) (.object fields)

/-- The blanks of a written form: in front of each item, given its indent, and behind each colon. -/
structure Spacing where
  newItem : Nat → List Char
  afterColon : List Char
  newItem_isSpace : ∀ indent, ∀ c ∈ newItem indent, isSpace c = true
  afterColon_isSpace : ∀ c ∈ afterColon, isSpace c = true

namespace Spacing

def compact : Spacing where
  newItem _ := []
  afterColon := []
  newItem_isSpace := by simp
  afterColon_isSpace := by simp

theorem lineStart_isSpace (indent : Nat) : ∀ c ∈ lineStart indent, isSpace c = true := by
  intro c member
  rcases List.mem_cons.mp member with rfl | blank
  · rfl
  · rw [List.eq_of_mem_replicate blank]
    rfl

def pretty : Spacing where
  newItem := lineStart
  afterColon := [' ']
  newItem_isSpace := lineStart_isSpace
  afterColon_isSpace := by simp [isSpace]

end Spacing

section

variable (s : Spacing)

mutual

def spaced (indent : Nat) : Json → List Char
  | null => "null".toList
  | bool b => (if b then "true" else "false").toList
  | int n => intChars n
  | real x => realChars x
  | str t => stringChars t
  | list [] => ['[', ']']
  | list (x :: rest) =>
    '[' :: (s.newItem (indent + 2) ++ (spaced (indent + 2) x ++ spacedItems indent rest))
  | object [] => ['\x7b', '\x7d']
  | object ((name, x) :: rest) =>
    '\x7b' :: (s.newItem (indent + 2) ++ (stringChars name ++ ':' :: (s.afterColon ++
      (spaced (indent + 2) x ++ spacedFields indent rest))))

def spacedItems (indent : Nat) : List Json → List Char
  | [] => s.newItem indent ++ [']']
  | x :: rest =>
    ',' :: (s.newItem (indent + 2) ++ (spaced (indent + 2) x ++ spacedItems indent rest))

def spacedFields (indent : Nat) : List (String × Json) → List Char
  | [] => s.newItem indent ++ ['\x7d']
  | (name, x) :: rest =>
    ',' :: (s.newItem (indent + 2) ++ (stringChars name ++ ':' :: (s.afterColon ++
      (spaced (indent + 2) x ++ spacedFields indent rest))))

end

end

mutual

theorem compactChars_eq (indent : Nat) : ∀ x : Json, x.compactChars = spaced .compact indent x
  | null | bool _ | int _ | real _ | str _ | list [] | object [] => by
    simp only [compactChars, spaced]
  | list (x :: rest) => by
    rw [compactChars, spaced, compactChars_eq (indent + 2) x, compactItems_eq indent rest]
    rfl
  | object ((name, x) :: rest) => by
    rw [compactChars, spaced, compactChars_eq (indent + 2) x, compactFields_eq indent rest]
    rfl

theorem compactItems_eq (indent : Nat) :
    ∀ xs : List Json, compactItems xs = spacedItems .compact indent xs
  | [] => rfl
  | x :: rest => by
    rw [compactItems, spacedItems, compactChars_eq (indent + 2) x, compactItems_eq indent rest]
    rfl

theorem compactFields_eq (indent : Nat) :
    ∀ fs : List (String × Json), compactFields fs = spacedFields .compact indent fs
  | [] => rfl
  | (name, x) :: rest => by
    rw [compactFields, spacedFields, compactChars_eq (indent + 2) x, compactFields_eq indent rest]
    rfl

end

mutual

theorem prettyChars_eq (indent : Nat) : ∀ x : Json, x.prettyChars indent = spaced .pretty indent x
  | null | bool _ | int _ | real _ | str _ | list [] | object [] => by
    simp only [prettyChars, spaced]
  | list (x :: rest) => by
    rw [prettyChars, spaced, prettyChars_eq (indent + 2) x, prettyItems_eq indent rest,
      List.append_assoc]
    rfl
  | object ((name, x) :: rest) => by
    rw [prettyChars, spaced, prettyChars_eq (indent + 2) x, prettyFields_eq indent rest,
      List.append_assoc]
    rfl

theorem prettyItems_eq (indent : Nat) :
    ∀ xs : List Json, prettyItems indent xs = spacedItems .pretty indent xs
  | [] => rfl
  | x :: rest => by
    rw [prettyItems, spacedItems, prettyChars_eq (indent + 2) x, prettyItems_eq indent rest,
      List.append_assoc]
    rfl

theorem prettyFields_eq (indent : Nat) :
    ∀ fs : List (String × Json), prettyFields indent fs = spacedFields .pretty indent fs
  | [] => rfl
  | (name, x) :: rest => by
    rw [prettyFields, spacedFields, prettyChars_eq (indent + 2) x, prettyFields_eq indent rest,
      List.append_assoc]
    rfl

end

end Json

theorem skipSpace_append {blanks : List Char} (blank : ∀ c ∈ blanks, isSpace c = true)
    (text : List Char) : skipSpace (blanks ++ text) = skipSpace text :=
  List.dropWhile_append_of_pos blank

theorem skipSpace_cons {c : Char} (visible : isSpace c = false) (text : List Char) :
    skipSpace (c :: text) = c :: text := by
  simp [skipSpace, visible]

theorem value?_blanks {blanks : List Char} (blank : ∀ c ∈ blanks, isSpace c = true)
    (fuel depth : Nat) (text : List Char) : value? fuel depth (blanks ++ text) = value? fuel depth text := by
  cases fuel with
  | zero => rw [value?, value?]
  | succ fuel => rw [value?, value?, skipSpace_append blank]

theorem NumberStops.space {c : Char} (white : isSpace c = true) (rest : List Char) :
    NumberStops (c :: rest) := by
  simp only [isSpace, Bool.or_eq_true, decide_eq_true_eq] at white
  rcases white with ((rfl | rfl) | rfl) | rfl <;>
    exact .cons rfl (by decide) (by decide) (by decide) _

theorem NumberStops.blanks {blanks : List Char} (blank : ∀ c ∈ blanks, isSpace c = true)
    {rest : List Char} (stops : NumberStops rest) : NumberStops (blanks ++ rest) := by
  rcases blanks with _ | ⟨c, blanks⟩
  · exact stops
  · exact .space (blank c (List.mem_cons_self ..)) _

def StartsNumber (c : Char) : Prop := c.isDigit = true ∨ c = '-'

theorem StartsNumber.ne {c d : Char} (front : StartsNumber c) (noDigit : d.isDigit = false)
    (noSign : d ≠ '-') : c ≠ d := by
  rintro rfl
  rcases front with digit | sign
  · rw [noDigit] at digit
    cases digit
  · exact noSign sign

theorem StartsNumber.visible {c : Char} (front : StartsNumber c) : isSpace c = false := by
  simp [isSpace, front.ne (d := ' ') rfl (by decide), front.ne (d := '\n') rfl (by decide),
    front.ne (d := '\t') rfl (by decide), front.ne (d := '\r') rfl (by decide)]

theorem startsNumber_intChars (n : Int) : ∃ c rest, intChars n = c :: rest ∧ StartsNumber c := by
  cases n with
  | ofNat n =>
    have digits := @Numeral.isDigit_toDigits n
    cases shape : Nat.toDigits 10 n with
    | nil => exact absurd shape Nat.toDigits_ne_nil
    | cons d ds =>
      rw [shape] at digits
      exact ⟨d, ds, shape, .inl (digits d (List.mem_cons_self ..))⟩
  | negSucc n => exact ⟨_, _, rfl, .inr rfl⟩

theorem value?_number {c : Char} (front : StartsNumber c) (fuel depth : Nat) (rest : List Char) :
    value? (fuel + 1) depth (c :: rest) = number? (c :: rest) := by
  have other {d : Char} {text : List Char} (noDigit : d.isDigit = false) (noSign : d ≠ '-') :
      c :: rest ≠ d :: text := fun same => front.ne noDigit noSign (List.cons.inj same).1
  rw [value?, skipSpace_cons front.visible]
  split
  · exact absurd ‹_› (other rfl (by decide))
  · exact absurd ‹_› (other rfl (by decide))
  · exact absurd ‹_› (other rfl (by decide))
  · exact absurd ‹_› (other rfl (by decide))
  · exact absurd ‹_› (other rfl (by decide))
  · exact absurd ‹_› (other rfl (by decide))
  · rfl

namespace Json

variable (s : Spacing)

theorem spaced_front {depth : Nat} {x : Json} (within : x.Within depth) (indent : Nat) :
    ∃ c rest, spaced s indent x = c :: rest ∧ isSpace c = false ∧ c ≠ ']' := by
  cases within with
  | null => exact ⟨'n', _, by rw [spaced]; rfl, rfl, by decide⟩
  | @bool _ b =>
    cases b
    · exact ⟨'f', _, by rw [spaced]; rfl, rfl, by decide⟩
    · exact ⟨'t', _, by rw [spaced]; rfl, rfl, by decide⟩
  | @int _ n =>
    obtain ⟨c, rest, shape, front⟩ := startsNumber_intChars n
    exact ⟨c, rest, by rw [spaced, shape], front.visible, front.ne rfl (by decide)⟩
  | str => exact ⟨'\x22', _, by rw [spaced]; rfl, rfl, by decide⟩
  | @list _ items =>
    cases items <;> exact ⟨'[', _, by rw [spaced], rfl, by decide⟩
  | @object _ fields =>
    rcases fields with _ | ⟨⟨name, x⟩, fields⟩ <;> exact ⟨'\x7b', _, by rw [spaced], rfl, by decide⟩

def ReadsBack (depth : Nat) (x : Json) : Prop :=
  ∀ indent fuel rest, (spaced s indent x).length ≤ fuel → NumberStops rest →
    value? fuel depth (spaced s indent x ++ rest) = some (x, rest)

theorem spacedItems_stops (indent : Nat) (xs : List Json) (rest : List Char) :
    NumberStops (spacedItems s indent xs ++ rest) := by
  rcases xs with _ | ⟨x, xs⟩
  · rw [spacedItems, List.append_assoc, List.singleton_append]
    exact .blanks (s.newItem_isSpace indent) (.cons rfl (by decide) (by decide) (by decide) rest)
  · rw [spacedItems, List.cons_append]
    exact .cons rfl (by decide) (by decide) (by decide) _

theorem spacedFields_stops (indent : Nat) (fs : List (String × Json)) (rest : List Char) :
    NumberStops (spacedFields s indent fs ++ rest) := by
  rcases fs with _ | ⟨⟨name, x⟩, fs⟩
  · rw [spacedFields, List.append_assoc, List.singleton_append]
    exact .blanks (s.newItem_isSpace indent) (.cons rfl (by decide) (by decide) (by decide) rest)
  · rw [spacedFields, List.cons_append]
    exact .cons rfl (by decide) (by decide) (by decide) _

variable {s}

theorem items?_spaced {depth : Nat} {x : Json} {xs : List Json} (first : ReadsBack s depth x)
    (others : ∀ y ∈ xs, ReadsBack s depth y) {indent fuel : Nat} {blanks : List Char}
    (blank : ∀ c ∈ blanks, isSpace c = true) (rest : List Char)
    (enough : (spaced s (indent + 2) x ++ spacedItems s indent xs).length ≤ fuel) :
    items? fuel depth (blanks ++ (spaced s (indent + 2) x ++ (spacedItems s indent xs ++ rest))) =
      some (x :: xs, rest) := by
  induction xs generalizing x fuel blanks with
  | nil =>
    rw [spacedItems, List.length_append, List.length_append, List.length_singleton] at enough
    obtain ⟨fuel, rfl⟩ := Nat.exists_eq_add_one_of_ne_zero (show fuel ≠ 0 by omega)
    have read := first (indent + 2) fuel _ (by omega) (spacedItems_stops s indent [] rest)
    have closing : skipSpace (spacedItems s indent [] ++ rest) = ']' :: rest := by
      rw [spacedItems, List.append_assoc, skipSpace_append (s.newItem_isSpace indent)]
      rfl
    rw [items?, value?_blanks blank, read]
    simp only [Option.bind_eq_bind, Option.bind_some, closing]
    rfl
  | cons y ys ih =>
    rw [spacedItems, List.length_append, List.length_cons, List.length_append] at enough
    obtain ⟨fuel, rfl⟩ := Nat.exists_eq_add_one_of_ne_zero (show fuel ≠ 0 by omega)
    have read := first (indent + 2) fuel _ (by omega) (spacedItems_stops s indent (y :: ys) rest)
    have comma : skipSpace (spacedItems s indent (y :: ys) ++ rest) =
        ',' :: (s.newItem (indent + 2) ++ (spaced s (indent + 2) y ++
          (spacedItems s indent ys ++ rest))) := by
      rw [spacedItems, List.cons_append, skipSpace_cons rfl, List.append_assoc, List.append_assoc]
    have further := @ih y (others y (List.mem_cons_self ..))
      (fun z member => others z (List.mem_cons_of_mem y member)) fuel _
      (s.newItem_isSpace (indent + 2)) (by omega)
    rw [items?, value?_blanks blank, read]
    simp only [Option.bind_eq_bind, Option.bind_some, comma, further]
    rfl

theorem fields?_spaced {depth : Nat} {name : String} {x : Json} {fs : List (String × Json)}
    (first : ReadsBack s depth x) (others : ∀ f ∈ fs, ReadsBack s depth f.2) {indent fuel : Nat}
    {blanks : List Char} (blank : ∀ c ∈ blanks, isSpace c = true) (rest : List Char)
    (enough : (spaced s (indent + 2) x ++ spacedFields s indent fs).length ≤ fuel) :
    fields? fuel depth (blanks ++ (stringChars name ++ ':' :: (s.afterColon ++
      (spaced s (indent + 2) x ++ (spacedFields s indent fs ++ rest))))) =
        some ((name, x) :: fs, rest) := by
  induction fs generalizing name x fuel blanks with
  | nil =>
    rw [spacedFields, List.length_append, List.length_append, List.length_singleton] at enough
    obtain ⟨fuel, rfl⟩ := Nat.exists_eq_add_one_of_ne_zero (show fuel ≠ 0 by omega)
    have read := first (indent + 2) fuel _ (by omega) (spacedFields_stops s indent [] rest)
    have closing : skipSpace (spacedFields s indent [] ++ rest) = '\x7d' :: rest := by
      rw [spacedFields, List.append_assoc, skipSpace_append (s.newItem_isSpace indent)]
      rfl
    rw [fields?, skipSpace_append blank, stringChars, List.cons_append, skipSpace_cons rfl]
    simp only [Option.bind_eq_bind, string?_stringChars, Option.bind_some,
      skipSpace_cons (c := ':') rfl, value?_blanks s.afterColon_isSpace, read, closing]
    rfl
  | cons f fs ih =>
    obtain ⟨other, y⟩ := f
    rw [spacedFields, List.length_append, List.length_cons, List.length_append, List.length_append,
      List.length_cons, List.length_append] at enough
    obtain ⟨fuel, rfl⟩ := Nat.exists_eq_add_one_of_ne_zero (show fuel ≠ 0 by omega)
    have read := first (indent + 2) fuel _ (by omega)
      (spacedFields_stops s indent ((other, y) :: fs) rest)
    have comma : skipSpace (spacedFields s indent ((other, y) :: fs) ++ rest) =
        ',' :: (s.newItem (indent + 2) ++ (stringChars other ++ ':' :: (s.afterColon ++
          (spaced s (indent + 2) y ++ (spacedFields s indent fs ++ rest))))) := by
      rw [spacedFields, List.cons_append, skipSpace_cons rfl]
      simp only [List.append_assoc, List.cons_append]
    have further := @ih other y (others (other, y) (List.mem_cons_self ..))
      (fun g member => others g (List.mem_cons_of_mem _ member)) fuel _
      (s.newItem_isSpace (indent + 2)) (by rw [List.length_append] at enough ⊢; omega)
    rw [fields?, skipSpace_append blank, stringChars, List.cons_append, skipSpace_cons rfl]
    simp only [Option.bind_eq_bind, string?_stringChars, Option.bind_some,
      skipSpace_cons (c := ':') rfl, value?_blanks s.afterColon_isSpace, read, comma, further]
    rfl

theorem ReadsBack.of_succ {depth : Nat} {x : Json} (within : x.Within depth)
    (read : ∀ indent fuel rest, (spaced s indent x).length ≤ fuel + 1 → NumberStops rest →
      value? (fuel + 1) depth (spaced s indent x ++ rest) = some (x, rest)) :
    ReadsBack s depth x := by
  intro indent fuel rest enough stops
  obtain ⟨c, chars, shape, -⟩ := spaced_front s within indent
  cases fuel with
  | zero =>
    rw [shape] at enough
    cases enough
  | succ fuel => exact read indent fuel rest enough stops

theorem Within.readsBack {depth : Nat} {x : Json} (within : x.Within depth) :
    ReadsBack s depth x := by
  induction within with
  | null =>
    refine .of_succ .null fun indent fuel rest _ _ => ?_
    rw [spaced]
    rfl
  | @bool _ b =>
    refine .of_succ .bool fun indent fuel rest _ _ => ?_
    rw [spaced]
    cases b <;> rfl
  | @int _ n low high =>
    refine .of_succ (.int low high) fun indent fuel rest _ stops => ?_
    have read := number?_intChars low high stops
    obtain ⟨c, digits, shape, front⟩ := startsNumber_intChars n
    rw [spaced, shape, List.cons_append, value?_number front, ← List.cons_append, ← shape, read]
  | @str _ t =>
    refine .of_succ .str fun indent fuel rest _ _ => ?_
    rw [spaced, stringChars, List.cons_append, value?, skipSpace_cons rfl]
    simp only [string?_stringChars, Option.map_some]
  | @list depth items within ih =>
    refine .of_succ (.list within) fun indent fuel rest enough _ => ?_
    rcases items with _ | ⟨x, xs⟩
    · rw [spaced]
      rfl
    · obtain ⟨c, chars, shape, visible, inside⟩ :=
        spaced_front s (within x (List.mem_cons_self ..)) (indent + 2)
      have noBlanks : ∀ c ∈ ([] : List Char), isSpace c = true := by simp
      rw [spaced, List.length_cons, List.length_append] at enough
      have read := items?_spaced (ih x (List.mem_cons_self ..))
        (fun y member => ih y (List.mem_cons_of_mem x member)) noBlanks rest
        (show (spaced s (indent + 2) x ++ spacedItems s indent xs).length ≤ fuel by omega)
      rw [List.nil_append, shape, List.cons_append] at read
      rw [spaced, List.cons_append, value?, skipSpace_cons rfl]
      simp only [List.append_assoc, skipSpace_append (s.newItem_isSpace (indent + 2)), shape,
        List.cons_append, skipSpace_cons visible]
      -- The first item starts with no bracket, so the list is not empty.
      split
      · rename_i close
        exact absurd (List.cons.inj close).1 inside
      · exact congrArg (Option.map fun found => (Json.list found.1, found.2)) read
  | @object depth fields within ih =>
    refine .of_succ (.object within) fun indent fuel rest enough _ => ?_
    rcases fields with _ | ⟨⟨name, x⟩, fs⟩
    · rw [spaced]
      rfl
    · have noBlanks : ∀ c ∈ ([] : List Char), isSpace c = true := by simp
      rw [spaced, List.length_cons, List.length_append, List.length_append, List.length_cons,
        List.length_append] at enough
      have read := @fields?_spaced s depth name x fs (ih _ (List.mem_cons_self ..))
        (fun f member => ih f (List.mem_cons_of_mem _ member)) indent fuel [] noBlanks rest
        (by omega)
      rw [List.nil_append, stringChars, List.cons_append] at read
      rw [spaced, List.cons_append, value?, skipSpace_cons rfl]
      simp only [List.append_assoc, skipSpace_append (s.newItem_isSpace (indent + 2)), stringChars,
        List.cons_append, skipSpace_cons (c := '\x22') rfl]
      simp only [List.append_assoc, List.cons_append] at read
      exact congrArg (Option.map fun found => (Json.object found.1, found.2)) read

theorem ofText?_spaced {x : Json} (within : x.Within maxDepth) (indent : Nat) {blanks : List Char}
    (blank : ∀ c ∈ blanks, isSpace c = true) :
    ofText? (String.ofList (spaced s indent x ++ blanks)) = some x := by
  have read := @Within.readsBack s maxDepth x within indent
    ((spaced s indent x ++ blanks).length + 1) blanks
    (by rw [List.length_append]; omega) (List.append_nil blanks ▸ .blanks blank .nil)
  have rest : skipSpace blanks = [] := List.append_nil blanks ▸ skipSpace_append blank []
  simp only [ofText?, String.toList_ofList, read, rest]
  rfl

theorem ofText?_compact {x : Json} (within : x.Within maxDepth) : ofText? x.compact = some x := by
  have read := @ofText?_spaced .compact x within 0 [] (by simp)
  rwa [List.append_nil, ← compactChars_eq] at read

theorem ofText?_pretty {x : Json} (within : x.Within maxDepth) : ofText? x.pretty = some x := by
  have read := @ofText?_spaced .pretty x within 0 [] (by simp)
  rwa [List.append_nil, ← prettyChars_eq] at read

theorem ofText?_prettyLine {x : Json} (within : x.Within maxDepth) :
    ofText? (x.pretty ++ "\n") = some x := by
  have read := @ofText?_spaced .pretty x within 0 ['\n'] (by simp [isSpace])
  rw [← prettyChars_eq, String.ofList_append] at read
  exact read

end Json

end SortTrace.Wire
