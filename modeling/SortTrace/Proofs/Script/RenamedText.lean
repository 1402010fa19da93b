import SortTrace.Proofs.Script.Printed
import SortTrace.Proofs.Script.Renamed
import SortTrace.Proofs.Text.Escapes
import SortTrace.Proofs.Text.Rewriting

/-!
The text of a renamed expression. In a printed text the names are the words outside of quotes that do
not stand behind a point, reserved words and numbers aside, so they can be renamed in the text itself.
With that, texts that are different stay different under other names.
-/

namespace SortTrace.Script

open Text

mutual

/-- Names are identifiers and properties are words, no number is infinite, and there are no templates.
Function bodies are not looked at. -/
def Expr.isRenamable : Expr → Bool
  | .number v _ => !v.isInfinite
  | .template .. => false
  | .str .. | .bool .. | .null _ => true
  | .ident name _ => isIdentifier name
  | .array items _ => Expr.areRenamable items
  | .unary _ e _ | .update _ _ e _ => e.isRenamable
  | .binary l _ r _ | .assign _ l r _ | .index l r _ => l.isRenamable && r.isRenamable
  | .conditional t c a _ => t.isRenamable && c.isRenamable && a.isRenamable
  | .call f args _ => f.isRenamable && Expr.areRenamable args
  | .member o p _ => o.isRenamable && isWord p
  | .func f _ => f.title.all isIdentifier

def Expr.areRenamable : List Expr → Bool
  | [] => true
  | e :: rest => e.isRenamable && Expr.areRenamable rest

end

/-- Where a character stands: outside of words, in a word that has been renamed, behind a point, or
in quotes. -/
inductive Spot where
  | free
  | word
  | behindPoint
  | quoted
  | escaped

namespace Spot

def opened (c : Char) : Spot :=
  if isNamePart c then word else if c = '.' then behindPoint else if c = '\x22' then quoted else free

def next : Spot → Char → Spot
  | free, c | word, c => opened c
  | behindPoint, c => if isNamePart c then behindPoint else opened c
  | quoted, c => if c = '\\' then escaped else if c = '\x22' then free else quoted
  | escaped, _ => quoted

def write (g : String → String) : Spot → Char → List Char → List Char
  | free, c, rest =>
    if isNamePart c then (g (String.ofList (c :: rest.takeWhile isNamePart))).toList else [c]
  | word, c, _ => if isNamePart c then [] else [c]
  | behindPoint, c, _ | quoted, c, _ | escaped, c, _ => [c]

end Spot

def renamer (g : String → String) : Rewriter Spot := ⟨Spot.write g, Spot.next⟩

section

variable {g : String → String} {cs : List Char} {text out text' out' : String}

/-- In front of what is no part of a name, a text becomes another one. -/
abbrev Renames (g : String → String) (text out : String) : Prop :=
  (renamer g).Turns NameEnds .free text.toList out.toList .free

abbrev Copies (g : String → String) (cs : List Char) : Prop :=
  (renamer g).Turns (fun _ => True) .free cs cs .free

theorem run_nameEnds {s : Spot} (settled : s = .word ∨ s = .behindPoint) {rest : List Char}
    (ends : NameEnds rest) : (renamer g).run s rest = (renamer g).run .free rest := by
  rcases rest with _ | ⟨c, rest⟩
  · rcases settled with rfl | rfl <;> rfl
  · have other : isNamePart c = false := ends c rfl
    rcases settled with rfl | rfl <;>
      simp [Rewriter.run, renamer, Spot.write, Spot.next, other]

namespace Renames

theorem nil : Renames g "" "" := Rewriter.Turns.nil

theorem copied {mark : String} (copies : Copies g mark.toList) : Renames g mark mark :=
  fun rest _ => copies rest trivial

theorem behind {mark : String} (copies : Copies g mark.toList) (renames : Renames g text out) :
    Renames g (mark ++ text) (mark ++ out) := by
  have whole := Rewriter.Turns.append copies renames fun _ _ => trivial
  simpa only [Renames, String.toList_append] using whole

theorem append (renames : Renames g text out) (opens : Opens (isNamePart · = false) text')
    (more : Renames g text' out') : Renames g (text ++ text') (out ++ out') := by
  have ends (rest : List Char) (_ : NameEnds rest) : NameEnds (text'.toList ++ rest) := by
    obtain ⟨c, tail, shape, other⟩ := opens
    rw [shape]
    exact NameEnds.cons other _
  have whole := Rewriter.Turns.append renames more ends
  simpa only [Renames, String.toList_append] using whole

theorem parts {first : Char} (start : isNamePart first = true)
    (all : ∀ c ∈ cs, isNamePart c = true) :
    Renames g (String.ofList (first :: cs)) (g (String.ofList (first :: cs))) := by
  have inside : (renamer g).Turns NameEnds .word cs [] .word := by
    intro rest ends
    induction cs with
    | nil => rfl
    | cons c cs ih =>
      have part := all c List.mem_cons_self
      have others := ih fun d member => all d (List.mem_cons_of_mem c member)
      simpa [Rewriter.run, renamer, Spot.write, Spot.next, Spot.opened, part] using others
  intro rest ends
  have whole : (cs ++ rest).takeWhile isNamePart = cs := by
    rw [List.takeWhile_append_of_pos all, ends.takeWhile, List.append_nil]
  have front : (renamer g).run .free (first :: (cs ++ rest)) =
      (g (String.ofList (first :: cs))).toList ++ (renamer g).run .word (cs ++ rest) := by
    simp [Rewriter.run, renamer, Spot.write, Spot.next, Spot.opened, start, whole]
  rw [String.toList_ofList, List.cons_append, front, inside rest ends, List.nil_append,
    run_nameEnds (.inl rfl) ends]

theorem word {name : String} (spelled : isWord name = true) : Renames g name (g name) := by
  obtain ⟨first, tail, chars, start, all⟩ := isWord_chars spelled
  have row := @parts g tail first (isNamePart_of_isNameStart start) all
  rwa [← chars, String.ofList_toList] at row

theorem point (all : ∀ c ∈ cs, isNamePart c = true) :
    (renamer g).Turns NameEnds .free ('.' :: cs) ('.' :: cs) .free := by
  have first : (renamer g).Turns (fun _ => True) .free ['.'] ['.'] .behindPoint := fun _ _ => rfl
  have others : (renamer g).Turns NameEnds .behindPoint cs cs .behindPoint := by
    refine .copy (fun _ _ _ => rfl) fun c member => ?_
    simp [renamer, Spot.next, all c member]
  intro rest ends
  have whole := Rewriter.Turns.append first others (fun _ _ => trivial) rest ends
  rw [run_nameEnds (.inr rfl) ends] at whole
  exact whole

theorem property {p : String} (renames : Renames g text out) (spelled : isWord p = true) :
    Renames g (text ++ "." ++ p) (out ++ "." ++ p) := by
  obtain ⟨first, tail, chars, start, all⟩ := isWord_chars spelled
  have behind : Renames g ("." ++ p) ("." ++ p) := by
    have parts : ∀ c ∈ p.toList, isNamePart c = true := by
      rw [chars]
      exact List.forall_mem_cons.mpr ⟨isNamePart_of_isNameStart start, all⟩
    unfold Renames
    rw [String.toList_append]
    exact point parts
  rw [String.append_assoc, String.append_assoc]
  exact renames.append ⟨'.', p.toList, by simp, rfl⟩ behind

variable (keeps : ∀ name, isIdentifier name = false → g name = name)

include keeps

theorem digits {first : Char} (all : ∀ c ∈ first :: cs, c.isDigit = true) :
    Renames g (String.ofList (first :: cs)) (String.ofList (first :: cs)) := by
  have parts : ∀ c ∈ first :: cs, isNamePart c = true :=
    fun c member => isNamePart_of_isDigit (all c member)
  have other : isIdentifier (String.ofList (first :: cs)) = false := by
    have start : isNameStart first = false := by
      refine Bool.eq_false_iff.mpr fun start => ?_
      have digit := all first List.mem_cons_self
      rw [isDigit_of_isNameStart start] at digit
      cases digit
    simp [isIdentifier, start]
  have row := @Renames.parts g cs first (parts first List.mem_cons_self)
    fun c member => parts c (List.mem_cons_of_mem first member)
  rwa [keeps _ other] at row

theorem number {v : Numeral.Magnitude} (finite : v.isInfinite = false) :
    Renames g v.text v.text := by
  have shape := (Numeral.Magnitude.text_finite finite).1
  generalize chars : v.text.toList = cs at shape
  have text : v.text = String.ofList cs := by rw [← chars, String.ofList_toList]
  rw [text]
  cases shape with
  | @whole ds nonempty all =>
    obtain ⟨first, tail, rfl⟩ := List.exists_cons_of_ne_nil nonempty
    exact digits keeps all
  | @fraction ds places nonempty all nonemptyPlaces allPlaces =>
    obtain ⟨first, tail, rfl⟩ := List.exists_cons_of_ne_nil nonempty
    have behind := @point g places fun c member => isNamePart_of_isDigit (allPlaces c member)
    have whole := Rewriter.Turns.append (digits keeps all) behind
      fun rest _ => NameEnds.cons (by decide) _
    simpa only [Renames, String.toList_ofList] using whole

theorem keyword (w : Keyword) : Renames g w.text w.text := by
  have reserved : isIdentifier w.text = false := by cases w <;> decide
  have row := @word g w.text (isWord_text w)
  rwa [keeps _ reserved] at row

end Renames

theorem Renames.str (v : String) : Renames g (quote v) (quote v) := by
  have plain {cs : List Char} (plain : ∀ c ∈ cs, IsPlain c) :
      (renamer g).Turns (fun _ => True) .quoted cs cs .quoted := by
    refine .copy (fun _ _ _ => rfl) fun c member => ?_
    obtain ⟨-, slash, quote⟩ := plain c member
    simp [renamer, Spot.next, slash, quote]
  have one (c : Char) :
      (renamer g).Turns (fun _ => True) .quoted (quoteChar c) (quoteChar c) .quoted := by
    generalize quoteChar c = w, quoted_quoteChar c = quoted
    cases quoted with
    | plain visible => exact plain (by simpa using visible)
    | short letter => exact fun _ _ => rfl
    | code =>
      have digits : ∀ d ∈ '\x7b' :: (hexDigits c.toNat ++ ['\x7d']), IsPlain d := by
        refine List.forall_mem_cons.mpr ⟨by decide +kernel, List.forall_mem_append.mpr ⟨?_, ?_⟩⟩
        · exact fun d member => plain_hexDigits member
        · simpa using (by decide +kernel : IsPlain '\x7d')
      have mark : (renamer g).Turns (fun _ => True) .quoted ['\\', 'u'] ['\\', 'u'] .quoted :=
        fun _ _ => rfl
      exact Rewriter.Turns.append mark (plain digits) fun _ _ => trivial
  have inside (cs : List Char) : (renamer g).Turns (fun _ => True) .quoted (cs.flatMap quoteChar)
      (cs.flatMap quoteChar) .quoted := by
    induction cs with
    | nil => exact .nil
    | cons c cs ih =>
      rw [List.flatMap_cons]
      exact Rewriter.Turns.append (one c) ih fun _ _ => trivial
  have left : (renamer g).Turns (fun _ => True) .free ['\x22'] ['\x22'] .quoted := fun _ _ => rfl
  have right : (renamer g).Turns (fun _ => True) .quoted ['\x22'] ['\x22'] .free := fun _ _ => rfl
  intro rest _
  rw [toList_quote, toList_escaped]
  exact Rewriter.Turns.append left (Rewriter.Turns.append (inside v.toList) right
    fun _ _ => trivial) (fun _ _ => trivial) rest trivial

structure Joint (g : String → String) (mark : String) : Prop where
  opens : Opens (isNamePart · = false) mark
  copies : Copies g mark.toList

namespace Joint

theorem round : Joint g "(" := ⟨⟨'(', [], rfl, rfl⟩, fun _ _ => rfl⟩

theorem roundEnd : Joint g ")" := ⟨⟨')', [], rfl, rfl⟩, fun _ _ => rfl⟩

theorem square : Joint g "[" := ⟨⟨'[', [], rfl, rfl⟩, fun _ _ => rfl⟩

theorem squareEnd : Joint g "]" := ⟨⟨']', [], rfl, rfl⟩, fun _ _ => rfl⟩

theorem blank : Joint g " " := ⟨⟨' ', [], rfl, rfl⟩, fun _ _ => rfl⟩

theorem comma : Joint g ", " := ⟨⟨',', [' '], rfl, rfl⟩, fun _ _ => rfl⟩

theorem question : Joint g " ? " := ⟨⟨' ', ['?', ' '], rfl, rfl⟩, fun _ _ => rfl⟩

theorem colon : Joint g " : " := ⟨⟨' ', [':', ' '], rfl, rfl⟩, fun _ _ => rfl⟩

theorem step (op : UpdateOp) : Joint g op.text := by
  cases op with
  | increment => exact ⟨⟨'+', ['+'], rfl, rfl⟩, fun _ _ => rfl⟩
  | decrement => exact ⟨⟨'-', ['-'], rfl, rfl⟩, fun _ _ => rfl⟩

end Joint

theorem copies_binary (op : BinOp) : Copies g op.text.toList := by
  cases op <;> exact fun _ _ => rfl

theorem copies_assign (op : AssignOp) : Copies g op.text.toList := by
  cases op <;> exact fun _ _ => rfl

namespace Renames

theorem mark {mark : String} (joint : Joint g mark) : Renames g mark mark := .copied joint.copies

theorem opened {mark : String} (joint : Joint g mark) (renames : Renames g text out) :
    Renames g (mark ++ text) (mark ++ out) := .behind joint.copies renames

theorem closed {mark : String} (renames : Renames g text out) (joint : Joint g mark) :
    Renames g (text ++ mark) (out ++ mark) := renames.append joint.opens (.mark joint)

theorem joined {mark : String} (renames : Renames g text out) (joint : Joint g mark)
    (more : Renames g text' out') : Renames g (text ++ mark ++ text') (out ++ mark ++ out') := by
  rw [String.append_assoc, String.append_assoc]
  exact renames.append (.append joint.opens text') (.opened joint more)

theorem operator {op : String} (renames : Renames g text out) (copies : Copies g op.toList)
    (more : Renames g text' out') :
    Renames g (text ++ " " ++ op ++ " " ++ text') (out ++ " " ++ op ++ " " ++ out') := by
  have behind := renames.joined .blank (.behind copies (.opened .blank more))
  simpa only [String.append_assoc] using behind

theorem inPlace {e : Expr} (renames : Renames g e.text (e.renamed g).text) (least : Nat) :
    Renames g (e.inPlace least e.text) ((e.renamed g).inPlace least (e.renamed g).text) := by
  unfold Expr.inPlace
  rw [e.level_renamed]
  split
  · rw [String.append_assoc, String.append_assoc]
    exact .opened .round (renames.closed .roundEnd)
  · exact renames

theorem sign (keeps : ∀ name, isIdentifier name = false → g name = name) (op : UnaryOp)
    (renames : Renames g text out) : Renames g (op.text ++ text) (op.text ++ out) := by
  cases op with
  | neg => exact @behind g text out "-" (fun _ _ => rfl) renames
  | plus => exact @behind g text out "+" (fun _ _ => rfl) renames
  | not => exact @behind g text out "!" (fun _ _ => rfl) renames
  | typeof =>
    have apart : UnaryOp.typeof.text = Keyword.typeofWord.text ++ " " := by decide
    rw [apart]
    exact (keyword keeps .typeofWord).joined .blank renames

end Renames

theorem renames_tailText {es : List Expr} (all : ∀ e ∈ es, Renames g e.text (e.renamed g).text)
    (renames : Renames g text out) :
    Renames g (text ++ Expr.tailText es) (out ++ Expr.tailText (Expr.renameds g es)) := by
  induction es generalizing text out with
  | nil => simpa [Expr.tailText] using renames
  | cons e es ih =>
    obtain ⟨first, others⟩ := List.forall_mem_cons.mp all
    rw [Expr.renameds, Expr.tailText, Expr.tailText]
    simpa only [String.append_assoc] using ih others (renames.joined .comma first)

theorem renames_listText {es : List Expr} (all : ∀ e ∈ es, Renames g e.text (e.renamed g).text) :
    Renames g (Expr.listText es) (Expr.listText (Expr.renameds g es)) := by
  rcases es with _ | ⟨e, es⟩
  · exact .nil
  · obtain ⟨first, others⟩ := List.forall_mem_cons.mp all
    exact renames_tailText others first

theorem listText_names (names : List String) :
    Expr.listText (names.map fun name => .ident name {}) = ", ".intercalate names := by
  rw [listText_eq, List.map_map]
  exact congrArg _ (List.map_id names)

theorem renames_names {names : List String} (spelled : ∀ name ∈ names, isIdentifier name = true) :
    Renames g (", ".intercalate names) (", ".intercalate (names.map g)) := by
  have list := @renames_listText g (names.map fun name => .ident name {}) fun e member => by
    obtain ⟨name, inside, rfl⟩ := List.mem_map.mp member
    exact .word (isWord_of_isIdentifier (spelled name inside))
  rw [Expr.renameds_eq_map, List.map_map] at list
  rw [← listText_names, ← listText_names, List.map_map]
  exact list

theorem renames_header (keeps : ∀ name, isIdentifier name = false → g name = name) {f : Func}
    (spelled : ∀ name ∈ f.title, isIdentifier name = true) :
    Renames g f.header (f.renamed g).header := by
  rw [Func.title, List.forall_mem_append] at spelled
  have params : Renames g ("(" ++ ", ".intercalate f.params ++ ")")
      ("(" ++ ", ".intercalate (f.params.map g) ++ ")") := by
    rw [String.append_assoc, String.append_assoc]
    exact .opened .round ((renames_names spelled.2).closed .roundEnd)
  unfold Func.header
  rw [f.isArrow_renamed, f.params_renamed, f.name?_renamed]
  dsimp only
  split
  · exact params.closed ⟨⟨' ', _, rfl, rfl⟩, fun _ _ => rfl⟩
  · have title : Renames g ("function " ++ f.name?.getD "")
        ("function " ++ (f.name?.map g).getD "") := by
      have apart : "function " = Keyword.functionWord.text ++ " " := by decide
      rw [apart]
      refine (Renames.keyword keeps .functionWord).joined .blank ?_
      cases named : f.name? with
      | none => exact .nil
      | some name => exact .word (isWord_of_isIdentifier (spelled.1 name (by simp [named])))
    have opens : Opens (isNamePart · = false) ("(" ++ ", ".intercalate f.params ++ ")") :=
      .append (.append (@Joint.round g).opens _) _
    exact (title.append opens params).closed ⟨⟨' ', _, rfl, rfl⟩, fun _ _ => rfl⟩

mutual

theorem renames_text (keeps : ∀ name, isIdentifier name = false → g name = name) :
    ∀ e : Expr, e.isRenamable = true → Renames g e.text (e.renamed g).text
  | .number v _, finite => .number keeps (by simpa [Expr.isRenamable] using finite)
  | .str v _, _ => .str v
  | .template .., never => by cases never
  | .bool true _, _ => .keyword keeps .trueWord
  | .bool false _, _ => .keyword keeps .falseWord
  | .null _, _ => .keyword keeps .nullWord
  | .ident name _, spelled => .word (isWord_of_isIdentifier spelled)
  | .array items _, renamable => by
    have inside := renames_listText (renames_texts keeps items renamable)
    have whole := Renames.opened .square (inside.closed .squareEnd)
    simpa only [Expr.renamed, Expr.text, String.append_assoc] using whole
  | .unary op e _, renamable =>
    .sign keeps op ((renames_text keeps e renamable).inPlace 7)
  | .update op before e _, renamable => by
    have operand := (renames_text keeps e renamable).inPlace 8
    cases before with
    | true => exact .opened (.step op) operand
    | false => exact operand.closed (.step op)
  | .binary l op r _, renamable => by
    simp only [Expr.isRenamable, Bool.and_eq_true] at renamable
    exact ((renames_text keeps l renamable.1).inPlace op.precedence).operator (copies_binary op)
      ((renames_text keeps r renamable.2).inPlace (op.precedence + 1))
  | .assign op t v _, renamable => by
    simp only [Expr.isRenamable, Bool.and_eq_true] at renamable
    exact (renames_text keeps t renamable.1).operator (copies_assign op)
      (renames_text keeps v renamable.2)
  | .conditional t c a _, renamable => by
    simp only [Expr.isRenamable, Bool.and_eq_true] at renamable
    exact (((renames_text keeps t renamable.1.1).inPlace 1).joined .question
      (renames_text keeps c renamable.1.2)).joined .colon (renames_text keeps a renamable.2)
  | .call f args _, renamable => by
    simp only [Expr.isRenamable, Bool.and_eq_true] at renamable
    exact (((renames_text keeps f renamable.1).inPlace 8).joined .round
      (renames_listText (renames_texts keeps args renamable.2))).closed .roundEnd
  | .member o p _, renamable => by
    simp only [Expr.isRenamable, Bool.and_eq_true] at renamable
    exact ((renames_text keeps o renamable.1).inPlace 8).property renamable.2
  | .index o i _, renamable => by
    simp only [Expr.isRenamable, Bool.and_eq_true] at renamable
    exact (((renames_text keeps o renamable.1).inPlace 8).joined .square
      (renames_text keeps i renamable.2)).closed .squareEnd
  | .func f _, spelled => renames_header keeps (List.all_eq_true.mp spelled)

theorem renames_texts (keeps : ∀ name, isIdentifier name = false → g name = name) :
    ∀ es : List Expr, Expr.areRenamable es = true →
      ∀ e ∈ es, Renames g e.text (e.renamed g).text
  | [], _ => by simp
  | e :: rest, renamable => by
    simp only [Expr.areRenamable, Bool.and_eq_true] at renamable
    exact List.forall_mem_cons.mpr
      ⟨renames_text keeps e renamable.1, renames_texts keeps rest renamable.2⟩

end

theorem Renames.unique (renames : Renames g text out) (renames' : Renames g text out') :
    out = out' := by
  have ends : NameEnds [] := fun _ impossible => by cases impossible
  have same := (renames [] ends).symm.trans (renames' [] ends)
  simpa only [Rewriter.run, List.append_nil, String.toList_inj] using same

end

theorem isIdentifier_map (ρ : Renaming) (names : List String) :
    (names.map ρ.apply).all isIdentifier = names.all isIdentifier := by
  simp [Function.comp_def, ρ.isIdentifier_apply]

mutual

theorem isRenamable_renamed (ρ : Renaming) : ∀ e : Expr,
    (e.renamed ρ.apply).isRenamable = e.isRenamable
  | .number .. | .str .. | .template .. | .bool .. | .null _ => rfl
  | .ident name _ => ρ.isIdentifier_apply name
  | .array items _ => areRenamable_renameds ρ items
  | .unary _ e _ | .update _ _ e _ => isRenamable_renamed ρ e
  | .binary l _ r _ | .assign _ l r _ | .index l r _ => by
    simp only [Expr.renamed, Expr.isRenamable, isRenamable_renamed ρ l, isRenamable_renamed ρ r]
  | .conditional t c a _ => by
    simp only [Expr.renamed, Expr.isRenamable, isRenamable_renamed ρ t, isRenamable_renamed ρ c,
      isRenamable_renamed ρ a]
  | .call f args _ => by
    simp only [Expr.renamed, Expr.isRenamable, isRenamable_renamed ρ f,
      areRenamable_renameds ρ args]
  | .member o p _ => by simp only [Expr.renamed, Expr.isRenamable, isRenamable_renamed ρ o]
  | .func f _ => by
    simp only [Expr.renamed, Expr.isRenamable, f.title_renamed, isIdentifier_map]

theorem areRenamable_renameds (ρ : Renaming) : ∀ es : List Expr,
    Expr.areRenamable (Expr.renameds ρ.apply es) = Expr.areRenamable es
  | [] => rfl
  | e :: rest => by
    simp only [Expr.renameds, Expr.areRenamable, isRenamable_renamed ρ e,
      areRenamable_renameds ρ rest]

end

theorem text_renamed_eq_iff (ρ : Renaming) {a b : Expr} (left : a.isRenamable = true)
    (right : b.isRenamable = true) :
    (a.renamed ρ.apply).text = (b.renamed ρ.apply).text ↔ a.text = b.text := by
  constructor
  · intro same
    obtain ⟨back, undoes⟩ := ρ.apply_injective.hasLeftInverse
    have keeps (name : String) (other : isIdentifier name = false) : back name = name := by
      have undone := undoes name
      rwa [ρ.apply_other other] at undone
    have first := renames_text keeps (a.renamed ρ.apply) (by rwa [isRenamable_renamed])
    have second := renames_text keeps (b.renamed ρ.apply) (by rwa [isRenamable_renamed])
    rw [Expr.renamed_back undoes] at first second
    rw [same] at first
    exact first.unique second
  · intro same
    have first := renames_text (fun _ => ρ.apply_other) a left
    have second := renames_text (fun _ => ρ.apply_other) b right
    rw [same] at first
    exact first.unique second

end SortTrace.Script
