import SortTrace.Proofs.Script.Apparent
import SortTrace.Proofs.Script.Printed
import SortTrace.Proofs.Text.Escapes
import SortTrace.Proofs.Text.Rewriting

/-!
Respelling. A printed text is rewritten in one pass so that it can be scanned again whatever
expression it was printed from: signs are set apart, the parentheses around an operand become those
of a call, and what stands in quotes is quoted once more. The result is the text of an expression
from which what the first one looks like can be told.
-/

namespace SortTrace.Script

open Text

/-- An expression with a mark in front of its parentheses, which no quoted text looks like. -/
def Expr.group (e : Expr) : Expr := .call (.str "\x22" {}) [e] {}

/-- What stands for `e` in a place where parentheses would be put around `e`. -/
def Expr.grouped (least : Nat) (e inside : Expr) : Expr :=
  if e.level < least then inside.group else inside

def UnaryOp.apart : UnaryOp → Expr → Expr
  | .neg, e => .unary .not (.unary .neg e {}) {}
  | .plus, e => .unary .not (.unary .plus e {}) {}
  | op, e => .unary op e {}

/-- Two characters for each one, none of them a backslash. -/
def doubledChar (c : Char) : List Char := if c = '\\' then ['/', '\x22'] else [c, c]

def doubled (text : String) : String := String.ofList (text.toList.flatMap doubledChar)

mutual

def Expr.respelled : Expr → Expr
  | .number v _ => if v.isInfinite then .ident v.text {} else .number v {}
  | .str v _ => .str (escaped v) {}
  | .template v _ => .template (doubled v) {}
  | .bool v _ => .bool v {}
  | .null _ => .null {}
  | .ident name _ => .ident name {}
  | .array items _ => .array (Expr.respelleds items) {}
  | .unary op e _ => op.apart (e.grouped 7 e.respelled)
  | .update op true e _ => op.sign.apart (op.sign.apart (e.grouped 8 e.respelled))
  | .update op false e _ => .update op false (e.grouped 8 e.respelled) {}
  | .binary l op r _ =>
    .binary (l.grouped op.precedence l.respelled) op (r.grouped (op.precedence + 1) r.respelled) {}
  | .assign op t v _ => .assign op t.respelled v.respelled {}
  | .conditional t c a _ => .conditional (t.grouped 1 t.respelled) c.respelled a.respelled {}
  | .call f args _ => .call (f.grouped 8 f.respelled) (Expr.respelleds args) {}
  | .member o p _ => .member (o.grouped 8 o.respelled) p {}
  | .index o i _ => .index (o.grouped 8 o.respelled) i.respelled {}
  | .func f _ => .func f {}

def Expr.respelleds : List Expr → List Expr
  | [] => []
  | e :: rest => e.respelled :: Expr.respelleds rest

end

@[simp] theorem Expr.level_respelled (e : Expr) : e.respelled.level = e.level := by
  cases e with
  | number v s => rw [Expr.respelled]; split <;> rfl
  | unary op e s => cases op <;> rfl
  | update op before e s => cases before <;> cases op <;> rfl
  | _ => rfl

theorem Expr.level_grouped {least : Nat} (bound : least ≤ 8) (e : Expr) :
    least ≤ (e.grouped least e.respelled).level := by
  unfold Expr.grouped
  split
  · exact bound
  · rename_i high
    rw [e.level_respelled]
    omega

theorem Expr.inPlace_grouped {least : Nat} (bound : least ≤ 8) (e : Expr) (text : String) :
    (e.grouped least e.respelled).inPlace least text = text := by
  have high := Expr.level_grouped bound e
  rw [Expr.inPlace, if_neg (by omega)]

inductive Place where
  | opening
  | operand
  | quoted
  | escaped
  | accented

namespace Place

def behind (c : Char) : Place :=
  if isNamePart c || c = ')' || c = ']' || c = '.' then operand else opening

def isSign (c : Char) : Bool := c = '+' || c = '-'

/-- A sign in front of this is an operator between two operands or a part of one. -/
def isOperatorEnd : List Char → Bool
  | c :: _ => c = ' ' || c = '='
  | [] => true

def next : Place → Char → Place
  | opening, c => if c = '\x22' then quoted else if c = '\x60' then accented else behind c
  | operand, c => if isSign c then operand else behind c
  | quoted, c => if c = '\\' then escaped else if c = '\x22' then operand else quoted
  | escaped, _ => quoted
  | accented, c => if c = '\x60' then operand else accented

def write : Place → Char → List Char → List Char
  | opening, c, rest =>
    if c = '(' then ['\x22', '\\', '\x22', '\x22', '(']
    else if isSign c && !isOperatorEnd rest then ['!', c]
    else [c]
  | operand, c, _ => [c]
  | quoted, c, _ => if c = '\x22' then [c] else quoteChar c
  | escaped, c, _ => quoteChar c
  | accented, c, _ => if c = '\x60' then [c] else doubledChar c

end Place

def respeller : Rewriter Place := ⟨Place.write, Place.next⟩

abbrev Turns (s : Place) (text out : List Char) (t : Place) : Prop :=
  respeller.Turns (fun _ => True) s text out t

abbrev Becomes (text out : String) : Prop := Turns .opening text.toList out.toList .operand

theorem Turns.append {s t u : Place} {text out text' out' : List Char}
    (first : Turns s text out t) (second : Turns t text' out' u) :
    Turns s (text ++ text') (out ++ out') u :=
  Rewriter.Turns.append first second fun _ _ => trivial

theorem place_word {c : Char} (part : isNamePart c = true) :
    Place.next .opening c = .operand ∧ ∀ rest, Place.write .opening c rest = [c] := by
  have paren : c ≠ '(' := ne_of_isNamePart part rfl
  have plus : c ≠ '+' := ne_of_isNamePart part rfl
  have minus : c ≠ '-' := ne_of_isNamePart part rfl
  have quote : c ≠ '\x22' := ne_of_isNamePart part rfl
  have accent : c ≠ '\x60' := ne_of_isNamePart part rfl
  simp [Place.next, Place.write, Place.behind, Place.isSign, part, paren, plus, minus, quote, accent]

theorem turns_operand {cs : List Char} (parts : ∀ c ∈ cs, isNamePart c = true ∨ c = '.') :
    Turns .operand cs cs .operand := by
  refine .copy (fun _ _ _ => rfl) fun c member => ?_
  have behind : Place.behind c = .operand := by
    rcases parts c member with part | rfl
    · simp [Place.behind, part]
    · rfl
  show (if Place.isSign c then Place.operand else Place.behind c) = .operand
  rw [behind, ite_self]

namespace Becomes

theorem ofParts {text : String} {first : Char} {tail : List Char}
    (chars : text.toList = first :: tail) (start : isNamePart first = true)
    (parts : ∀ c ∈ tail, isNamePart c = true ∨ c = '.') : Becomes text text := by
  obtain ⟨next, written⟩ := place_word start
  have front : Turns .opening [first] [first] (Place.next .opening first) :=
    .one fun rest _ => written rest
  rw [next] at front
  unfold Becomes
  rw [chars]
  exact Turns.append front (turns_operand parts)

theorem word {text : String} (spelled : isWord text = true) : Becomes text text := by
  obtain ⟨first, tail, chars, start, parts⟩ := isWord_chars spelled
  exact .ofParts chars (isNamePart_of_isNameStart start) fun c member => .inl (parts c member)

theorem number {v : Numeral.Magnitude} (finite : v.isInfinite = false) :
    Becomes v.text v.text := by
  have shape := (Numeral.Magnitude.text_finite finite).1
  have digits {ds : List Char} (all : ∀ c ∈ ds, c.isDigit = true) :
      ∀ c ∈ ds, isNamePart c = true ∨ c = '.' :=
    fun c member => .inl (isNamePart_of_isDigit (all c member))
  obtain ⟨first, tail, chars⟩ := List.exists_cons_of_ne_nil shape.ne_nil
  have start : isNamePart first = true := by
    rw [chars] at shape
    exact isNamePart_of_isDigit (numberLength_positional shape .nil).1
  have parts : ∀ c ∈ v.text.toList, isNamePart c = true ∨ c = '.' := by
    generalize v.text.toList = cs at shape
    cases shape with
    | whole nonempty all => exact digits all
    | fraction nonempty all nonemptyPlaces allPlaces =>
      exact List.forall_mem_append.mpr
        ⟨digits all, List.forall_mem_cons.mpr ⟨.inr rfl, digits allPlaces⟩⟩
  exact .ofParts chars start fun c member => parts c (by rw [chars]; simp [member])

end Becomes

theorem turns_plain {cs : List Char} (plain : ∀ c ∈ cs, IsPlain c) : Turns .quoted cs cs .quoted := by
  refine .copy (fun c member rest => ?_) fun c member => ?_
  · obtain ⟨visible, slash, quote⟩ := plain c member
    show (if c = '\x22' then [c] else quoteChar c) = [c]
    rw [if_neg quote, quoteChar_plain ⟨visible, slash, quote⟩]
  · obtain ⟨visible, slash, quote⟩ := plain c member
    show (if c = '\\' then Place.escaped else if c = '\x22' then .operand else .quoted) = .quoted
    rw [if_neg slash, if_neg quote]

theorem flatMap_plain {cs : List Char} (plain : ∀ c ∈ cs, IsPlain c) :
    cs.flatMap quoteChar = cs := by
  induction cs with
  | nil => rfl
  | cons c cs ih =>
    have others := ih fun d member => plain d (by simp [member])
    rw [List.flatMap_cons, quoteChar_plain (plain c (by simp)), others]
    rfl

theorem turns_quoted {c : Char} {w : List Char} (quoted : Quoted c w) :
    Turns .quoted w (w.flatMap quoteChar) .quoted := by
  have slash : Turns .quoted ['\\'] (quoteChar '\\') .escaped := .one fun _ _ => rfl
  have letter (d : Char) : Turns .escaped [d] (quoteChar d) .quoted := .one fun _ _ => rfl
  cases quoted with
  | plain plain =>
    have all : ∀ d ∈ [c], IsPlain d := by simpa using plain
    rw [flatMap_plain all]
    exact turns_plain all
  | short d =>
    rw [List.flatMap_cons, List.flatMap_singleton]
    exact Turns.append slash (letter d)
  | code =>
    have digits : ∀ d ∈ '\x7b' :: (hexDigits c.toNat ++ ['\x7d']), IsPlain d := by
      refine List.forall_mem_cons.mpr ⟨by decide +kernel, List.forall_mem_append.mpr ⟨?_, ?_⟩⟩
      · exact fun d member => plain_hexDigits member
      · simpa using (by decide +kernel : IsPlain '\x7d')
    rw [List.flatMap_cons, List.flatMap_cons, flatMap_plain digits]
    exact Turns.append slash (Turns.append (letter 'u') (turns_plain digits))

theorem Becomes.str (v : String) : Becomes (quote v) (quote (escaped v)) := by
  have inside (cs : List Char) :
      Turns .quoted (cs.flatMap quoteChar) ((cs.flatMap quoteChar).flatMap quoteChar) .quoted := by
    induction cs with
    | nil => exact .nil
    | cons c cs ih =>
      rw [List.flatMap_cons, List.flatMap_append]
      exact Turns.append (turns_quoted (quoted_quoteChar c)) ih
  have left : Turns .opening ['\x22'] ['\x22'] .quoted := .one fun _ _ => rfl
  have right : Turns .quoted ['\x22'] ['\x22'] .operand := .one fun _ _ => rfl
  unfold Becomes
  rw [toList_quote, toList_quote, toList_escaped (escaped v), toList_escaped v]
  exact Turns.append left (Turns.append (inside v.toList) right)

theorem Becomes.template {v : String} (clear : '\x60' ∉ v.toList) :
    Becomes ("\x60" ++ v ++ "\x60") ("\x60" ++ doubled v ++ "\x60") := by
  have inside (cs : List Char) (clear : '\x60' ∉ cs) :
      Turns .accented cs (cs.flatMap doubledChar) .accented := by
    induction cs with
    | nil => exact .nil
    | cons c cs ih =>
      simp only [List.mem_cons, not_or] at clear
      have other : c ≠ '\x60' := Ne.symm clear.1
      have first : Turns .accented [c] (doubledChar c) (Place.next .accented c) :=
        .one fun _ _ => if_neg other
      have next : Place.next .accented c = .accented := if_neg other
      rw [next] at first
      rw [List.flatMap_cons]
      exact Turns.append first (ih clear.2)
  have left : Turns .opening ['\x60'] ['\x60'] .accented := .one fun _ _ => rfl
  have right : Turns .accented ['\x60'] ['\x60'] .operand := .one fun _ _ => rfl
  unfold Becomes doubled
  simp only [String.toList_append, String.toList_ofList, String.reduceToList]
  exact Turns.append (Turns.append left (inside v.toList clear)) right

def BeginsOperand (c : Char) : Prop := c ≠ ' ' ∧ c ≠ '='

instance (c : Char) : Decidable (BeginsOperand c) := inferInstanceAs (Decidable (_ ∧ _))

theorem beginsOperand_part {c : Char} (part : isNamePart c = true) : BeginsOperand c :=
  ⟨ne_of_isNamePart part rfl, ne_of_isNamePart part rfl⟩

theorem opens_word {text : String} (word : isWord text = true) : Opens BeginsOperand text := by
  obtain ⟨first, tail, chars, start, -⟩ := isWord_chars word
  exact ⟨first, tail, chars, beginsOperand_part (isNamePart_of_isNameStart start)⟩

theorem opens_sign (op : UnaryOp) : Opens BeginsOperand op.text := by
  cases op
  all_goals exact ⟨_, _, rfl, by decide⟩

theorem opens_text : ∀ e : Expr, e.isSpelled = true → e.isClear = true →
    Opens BeginsOperand e.text
  | .number v _, _, _ => by
    by_cases finite : v.isInfinite = true
    · rw [Expr.text, Numeral.Magnitude.text, if_pos finite]
      exact opens_word (by decide)
    · rw [Bool.not_eq_true] at finite
      have shape := (Numeral.Magnitude.text_finite finite).1
      obtain ⟨first, tail, chars⟩ := List.exists_cons_of_ne_nil shape.ne_nil
      rw [chars] at shape
      have digit := (numberLength_positional shape .nil).1
      exact ⟨first, tail, chars, beginsOperand_part (isNamePart_of_isDigit digit)⟩
  | .str v _, _, _ => ⟨'\x22', _, toList_quote v, by decide⟩
  | .template v _, _, _ => .append (.append ⟨'\x60', [], rfl, by decide⟩ v) _
  | .bool true _, _, _ => @opens_word "true" (by decide)
  | .bool false _, _, _ => @opens_word "false" (by decide)
  | .null _, _, _ => @opens_word "null" (by decide)
  | .ident name _, spelled, _ => opens_word (isWord_of_isIdentifier spelled)
  | .array items _, _, _ => .append (.append ⟨'[', [], rfl, by decide⟩ _) _
  | .unary op e _, _, _ => .append (opens_sign op) _
  | .update op true e _, _, _ => by
    rw [Expr.text, if_pos rfl, op.text_sign]
    exact .append (.append (opens_sign op.sign) _) _
  | .update op false e _, spelled, clear =>
    .append (.inPlace (by decide) fun _ => opens_text e spelled clear) _
  | .binary l op r _, spelled, clear => by
    simp only [Expr.isSpelled, Expr.isClear, Bool.and_eq_true] at spelled clear
    have left := opens_text l spelled.1 clear.1
    exact .append (.append (.append (.append (.inPlace (by decide) fun _ => left) _) _) _) _
  | .assign op t v _, spelled, clear => by
    simp only [Expr.isSpelled, Expr.isClear, Bool.and_eq_true] at spelled clear
    exact .append (.append (.append (.append (opens_text t spelled.1.2 clear.1) _) _) _) _
  | .conditional t c a _, spelled, clear => by
    simp only [Expr.isSpelled, Expr.isClear, Bool.and_eq_true] at spelled clear
    have test := opens_text t spelled.1.1 clear.1.1
    exact .append (.append (.append (.append (.inPlace (by decide) fun _ => test) _) _) _) _
  | .call f args _, spelled, clear => by
    simp only [Expr.isSpelled, Expr.isClear, Bool.and_eq_true] at spelled clear
    have callee := opens_text f spelled.1 clear.1
    exact .append (.append (.append (.inPlace (by decide) fun _ => callee) _) _) _
  | .member o p _, spelled, clear => by
    simp only [Expr.isSpelled, Bool.and_eq_true] at spelled
    have object := opens_text o spelled.1 clear
    exact .append (.append (.inPlace (by decide) fun _ => object) _) _
  | .index o i _, spelled, clear => by
    simp only [Expr.isSpelled, Expr.isClear, Bool.and_eq_true] at spelled clear
    have object := opens_text o spelled.1 clear.1
    exact .append (.append (.append (.inPlace (by decide) fun _ => object) _) _) _
  | .func .., _, clear => by simp [Expr.isClear] at clear

def Expr.Respells (e : Expr) : Prop := Becomes e.text e.respelled.text

theorem Expr.Respells.grouped {e : Expr} (respells : e.Respells) (least : Nat) :
    Becomes (e.inPlace least e.text) (e.grouped least e.respelled).text := by
  unfold Expr.inPlace Expr.grouped
  split
  · have mark : (Expr.str "\x22" {}).inPlace 8 (Expr.str "\x22" {}).text = "\x22\\\x22\x22" := by
      decide +kernel
    rw [Expr.group, Expr.text, mark, Expr.listText, Expr.tailText, String.append_empty]
    have left : Turns .opening ['('] ['\x22', '\\', '\x22', '\x22', '('] .opening :=
      .one fun _ _ => rfl
    have right : Turns .operand [')'] [')'] .operand := .one fun _ _ => rfl
    unfold Becomes
    simp only [String.toList_append, String.reduceToList]
    exact Turns.append (Turns.append left respells) right
  · exact respells

def UnaryOp.apartText : UnaryOp → String
  | neg => "!-"
  | plus => "!+"
  | op => op.text

theorem UnaryOp.text_apart (op : UnaryOp) {e : Expr} (high : 7 ≤ e.level) :
    (op.apart e).text = op.apartText ++ e.text := by
  have place : e.inPlace 7 e.text = e.text := if_neg (by omega)
  have inner (op : UnaryOp) : (Expr.unary op e {}).inPlace 7 (Expr.unary op e {}).text =
      op.text ++ e.text := by
    rw [Expr.text, place]
    rfl
  cases op with
  | neg | plus => rw [UnaryOp.apart, Expr.text, inner, ← String.append_assoc]; rfl
  | not | typeof => exact congrArg _ place

theorem turns_sign (op : UnaryOp) :
    respeller.Turns (fun rest => Place.isOperatorEnd rest = false) .opening op.text.toList
      op.apartText.toList .opening := by
  have sign (c : Char) (sign : Place.isSign c = true) (other : c ≠ '(') (rest : List Char)
      (operand : Place.isOperatorEnd rest = false) : Place.write .opening c rest = ['!', c] := by
    rw [Place.write, if_neg other, sign, operand]
    rfl
  cases op with
  | neg => exact .one (sign '-' rfl (by decide))
  | plus => exact .one (sign '+' rfl (by decide))
  | not | typeof => exact fun _ _ => rfl

namespace Becomes

variable {text out : String}

theorem sign (op : UnaryOp) {e : Expr} (opens : Opens BeginsOperand text) (high : 7 ≤ e.level)
    (becomes : Becomes text e.text) : Becomes (op.text ++ text) (op.apart e).text := by
  obtain ⟨first, tail, chars, begins⟩ := opens
  have ahead (rest : List Char) : Place.isOperatorEnd (text.toList ++ rest) = false := by
    rw [chars]
    simp [Place.isOperatorEnd, begins.1, begins.2]
  unfold Becomes
  rw [op.text_apart high, String.toList_append, String.toList_append]
  exact Rewriter.Turns.append (turns_sign op) becomes fun rest _ => ahead rest

theorem steps (op : UpdateOp) (becomes : Becomes text out) :
    Becomes (text ++ op.text) (out ++ op.text) := by
  have behind : Turns .operand op.text.toList op.text.toList .operand := by
    cases op <;> exact fun _ _ => rfl
  unfold Becomes
  rw [String.toList_append, String.toList_append]
  exact Turns.append becomes behind

theorem joined (op : String) {text' out' : String} (left : Becomes text out)
    (right : Becomes text' out')
    (between : Turns .operand (" " ++ op ++ " ").toList (" " ++ op ++ " ").toList .opening) :
    Becomes (text ++ " " ++ op ++ " " ++ text') (out ++ " " ++ op ++ " " ++ out') := by
  have whole := Turns.append left (Turns.append between right)
  unfold Becomes
  simpa only [String.toList_append, List.append_assoc] using whole

theorem binary (op : BinOp) {text' out' : String} (left : Becomes text out)
    (right : Becomes text' out') :
    Becomes (text ++ " " ++ op.text ++ " " ++ text') (out ++ " " ++ op.text ++ " " ++ out') :=
  left.joined op.text right (by cases op <;> exact fun _ _ => rfl)

theorem assign (op : AssignOp) {text' out' : String} (left : Becomes text out)
    (right : Becomes text' out') :
    Becomes (text ++ " " ++ op.text ++ " " ++ text') (out ++ " " ++ op.text ++ " " ++ out') :=
  left.joined op.text right (by cases op <;> exact fun _ _ => rfl)

theorem conditional {yes yes' no no' : String} (test : Becomes text out) (first : Becomes yes yes')
    (second : Becomes no no') :
    Becomes (text ++ " ? " ++ yes ++ " : " ++ no) (out ++ " ? " ++ yes' ++ " : " ++ no') := by
  have question : Turns .operand [' ', '?', ' '] [' ', '?', ' '] .opening := fun _ _ => rfl
  have colon : Turns .operand [' ', ':', ' '] [' ', ':', ' '] .opening := fun _ _ => rfl
  unfold Becomes
  simp only [String.toList_append, String.reduceToList]
  exact Turns.append (Turns.append (Turns.append (Turns.append test question) first) colon) second

theorem member {property : String} (object : Becomes text out) (word : isWord property = true) :
    Becomes (text ++ "." ++ property) (out ++ "." ++ property) := by
  have parts : ∀ c ∈ property.toList, isNamePart c = true ∨ c = '.' := by
    obtain ⟨first, tail, chars, start, parts⟩ := isWord_chars word
    rw [chars]
    exact List.forall_mem_cons.mpr
      ⟨.inl (isNamePart_of_isNameStart start), fun c member => .inl (parts c member)⟩
  have point : Turns .operand ['.'] ['.'] .operand := fun _ _ => rfl
  unfold Becomes
  simp only [String.toList_append, String.reduceToList]
  exact Turns.append (Turns.append object point) (turns_operand parts)

theorem index {text' out' : String} (object : Becomes text out) (inside : Becomes text' out') :
    Becomes (text ++ "[" ++ text' ++ "]") (out ++ "[" ++ out' ++ "]") := by
  have left : Turns .operand ['['] ['['] .opening := fun _ _ => rfl
  have right : Turns .operand [']'] [']'] .operand := fun _ _ => rfl
  unfold Becomes
  simp only [String.toList_append, String.reduceToList]
  exact Turns.append (Turns.append (Turns.append object left) inside) right

end Becomes

theorem turns_tailText {es : List Expr} (all : ∀ e ∈ es, e.Respells) :
    Turns .operand (Expr.tailText es).toList (Expr.tailText (Expr.respelleds es)).toList
      .operand := by
  induction es with
  | nil => exact .nil
  | cons e es ih =>
    have comma : Turns .operand [',', ' '] [',', ' '] .opening := fun _ _ => rfl
    have others := ih fun d member => all d (by simp [member])
    rw [Expr.respelleds, Expr.tailText, Expr.tailText]
    simp only [String.toList_append, String.reduceToList]
    exact Turns.append (Turns.append comma (all e (by simp))) others

theorem turns_listText {es : List Expr} (all : ∀ e ∈ es, e.Respells) {close : Char}
    (closes : close = ')' ∨ close = ']') :
    Turns .opening ((Expr.listText es).toList ++ [close])
      ((Expr.listText (Expr.respelleds es)).toList ++ [close]) .operand := by
  rcases es with _ | ⟨e, es⟩
  · rcases closes with rfl | rfl <;> exact fun _ _ => rfl
  · have last : Turns .operand [close] [close] .operand := by
      rcases closes with rfl | rfl <;> exact fun _ _ => rfl
    have others := turns_tailText fun d member => all d (List.mem_cons_of_mem e member)
    rw [Expr.respelleds, Expr.listText, Expr.listText]
    simp only [String.toList_append]
    exact Turns.append (Turns.append (all e (by simp)) others) last

mutual

theorem respells : ∀ e : Expr, e.isSpelled = true → e.isClear = true → e.Respells
  | .number v _, _, _ => by
    unfold Expr.Respells
    rw [Expr.respelled]
    split
    · rename_i infinite
      rw [Expr.text, Expr.text, Numeral.Magnitude.text, if_pos infinite]
      exact .word (by decide)
    · rename_i finite
      exact .number (Bool.eq_false_iff.mpr finite)
  | .str v _, _, _ => .str v
  | .template v _, _, clear => .template (by simpa [Expr.isClear] using clear)
  | .bool true _, _, _ => @Becomes.word "true" (by decide)
  | .bool false _, _, _ => @Becomes.word "false" (by decide)
  | .null _, _, _ => @Becomes.word "null" (by decide)
  | .ident name _, spelled, _ => .word (isWord_of_isIdentifier spelled)
  | .array items _, spelled, clear => by
    have left : Turns .opening ['['] ['['] .opening := fun _ _ => rfl
    have whole := Turns.append left
      (turns_listText (respells_all items spelled clear) (.inr rfl))
    unfold Expr.Respells Becomes
    simpa only [Expr.respelled, Expr.text, String.toList_append, String.reduceToList,
      List.append_assoc] using whole
  | .unary op e _, spelled, clear => by
    have operand := respells e spelled clear
    have opens : Opens BeginsOperand (e.inPlace 7 e.text) :=
      .inPlace (by decide) fun _ => opens_text e spelled clear
    exact (operand.grouped 7).sign op opens (Expr.level_grouped (by decide) e)
  | .update op true e _, spelled, clear => by
    have operand := respells e spelled clear
    have opens : Opens BeginsOperand (e.inPlace 8 e.text) :=
      .inPlace (by decide) fun _ => opens_text e spelled clear
    have high := Expr.level_grouped (Nat.le_refl 8) e
    have first := (operand.grouped 8).sign op.sign opens (by omega)
    have second := first.sign op.sign (.append (opens_sign op.sign) _)
      (by cases op <;> exact Nat.le_refl 7)
    unfold Expr.Respells
    rw [Expr.text, if_pos rfl, op.text_sign, String.append_assoc]
    exact second
  | .update op false e _, spelled, clear => by
    have operand := ((respells e spelled clear).grouped 8).steps op
    unfold Expr.Respells
    simpa [Expr.respelled, Expr.text, Expr.inPlace_grouped (Nat.le_refl 8)] using operand
  | .binary l op r _, spelled, clear => by
    simp only [Expr.isSpelled, Expr.isClear, Bool.and_eq_true] at spelled clear
    have left := (respells l spelled.1 clear.1).grouped op.precedence
    have right := (respells r spelled.2 clear.2).grouped (op.precedence + 1)
    have low := (Grammar.precedence_bounds op).2
    have whole := left.binary op right
    unfold Expr.Respells
    rw [Expr.respelled, Expr.text, Expr.text, Expr.inPlace_grouped (by omega),
      Expr.inPlace_grouped (by omega)]
    exact whole
  | .assign op t v _, spelled, clear => by
    simp only [Expr.isSpelled, Expr.isClear, Bool.and_eq_true] at spelled clear
    exact (respells t spelled.1.2 clear.1).assign op (respells v spelled.2 clear.2)
  | .conditional t c a _, spelled, clear => by
    simp only [Expr.isSpelled, Expr.isClear, Bool.and_eq_true] at spelled clear
    have test := (respells t spelled.1.1 clear.1.1).grouped 1
    have whole := test.conditional (respells c spelled.1.2 clear.1.2) (respells a spelled.2 clear.2)
    unfold Expr.Respells
    rw [Expr.respelled, Expr.text, Expr.text, Expr.inPlace_grouped (by decide)]
    exact whole
  | .call f args _, spelled, clear => by
    simp only [Expr.isSpelled, Expr.isClear, Bool.and_eq_true] at spelled clear
    have callee := (respells f spelled.1 clear.1).grouped 8
    have left : Turns .operand ['('] ['('] .opening := fun _ _ => rfl
    have whole := Turns.append callee (Turns.append left
      (turns_listText (respells_all args spelled.2 clear.2) (.inl rfl)))
    unfold Expr.Respells Becomes
    rw [Expr.respelled, Expr.text, Expr.text, Expr.inPlace_grouped (Nat.le_refl 8)]
    simpa only [String.toList_append, String.reduceToList, List.append_assoc] using whole
  | .member o p _, spelled, clear => by
    simp only [Expr.isSpelled, Bool.and_eq_true] at spelled
    have object := (respells o spelled.1 clear).grouped 8
    unfold Expr.Respells
    rw [Expr.respelled, Expr.text, Expr.text, Expr.inPlace_grouped (Nat.le_refl 8)]
    exact object.member spelled.2
  | .index o i _, spelled, clear => by
    simp only [Expr.isSpelled, Expr.isClear, Bool.and_eq_true] at spelled clear
    have object := (respells o spelled.1 clear.1).grouped 8
    unfold Expr.Respells
    rw [Expr.respelled, Expr.text, Expr.text, Expr.inPlace_grouped (Nat.le_refl 8)]
    exact object.index (respells i spelled.2 clear.2)
  | .func .., _, clear => by simp [Expr.isClear] at clear

theorem respells_all : ∀ es : List Expr, Expr.areSpelled es = true → Expr.areClear es = true →
    ∀ e ∈ es, e.Respells
  | [], _, _ => by simp
  | e :: rest, spelled, clear => by
    simp only [Expr.areSpelled, Expr.areClear, Bool.and_eq_true] at spelled clear
    exact List.forall_mem_cons.mpr
      ⟨respells e spelled.1 clear.1, respells_all rest spelled.2 clear.2⟩

end

end SortTrace.Script
