import SortTrace.Proofs.Script.Opening
import SortTrace.Proofs.Script.Statements

namespace SortTrace.Script

open Numeral

/-- Where it does not run into a name or a number behind it, the text spells the tokens. -/
def SpellsPhrase (text : String) (ks : List TokenKind) : Prop :=
  ∀ rest ls, NumberEnds rest → Spells rest ls → Spells (text.toList ++ rest) (ks ++ ls)

def SpellsLines (text : String) (ks : List TokenKind) : Prop :=
  ∀ rest ls, Spells rest ls → Spells (text.toList ++ rest) (ks ++ ls)

namespace SpellsPhrase

theorem name (id : Identifier) : SpellsPhrase id.name [.ident id.name] :=
  fun _ _ ends behind => .name id ends.1 behind

theorem whole (n : Nat) : SpellsPhrase (toString n) [.number (.ofWhole n)] := by
  intro rest ls ends behind
  rw [Nat.toString_eq_repr, Nat.toList_repr]
  exact .whole n ends behind

theorem index {object i : String} {os is : List TokenKind} (spellsObject : SpellsPhrase object os)
    (spellsIndex : SpellsPhrase i is) :
    SpellsPhrase (object ++ "[" ++ i ++ "]")
      (os ++ .mark .lbracket :: (is ++ [TokenKind.mark .rbracket])) := by
  intro rest ls ends behind
  simp only [String.toList_append, String.reduceToList, List.append_assoc, List.cons_append,
    List.nil_append]
  refine spellsObject _ _ (.cons rfl (by decide) _) (.single rfl ?_)
  exact spellsIndex _ _ (.cons rfl (by decide) _) (.single rfl behind)

theorem property {object name : String} {os : List TokenKind} (spells : SpellsPhrase object os)
    (word : isWord name = true) :
    SpellsPhrase (object ++ "." ++ name) (os ++ [TokenKind.mark .dot, wordToken name]) := by
  intro rest ls ends behind
  have point := startsWithDigit_word word rest
  obtain ⟨first, tail, text, start, parts⟩ := isWord_chars word
  simp only [String.toList_append, String.reduceToList, List.append_assoc, List.cons_append,
    List.nil_append]
  exact spells _ _ (.point point) (.dot point (.word text start parts ends.1 behind))

theorem member (object property : Identifier) :
    SpellsPhrase (object.name ++ "." ++ property.name)
      [.ident object.name, .mark .dot, .ident property.name] := by
  obtain ⟨-, -, -, -, -, token⟩ := property.chars
  rw [← token]
  exact .property (.name object) (isWord_of_isIdentifier property.valid)

theorem joined {left right op : String} {ls rs : List TokenKind} {k : TokenKind}
    (operator : ∀ cs ks, Spells cs ks → Spells (op.toList ++ ' ' :: cs) (k :: ks))
    (spellsLeft : SpellsPhrase left ls) (spellsRight : SpellsPhrase right rs) :
    SpellsPhrase (left ++ " " ++ op ++ " " ++ right) (ls ++ k :: rs) := by
  intro rest ks ends behind
  simp only [String.toList_append, String.reduceToList, List.append_assoc, List.cons_append,
    List.nil_append]
  refine spellsLeft _ _ (.cons rfl (by decide) _) (.blank rfl (operator _ _ ?_))
  exact spellsRight rest ks ends behind

theorem binary (op : BinOp) {left right : String} {ls rs : List TokenKind}
    (spellsLeft : SpellsPhrase left ls) (spellsRight : SpellsPhrase right rs) :
    SpellsPhrase (left ++ " " ++ op.text ++ " " ++ right) (ls ++ .mark op.mark :: rs) := by
  refine joined (fun cs ks behind => ?_) spellsLeft spellsRight
  have blank : Spells (' ' :: cs) ks := .blank rfl behind
  cases op
  all_goals first
    | exact @Spells.token _ _ _ [] _ rfl blank
    | exact @Spells.token _ _ _ [_] _ rfl blank
    | exact @Spells.token _ _ _ [_, _] _ rfl blank

theorem sign (op : UnaryOp) {text : String} {ks : List TokenKind}
    (opens : Opens (fun c => ¬ op.takes c) text) (spells : SpellsPhrase text ks) :
    SpellsPhrase (op.text ++ text) (op.token :: ks) := by
  intro rest ls ends behind
  obtain ⟨c, tail, whole, apart⟩ := opens
  have signed := spells rest ls ends behind
  rw [whole, List.cons_append] at signed
  rw [String.toList_append, List.append_assoc, whole, List.cons_append]
  exact .sign apart signed

theorem negated (n : Nat) :
    SpellsPhrase ("-" ++ toString n) [.mark .minus, .number (.ofWhole n)] := by
  have shape : IsPositional (toString n).toList := by
    rw [Nat.toString_eq_repr, Nat.toList_repr]
    exact .whole Nat.toDigits_ne_nil isDigit_toDigits
  exact .sign .neg ((Opens.positional shape).mono fun _ noSign => noSign .neg) (.whole n)

end SpellsPhrase

def Expr.whole (n : Nat) : Expr := .number (.ofWhole n) {}

/-- An integer as it stands in a script, where a sign is an operator. -/
def Expr.integer : Int → Expr
  | .ofNat n => .whole n
  | .negSucc n => .unary .neg (.whole (n + 1)) {}

theorem SpellsPhrase.integer (v : Int) : SpellsPhrase (toString v) (Expr.integer v).tokens := by
  rcases v with n | n
  · exact .whole n
  · exact .negated (n + 1)

def listText (texts : List String) : String := "[" ++ ", ".intercalate texts ++ "]"

theorem SpellsPhrase.items (parts : List (String × Expr))
    (spells : ∀ part ∈ parts, SpellsPhrase part.1 part.2.tokens) :
    SpellsPhrase (", ".intercalate (parts.map Prod.fst))
      (Expr.listTokens (parts.map Prod.snd)) := by
  induction parts with
  | nil => exact fun _ _ _ behind => behind
  | cons part parts ih =>
    intro rest ls ends behind
    have first := spells part (by simp)
    have others := ih fun part member => spells part (by simp [member])
    rcases parts with _ | ⟨next, parts⟩
    · simp only [List.map_cons, List.map_nil, String.intercalate_singleton, Expr.listTokens,
        Expr.tailTokens, List.append_nil]
      exact first _ _ ends behind
    · have tail : Expr.tailTokens (next.2 :: parts.map Prod.snd) =
          .mark .comma :: Expr.listTokens (next.2 :: parts.map Prod.snd) := rfl
      simp only [List.map_cons] at others ⊢
      rw [String.intercalate_cons_cons, Expr.listTokens, tail]
      simp only [String.toList_append, String.reduceToList, List.append_assoc, List.cons_append,
        List.nil_append]
      refine first _ _ (.cons rfl (by decide) _) (.single rfl (.blank rfl ?_))
      exact others _ _ ends behind

theorem SpellsPhrase.brackets {text : String} {ks : List TokenKind}
    (spells : SpellsPhrase text ks) :
    SpellsPhrase ("[" ++ text ++ "]") (.mark .lbracket :: (ks ++ [TokenKind.mark .rbracket])) := by
  intro rest ls ends behind
  simp only [String.toList_append, String.reduceToList, List.append_assoc, List.cons_append,
    List.nil_append]
  exact .single rfl (spells _ _ (.cons rfl (by decide) _) (.single rfl behind))

theorem SpellsPhrase.list (parts : List (String × Expr))
    (spells : ∀ part ∈ parts, SpellsPhrase part.1 part.2.tokens) (s : Span) :
    SpellsPhrase (listText (parts.map Prod.fst)) (Expr.array (parts.map Prod.snd) s).tokens :=
  .brackets (.items parts spells)

namespace SpellsLines

theorem append {first second : String} {ks ls : List TokenKind} (spells : SpellsLines first ks)
    (others : SpellsLines second ls) : SpellsLines (first ++ second) (ks ++ ls) := by
  intro rest ms behind
  rw [String.toList_append, List.append_assoc, List.append_assoc]
  exact spells _ _ (others rest ms behind)

end SpellsLines

def assignLine (target value : String) : String := target ++ " = " ++ value ++ ";\n"

def assignTokens (target value : List TokenKind) : List TokenKind :=
  target ++ .mark .eq :: (value ++ [TokenKind.mark .semicolon])

theorem SpellsLines.assign {target value : String} {ts vs : List TokenKind}
    (spellsTarget : SpellsPhrase target ts) (spellsValue : SpellsPhrase value vs) :
    SpellsLines (assignLine target value) (assignTokens ts vs) := by
  intro rest ls behind
  unfold assignLine assignTokens
  simp only [String.toList_append, String.reduceToList, List.append_assoc, List.cons_append,
    List.nil_append]
  refine spellsTarget _ _ (.cons rfl (by decide) _) (.blank rfl (.single rfl (.blank rfl ?_)))
  exact spellsValue _ _ (.cons rfl (by decide) _) (.single rfl (.blank rfl behind))

def declarationLine (kind : DeclKind) (name value : String) : String :=
  kind.keyword.text ++ " " ++ name ++ " = " ++ value ++ ";\n"

theorem SpellsLines.declaration (kind : DeclKind) (id : Identifier) {value : String}
    {vs : List TokenKind} (spells : SpellsPhrase value vs) :
    SpellsLines (declarationLine kind id.name value) (declarationTokens kind id.name vs) := by
  intro rest ls behind
  unfold declarationLine declarationTokens
  simp only [String.toList_append, String.reduceToList, List.append_assoc, List.cons_append,
    List.nil_append]
  refine .keyword _ (.cons rfl _) (.blank rfl (.name id (.cons rfl _) ?_))
  refine .blank rfl (.single rfl (.blank rfl ?_))
  exact spells _ _ (.cons rfl (by decide) _) (.single rfl (.blank rfl behind))

def ifLines (test body : String) : String :=
  "if (" ++ test ++ ") \x7b\n" ++ body ++ "\x7d\n"

theorem SpellsLines.ifElse {test body : String} {ts bs : List TokenKind}
    (spellsTest : SpellsPhrase test ts) (spellsBody : SpellsLines body bs) :
    SpellsLines (ifLines test body) (ifTokens ts (blockTokens bs)) := by
  intro rest ls behind
  unfold ifLines ifTokens blockTokens
  simp only [String.toList_append, String.reduceToList, List.append_assoc, List.cons_append,
    List.nil_append]
  refine .keyword .ifWord (.cons rfl _) (.blank rfl (.single rfl ?_))
  refine spellsTest _ _ (.cons rfl (by decide) _) (.single rfl (.blank rfl (.single rfl ?_)))
  refine .blank rfl (spellsBody _ _ (.single rfl (.blank rfl behind)))

def forLines (kind : DeclKind) (name stop body : String) : String :=
  "for (" ++ kind.keyword.text ++ " " ++ name ++ " = 0; " ++ name ++ " < " ++ stop ++ "; " ++
    name ++ "++) \x7b\n" ++ body ++ "\x7d\n"

theorem SpellsLines.forLoop (kind : DeclKind) (id : Identifier) {stop body : String}
    {ss bs : List TokenKind} (spellsStop : SpellsPhrase stop ss)
    (spellsBody : SpellsLines body bs) :
    SpellsLines (forLines kind id.name stop body)
      (forTokens kind id.name [.number (.ofWhole 0)] (.ident id.name :: .mark .lt :: ss)
        [.ident id.name, .mark .plusPlus] (blockTokens bs)) := by
  intro rest ls behind
  unfold forLines forTokens blockTokens
  simp only [String.toList_append, String.reduceToList, List.append_assoc, List.cons_append,
    List.nil_append]
  refine .keyword .forWord (.cons rfl _) (.blank rfl (.single rfl ?_))
  refine .keyword _ (.cons rfl _) (.blank rfl (.name id (.cons rfl _) ?_))
  refine .blank rfl (.single rfl (.blank rfl (.single rfl (.single rfl (.blank rfl ?_)))))
  refine .name id (.cons rfl _) (.blank rfl (.single rfl (.blank rfl ?_)))
  refine spellsStop _ _ (.cons rfl (by decide) _) (.single rfl (.blank rfl ?_))
  refine .name id (.cons rfl _) (@Spells.token _ _ _ ['+'] _ rfl (.single rfl ?_))
  refine .blank rfl (.single rfl (.blank rfl (spellsBody _ _ (.single rfl (.blank rfl behind)))))

def spelling (text : String) : Except SyntaxError (List TokenKind) :=
  (scan text).map (·.map Token.kind)

theorem SpellsLines.spelling_eq {text : String} {ks : List TokenKind}
    (spells : SpellsLines text ks) : spelling text = .ok (ks ++ [TokenKind.eof]) := by
  obtain ⟨tokens, scanned, kinds⟩ := spells [] [.eof] .nil .origin
  rw [List.append_nil] at scanned
  rw [spelling, scan, scanned, ← kinds]
  rfl

theorem Program.ofText_spelling {text : String} {ks : List TokenKind} {q : Program}
    (spelled : spelling text = .ok ks)
    (read : Program.ofTokens (ks.map fun k => ⟨k, {}⟩) = .ok q) :
    ∃ p, Program.ofText text = .ok p ∧ p.bare = q := by
  unfold spelling at spelled
  rcases scanned : scan text with e | tokens
  · rw [scanned] at spelled
    cases spelled
  rw [scanned] at spelled
  have kinds : tokens.map Token.kind = ks := Except.ok.inj spelled
  have bare : tokens.map Token.bare = ks.map fun k => ⟨k, {}⟩ := by
    rw [← kinds, List.map_map]
    rfl
  rw [← bare, Program.ofTokens_bare] at read
  have whole : Program.ofText text = Program.ofTokens tokens := by
    rw [ofText, scanned]
    rfl
  rw [whole]
  cases parsed : Program.ofTokens tokens with
  | ok p =>
    rw [parsed] at read
    exact ⟨p, rfl, Except.ok.inj read⟩
  | error e =>
    rw [parsed] at read
    cases read

theorem Program.ofText_spelled {text : String} {ks : List TokenKind} {body : List Stmt}
    (spelled : spelling text = .ok (ks ++ [TokenKind.eof])) (reads : Grammar.ReadsBody ks body)
    (noArrow : Grammar.NoArrow (ks ++ [TokenKind.eof])) :
    ∃ p, Program.ofText text = .ok p ∧ p.bare = Program.bare ⟨body, {}⟩ := by
  refine Program.ofText_spelling spelled ?_
  have start : Cursor.mk ((ks ++ [TokenKind.eof]).map fun k => ⟨k, {}⟩) {} =
      .ofKinds (ks ++ [TokenKind.eof]) := rfl
  have enough : 16 * ks.length <
      Grammar.allowance ((ks ++ [TokenKind.eof]).map fun k => ⟨k, {}⟩) := by
    simp only [Grammar.allowance, List.length_map, List.length_append, List.length_singleton]
    omega
  have read := reads.readsAll _ enough noArrow
  simp only [Program.ofTokens, start, read, Cursor.span_ofKinds]
  rfl

end SortTrace.Script
