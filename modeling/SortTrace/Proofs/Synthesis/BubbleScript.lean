import SortTrace.Proofs.Synthesis.GuardedScript

/-!
Bubble sort as a script: an array literal, two counting loops and an exchange of neighbours under a
condition.
-/

namespace SortTrace.Synthesis

open Script Numeral

structure BubbleScript where
  array : Identifier
  outer : Identifier
  inner : Identifier
  arrayWord : DeclKind
  loopWord : DeclKind
  exchange : ExchangeForm
  values : List Int64

namespace BubbleScript

def hereText (b : BubbleScript) : String := b.array.name ++ "[" ++ b.inner.name ++ "]"

def nextText (b : BubbleScript) : String :=
  b.array.name ++ "[" ++ (b.inner.name ++ " " ++ BinOp.add.text ++ " " ++ toString 1) ++ "]"

def lengthText (b : BubbleScript) : String := b.array.name ++ "." ++ lengthName.name

def guardText (b : BubbleScript) : String :=
  b.hereText ++ " " ++ BinOp.gt.text ++ " " ++ b.nextText

def exchangeText (b : BubbleScript) : String :=
  match b.exchange with
  | .destructuring =>
    assignLine (listText [b.hereText, b.nextText]) (listText [b.nextText, b.hereText])
  | .temporary word t =>
    (match word with
      | some kind => declarationLine kind t.name b.hereText
      | none => assignLine t.name b.hereText) ++
    (assignLine b.hereText b.nextText ++ assignLine b.nextText t.name)

def innerStopText (b : BubbleScript) : String :=
  b.lengthText ++ " " ++ BinOp.sub.text ++ " " ++ b.outer.name ++ " " ++ BinOp.sub.text ++ " " ++
    toString 1

def outerStopText (b : BubbleScript) : String :=
  b.lengthText ++ " " ++ BinOp.sub.text ++ " " ++ toString 1

def text (b : BubbleScript) : String :=
  declarationLine b.arrayWord b.array.name (listText (b.values.map toString)) ++
    forLines b.loopWord b.outer.name b.outerStopText
      (forLines b.loopWord b.inner.name b.innerStopText
        (ifLines b.guardText b.exchangeText))

def guarded (b : BubbleScript) : GuardedScript where
  array := b.array
  outer := b.outer
  inner := b.inner
  arrayWord := b.arrayWord
  loopWord := b.loopWord
  exchange := b.exchange
  literals := b.values.map fun v => .integer v.toInt
  numeric := by
    intro e member
    obtain ⟨v, -, rfl⟩ := List.mem_map.mp member
    rcases v.toInt with n | n <;> rfl
  op := .gt
  comparison := rfl
  backward := false

variable (b : BubbleScript)

theorem spells_here : SpellsPhrase b.hereText b.guarded.here.tokens :=
  .index (.name b.array) (.name b.inner)

theorem spells_next : SpellsPhrase b.nextText b.guarded.next.tokens :=
  .index (.name b.array) (.binary .add (.name b.inner) (.whole 1))

theorem spells_length : SpellsPhrase b.lengthText b.guarded.length.tokens :=
  .member b.array lengthName

theorem spells_pair {first second : Expr} {firstText secondText : String}
    (spellsFirst : SpellsPhrase firstText first.tokens)
    (spellsSecond : SpellsPhrase secondText second.tokens) :
    SpellsPhrase (listText [firstText, secondText]) (Expr.array [first, second] {}).tokens := by
  apply SpellsPhrase.list [(firstText, first), (secondText, second)]
  intro part member
  simp only [List.mem_cons, List.not_mem_nil, or_false] at member
  rcases member with rfl | rfl
  · exact spellsFirst
  · exact spellsSecond

theorem spells_exchange : SpellsLines b.exchangeText b.guarded.exchangeTokens := by
  unfold exchangeText GuardedScript.exchangeTokens
  have form : b.guarded.exchange = b.exchange := rfl
  rw [form]
  rcases b.exchange with _ | ⟨word, t⟩
  · exact .assign (spells_pair b.spells_here b.spells_next)
      (spells_pair b.spells_next b.spells_here)
  · have name : SpellsPhrase t.name [.ident t.name] := .name t
    have others := SpellsLines.append (.assign b.spells_here b.spells_next)
      (.assign b.spells_next name)
    rcases word with _ | kind
    · exact .append (.assign name b.spells_here) others
    · exact .append (.declaration kind t b.spells_here) others

theorem spells_text : SpellsLines b.text b.guarded.tokens := by
  have innerStop : SpellsPhrase b.innerStopText b.guarded.innerStop.tokens :=
    .binary .sub (.binary .sub b.spells_length (.name b.outer)) (.whole 1)
  have outerStop : SpellsPhrase b.outerStopText b.guarded.outerStop.tokens :=
    .binary .sub b.spells_length (.whole 1)
  have guard : SpellsPhrase b.guardText b.guarded.guard.tokens :=
    .binary .gt b.spells_here b.spells_next
  have items : SpellsPhrase (listText (b.values.map toString))
      (Expr.array b.guarded.literals {}).tokens := by
    have list := SpellsPhrase.list (b.values.map fun v => (toString v, Expr.integer v.toInt)) (by
      intro part member
      obtain ⟨v, -, rfl⟩ := List.mem_map.mp member
      exact .integer v.toInt) {}
    simpa only [guarded, List.map_map, Function.comp_def] using list
  exact .append (.declaration b.arrayWord b.array items)
    (.forLoop b.loopWord b.outer outerStop
      (.forLoop b.loopWord b.inner innerStop (.ifElse guard b.spells_exchange)))

end BubbleScript

end SortTrace.Synthesis
