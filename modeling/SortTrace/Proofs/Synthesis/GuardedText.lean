import SortTrace.Proofs.Script.Printed
import SortTrace.Proofs.Synthesis.GuardedScript

namespace SortTrace

namespace Synthesis

open Script Numeral

namespace GuardedScript

variable (b : GuardedScript)

def exchangeText : String :=
  match b.exchange with
  | .destructuring =>
    assignLine (Expr.array [b.here, b.next] {}).text (Expr.array [b.next, b.here] {}).text
  | .temporary word t =>
    (match word with
      | some kind => declarationLine kind t.name b.here.text
      | none => assignLine t.name b.here.text) ++
    (assignLine b.here.text b.next.text ++ assignLine b.next.text t.name)

def text : String :=
  declarationLine b.arrayWord b.array.name (Expr.array b.literals {}).text ++
    forLines b.loopWord b.outer.name b.outerStop.text
      (forLines b.loopWord b.inner.name b.innerStop.text
        (ifLines b.guard.text b.exchangeText))

theorem printable_name (id : Identifier) : (Expr.ident id.name {}).Printable := ⟨id.valid, rfl⟩

theorem printable_whole {n : Nat} (small : n ≤ 2 ^ 53) : (Expr.whole n).Printable := by
  refine ⟨rfl, ?_⟩
  simp [Expr.whole, Expr.isLegible, Magnitude.isInfinite_ofWhole small]

theorem printable_one : (Expr.whole 1).Printable := printable_whole (by omega)

theorem printable_element {i : Expr} (index : i.Printable) :
    (Expr.index (.ident b.array.name {}) i {}).Printable := by
  simp [Expr.Printable, Expr.isSpelled, Expr.isLegible, b.array.valid, index.1, index.2]

theorem printable_here : b.here.Printable := b.printable_element (printable_name b.inner)

theorem printable_next : b.next.Printable :=
  b.printable_element ((printable_name b.inner).binary .add printable_one)

theorem printable_guard : b.guard.Printable := by
  unfold guard
  split
  · exact b.printable_next.binary b.op b.printable_here
  · exact b.printable_here.binary b.op b.printable_next

theorem printable_length : b.length.Printable := by
  have word : isWord lengthName.name = true := isWord_of_isIdentifier lengthName.valid
  simp [length, Expr.Printable, Expr.isSpelled, Expr.isLegible, b.array.valid, word]

theorem spells_exchange : SpellsLines b.exchangeText b.exchangeTokens := by
  have here := b.printable_here.spells
  have next := b.printable_next.spells
  unfold exchangeText exchangeTokens
  rcases b.exchange with _ | ⟨word, t⟩
  · exact .assign (b.printable_here.pair b.printable_next).spells
      (b.printable_next.pair b.printable_here).spells
  · have name : SpellsPhrase t.name [.ident t.name] := .name t
    have others := SpellsLines.append (.assign here next) (.assign next name)
    rcases word with _ | kind
    · exact .append (.assign name here) others
    · exact .append (.declaration kind t here) others

theorem spells_text (printable : (Expr.array b.literals {}).Printable) :
    SpellsLines b.text b.tokens := by
  have outerStop : SpellsPhrase b.outerStop.text b.outerStop.tokens :=
    (b.printable_length.binary .sub printable_one).spells
  have innerStop : SpellsPhrase b.innerStop.text b.innerStop.tokens :=
    ((b.printable_length.binary .sub (printable_name b.outer)).binary .sub printable_one).spells
  exact .append (.declaration b.arrayWord b.array printable.spells)
    (.forLoop b.loopWord b.outer outerStop
      (.forLoop b.loopWord b.inner innerStop
        (.ifElse b.printable_guard.spells b.spells_exchange)))

end GuardedScript

end Synthesis

end SortTrace
