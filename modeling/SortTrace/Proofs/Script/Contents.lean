import SortTrace.Proofs.Script.Spelling
import SortTrace.Text.Quoted

/-!
Literals between quotes, and numbers with a fraction: a quoted text is read back if it needs none of
the escapes by code point, which the scanner does not know.
-/

namespace SortTrace.Text

/-- Quoted as itself or with one of the short escapes. -/
def isShort (c : Char) : Bool :=
  isVisible c || c = '\x00' || c = '\t' || c = '\r' || c = '\n' || c = '\\' || c = '\x22'

theorem isShort_iff (c : Char) : isShort c = true ↔ ¬ ['\\', 'u'] <+: quoteChar c := by
  unfold isShort quoteChar
  repeat' split
  all_goals simp [*]

end SortTrace.Text

namespace SortTrace.Script

open Numeral Text

theorem stringContent_quoteChar {c : Char} (short : isShort c = true) (rest : List Char) :
    stringContent '\x22' (quoteChar c ++ rest) =
      (stringContent '\x22' rest).cons c (quoteChar c).length := by
  unfold quoteChar
  split
  · subst c; rfl
  split
  · subst c; rfl
  split
  · subst c; rfl
  split
  · subst c; rfl
  split
  · subst c; rfl
  split
  · subst c; rfl
  rename_i nul tab ret line slash quote
  have visible : isVisible c = true := by
    simpa [isShort, nul, tab, ret, line, slash, quote] using short
  simp only [visible, if_true, List.cons_append, List.nil_append]
  rw [stringContent]
  · simp [line, quote]
  · exact fun same => absurd same slash
  · exact fun _ _ same => absurd same slash

theorem stringContent_quoted {cs : List Char} (short : ∀ c ∈ cs, isShort c = true)
    (rest : List Char) :
    stringContent '\x22' (cs.flatMap quoteChar ++ '\x22' :: rest) =
      .ok (cs, (cs.flatMap quoteChar).length + 1) := by
  induction cs with
  | nil => rfl
  | cons c cs ih =>
    have others := ih fun d member => short d (by simp [member])
    rw [List.flatMap_cons, List.append_assoc, stringContent_quoteChar (short c (by simp)), others]
    simp only [Content.cons, List.length_append]
    congr 2
    omega

theorem templateContent_plain {cs : List Char} (accent : '\x60' ∉ cs) (slash : '\\' ∉ cs)
    (rest : List Char) : templateContent (cs ++ '\x60' :: rest) = .ok (cs, cs.length + 1) := by
  induction cs with
  | nil => rfl
  | cons c cs ih =>
    simp only [List.mem_cons, not_or] at accent slash
    have others := ih accent.2 slash.2
    rw [List.cons_append, templateContent]
    · rw [if_neg (Ne.symm accent.1), others]
      rfl
    · exact fun same => absurd same.symm slash.1
    · exact fun _ _ same => absurd same.symm slash.1

namespace Spells

variable {rest : List Char} {ks : List TokenKind}

theorem str {v : String} (short : ∀ c ∈ v.toList, isShort c = true) (behind : Spells rest ks) :
    Spells ((quote v).toList ++ rest) (.str v :: ks) := by
  have content := stringContent_quoted short rest
  have front : lexemeAt '\x22' ((v.toList.flatMap quoteChar ++ ['\x22']) ++ rest) =
      .token (.str v) (v.toList.flatMap quoteChar ++ ['\x22']).length := by
    have lexeme (cs : List Char) :
        lexemeAt '\x22' cs = (stringContent '\x22' cs).lexeme .str := by
      simp [lexemeAt, isBlank, blankRanges, Char.isDigit]
    rw [lexeme, List.append_assoc, List.singleton_append, content]
    simp [Content.lexeme, String.ofList_toList]
  rw [quote, String.toList_ofList]
  exact .token front behind

theorem template {v : String} (accent : '\x60' ∉ v.toList) (slash : '\\' ∉ v.toList)
    (behind : Spells rest ks) :
    Spells ('\x60' :: (v.toList ++ '\x60' :: rest)) (.template v :: ks) := by
  have content := templateContent_plain accent slash rest
  have front : lexemeAt '\x60' ((v.toList ++ ['\x60']) ++ rest) =
      .token (.template v) (v.toList ++ ['\x60']).length := by
    have lexeme (cs : List Char) : lexemeAt '\x60' cs = (templateContent cs).lexeme .template := by
      simp [lexemeAt, isBlank, blankRanges, Char.isDigit]
    rw [lexeme, List.append_assoc, List.singleton_append, content]
    simp [Content.lexeme, String.ofList_toList]
  have whole : '\x60' :: (v.toList ++ '\x60' :: rest) =
      '\x60' :: ((v.toList ++ ['\x60']) ++ rest) := by
    simp
  rw [whole]
  exact .token front behind

end Spells

end SortTrace.Script
