import SortTrace.Proofs.Script.Contents

/-!
Escapes are a prefix code: no escape begins another one, so different texts stay different when
their characters are escaped. What quoting writes needs no escape by code point any more.
-/

namespace SortTrace.Text

/-- A text written with one nonempty word for each character, where the word shows the character. -/
structure PrefixCode (word : Char → List Char) : Prop where
  nonempty (c : Char) : word c ≠ []
  front {c d : Char} {rest more : List Char} : word c ++ rest = word d ++ more → c = d

theorem PrefixCode.injective {word : Char → List Char} (code : PrefixCode word) :
    Function.Injective fun text : String => String.ofList (text.toList.flatMap word) := by
  have lists (xs ys : List Char) (same : xs.flatMap word = ys.flatMap word) : xs = ys := by
    induction xs generalizing ys with
    | nil =>
      rcases ys with _ | ⟨y, ys⟩
      · rfl
      · exact absurd (List.append_eq_nil_iff.mp same.symm).1 (code.nonempty y)
    | cons x xs ih =>
      rcases ys with _ | ⟨y, ys⟩
      · exact absurd (List.append_eq_nil_iff.mp same).1 (code.nonempty x)
      · rw [List.flatMap_cons, List.flatMap_cons] at same
        obtain rfl := code.front same
        rw [ih ys (List.append_cancel_left same)]
  intro a b same
  exact String.toList_injective (lists _ _ (String.ofList_injective same))

theorem mem_hexDigits {n : Nat} {c : Char} (member : c ∈ hexDigits n) :
    ∃ d < 16, c = Nat.digitChar d := by
  unfold hexDigits at member
  induction n using Nat.strongRecOn with
  | ind n ih =>
    rw [Nat.toDigits_eq_if (by decide)] at member
    split at member
    · rename_i small
      exact ⟨n, small, List.mem_singleton.mp member⟩
    · rename_i large
      rcases List.mem_append.mp member with member | member
      · exact ih (n / 16) (by omega) member
      · exact ⟨n % 16, by omega, List.mem_singleton.mp member⟩

theorem hexDigit_injective : ∀ d < 16, ∀ e < 16, Nat.digitChar d = Nat.digitChar e → d = e := by
  decide

theorem hexDigits_injective : Function.Injective hexDigits := by
  intro m n same
  unfold hexDigits at same
  induction m using Nat.strongRecOn generalizing n with
  | ind m ih =>
    rw [@Nat.toDigits_eq_if 16 m (by decide), @Nat.toDigits_eq_if 16 n (by decide)] at same
    have lone {k : Nat} {last : Char} {digit : Char} :
        Nat.toDigits 16 k ++ [last] ≠ [digit] := by
      intro equal
      have length := congrArg List.length equal
      have positive := @Nat.length_toDigits_pos 16 k
      simp only [List.length_append, List.length_singleton] at length
      omega
    split at same <;> split at same
    · rename_i smallLeft smallRight
      exact hexDigit_injective m smallLeft n smallRight (List.singleton_inj.mp same)
    · exact absurd same.symm lone
    · exact absurd same lone
    · obtain ⟨front, last⟩ := List.append_inj' same rfl
      have high := ih (m / 16) (by omega) front
      have low := hexDigit_injective _ (Nat.mod_lt m (by decide)) _ (Nat.mod_lt n (by decide))
        (List.singleton_inj.mp last)
      omega

def IsPlain (c : Char) : Prop := isVisible c = true ∧ c ≠ '\\' ∧ c ≠ '\x22'

instance (c : Char) : Decidable (IsPlain c) := inferInstanceAs (Decidable (_ ∧ _))

theorem quoteChar_plain {c : Char} (plain : IsPlain c) : quoteChar c = [c] := by
  obtain ⟨visible, slash, quote⟩ := plain
  have other {d : Char} (hidden : isVisible d = false) : c ≠ d := by
    rintro rfl
    rw [hidden] at visible
    cases visible
  rw [quoteChar, if_neg (other (by decide +kernel)), if_neg (other (by decide +kernel)),
    if_neg (other (by decide +kernel)), if_neg (other (by decide +kernel)), if_neg slash,
    if_neg quote, if_pos visible]

theorem plain_hexDigits {n : Nat} {c : Char} (member : c ∈ hexDigits n) : IsPlain c := by
  obtain ⟨d, small, rfl⟩ := mem_hexDigits member
  have all : ∀ d < 16, IsPlain (Nat.digitChar d) := by decide +kernel
  exact all d small

inductive Quoted (c : Char) : List Char → Prop
  | plain : IsPlain c → Quoted c [c]
  | short (letter : Char) : letter ≠ 'u' → isShort letter = true → Script.unescape letter = c →
      Quoted c ['\\', letter]
  | code : Quoted c ('\\' :: 'u' :: '\x7b' :: (hexDigits c.toNat ++ ['\x7d']))

theorem quoted_quoteChar (c : Char) : Quoted c (quoteChar c) := by
  unfold quoteChar
  split
  · exact .short '0' (by decide) (by decide +kernel) (by symm; assumption)
  split
  · exact .short 't' (by decide) (by decide +kernel) (by symm; assumption)
  split
  · exact .short 'r' (by decide) (by decide +kernel) (by symm; assumption)
  split
  · exact .short 'n' (by decide) (by decide +kernel) (by symm; assumption)
  split
  · exact .short '\\' (by decide) (by decide +kernel) (by symm; assumption)
  split
  · exact .short '\x22' (by decide) (by decide +kernel) (by symm; assumption)
  split
  · exact .plain ⟨by assumption, by assumption, by assumption⟩
  · exact .code

theorem Quoted.front {c d : Char} {xs ys rest more : List Char} (first : Quoted c xs)
    (second : Quoted d ys) (same : xs ++ rest = ys ++ more) : c = d := by
  cases first with
  | plain left =>
    obtain ⟨-, slash, -⟩ := left
    cases second with
    | plain => exact (List.cons.inj same).1
    | short | code => exact absurd (List.cons.inj same).1 slash
  | short letter notCode short back =>
    cases second with
    | plain right => exact absurd (List.cons.inj same).1.symm right.2.1
    | short letter' notCode' short' back' =>
      rw [← back, ← back', (List.cons.inj (List.cons.inj same).2).1]
    | code => exact absurd (List.cons.inj (List.cons.inj same).2).1 notCode
  | code =>
    cases second with
    | plain right => exact absurd (List.cons.inj same).1.symm right.2.1
    | short letter notCode => exact absurd (List.cons.inj (List.cons.inj same).2).1.symm notCode
    | code =>
      -- The digits go as far as the closing brace.
      have digits (n : Nat) (behind : List Char) :
          (hexDigits n ++ '\x7d' :: behind).takeWhile (fun x => decide (x ≠ '\x7d')) =
            hexDigits n := by
        rw [List.takeWhile_append_of_pos, List.takeWhile_cons_of_neg (by simp), List.append_nil]
        intro x member
        obtain ⟨d, small, rfl⟩ := mem_hexDigits member
        have all : ∀ d < 16, decide (Nat.digitChar d ≠ '\x7d') = true := by decide
        exact all d small
      simp only [List.cons_append, List.cons.injEq, true_and, List.append_assoc,
        List.nil_append] at same
      have codes := congrArg (List.takeWhile fun x => decide (x ≠ '\x7d')) same
      rw [digits, digits] at codes
      exact Char.toNat_inj.mp (hexDigits_injective codes)

theorem prefixCode_quoteChar : PrefixCode quoteChar where
  nonempty c empty := by
    have word := quoted_quoteChar c
    rw [empty] at word
    cases word
  front same := (quoted_quoteChar _).front (quoted_quoteChar _) same

def escaped (text : String) : String := String.ofList (text.toList.flatMap quoteChar)

theorem escaped_injective : Function.Injective escaped := prefixCode_quoteChar.injective

theorem toList_escaped (text : String) :
    (escaped text).toList = text.toList.flatMap quoteChar := String.toList_ofList

theorem toList_quote (text : String) :
    (quote text).toList = '\x22' :: ((escaped text).toList ++ ['\x22']) := by
  rw [quote, String.toList_ofList, toList_escaped]
  rfl

theorem IsPlain.isShort {c : Char} (plain : IsPlain c) : isShort c = true := by
  simp [Text.isShort, plain.1]

theorem isShort_escaped (text : String) : (escaped text).toList.all isShort = true := by
  have word (c : Char) : ∀ d ∈ quoteChar c, isShort d = true := by
    intro d member
    generalize quoteChar c = w, quoted_quoteChar c = quoted at member
    cases quoted with
    | plain plain =>
      rw [List.mem_singleton.mp member]
      exact plain.isShort
    | short letter notCode short back =>
      rcases List.mem_cons.mp member with rfl | member
      · decide +kernel
      · rw [List.mem_singleton.mp member]
        exact short
    | code =>
      simp only [List.mem_cons, List.mem_append, List.not_mem_nil, or_false] at member
      rcases member with rfl | rfl | rfl | digit | rfl
      · decide +kernel
      · decide +kernel
      · decide +kernel
      · exact (plain_hexDigits digit).isShort
      · decide +kernel
  rw [toList_escaped, List.all_eq_true]
  intro d member
  obtain ⟨c, -, member⟩ := List.mem_flatMap.mp member
  exact word c d member

end SortTrace.Text
