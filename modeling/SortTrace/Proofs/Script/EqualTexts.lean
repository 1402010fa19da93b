import SortTrace.Proofs.Script.Reread
import SortTrace.Proofs.Script.Respelled

/-!
Equal texts. The respelled expression can be read back from its text, and what the first expression
looks like can be told from it. So two expressions with the same text look the same.
-/

namespace SortTrace.Script

open Text

mutual

theorem isTarget_respelled : ∀ e : Expr, e.isTarget = true → e.respelled.isTarget = true
  | .ident .., _ | .member .., _ | .index .., _ => rfl
  | .array items _, target => areTargets_respelleds items target
  | .number .., target | .str .., target | .template .., target | .bool .., target
  | .null _, target | .unary .., target | .update .., target | .binary .., target
  | .assign .., target | .conditional .., target | .call .., target | .func .., target => by
    cases target

theorem areTargets_respelleds : ∀ es : List Expr, Expr.areTargets es = true →
    Expr.areTargets (Expr.respelleds es) = true
  | [], _ => rfl
  | e :: rest, targets => by
    simp only [Expr.areTargets, Bool.and_eq_true] at targets
    rw [Expr.respelleds, Expr.areTargets, isTarget_respelled e targets.1,
      areTargets_respelleds rest targets.2, Bool.and_true]

end

namespace Expr.Printable

theorem grouped {e : Expr} (printable : e.respelled.Printable) (least : Nat) :
    (e.grouped least e.respelled).Printable := by
  unfold Expr.grouped
  split
  · have mark : ("\x22".toList.all isShort) = true := by decide +kernel
    constructor
    · simp [Expr.group, Expr.isSpelled, Expr.areSpelled, printable.1]
    · simp only [Expr.group, Expr.isLegible, Expr.areLegible, mark, printable.2, Bool.and_true]
  · exact printable

theorem unary {e : Expr} (op : UnaryOp) (printable : e.Printable) (apart : op.runsInto e = false) :
    (Expr.unary op e {}).Printable :=
  ⟨printable.1, by rw [Expr.isLegible, apart, printable.2]; rfl⟩

theorem apart {e : Expr} (op : UnaryOp) (printable : e.Printable)
    (free : ∀ sign, UnaryOp.runsInto sign e = false) : (op.apart e).Printable := by
  cases op with
  | neg | plus => exact .unary .not (.unary _ printable (free _)) rfl
  | not | typeof => exact .unary _ printable (free _)

end Expr.Printable

theorem runsInto_apart (sign op : UnaryOp) (e : Expr) : sign.runsInto (op.apart e) = false := by
  cases op <;> cases sign <;> rfl

theorem runsInto_grouped (sign : UnaryOp) (least : Nat) (e : Expr) :
    sign.runsInto (e.grouped least e.respelled) = false := by
  unfold Expr.grouped
  split
  · cases sign <;> rfl
  · cases e with
    | number v s =>
      rw [Expr.respelled]
      split <;> cases sign <;> rfl
    | unary op e s => exact runsInto_apart sign op _
    | update op before e s =>
      cases before with
      | true => exact runsInto_apart sign op.sign _
      | false => cases op <;> cases sign <;> rfl
    | _ => cases sign <;> rfl

theorem doubled_clear {v : String} (clear : '\x60' ∉ v.toList) :
    '\x60' ∉ (doubled v).toList ∧ '\\' ∉ (doubled v).toList := by
  have word {c d : Char} (member : d ∈ doubledChar c) : d = '/' ∨ d = '\x22' ∨ d = c ∧ c ≠ '\\' := by
    unfold doubledChar at member
    split at member
    · simp only [List.mem_cons, List.not_mem_nil, or_false] at member
      rcases member with rfl | rfl
      · exact .inl rfl
      · exact .inr (.inl rfl)
    · rename_i other
      have same : d = c := by simpa using member
      exact .inr (.inr ⟨same, other⟩)
  rw [doubled, String.toList_ofList]
  constructor
  · intro member
    obtain ⟨c, inside, member⟩ := List.mem_flatMap.mp member
    rcases word member with same | same | ⟨rfl, -⟩
    · cases same
    · cases same
    · exact clear inside
  · intro member
    obtain ⟨c, -, member⟩ := List.mem_flatMap.mp member
    rcases word member with same | same | ⟨rfl, other⟩
    · cases same
    · cases same
    · exact other rfl

mutual

theorem printable_respelled : ∀ e : Expr, e.isSpelled = true → e.isClear = true →
    e.respelled.Printable
  | .number v _, _, _ => by
    rw [Expr.respelled]
    split
    · rename_i infinite
      rw [Numeral.Magnitude.text, if_pos infinite]
      exact ⟨by decide, rfl⟩
    · rename_i finite
      exact ⟨rfl, by simp [Expr.isLegible, finite]⟩
  | .str v _, _, _ => ⟨rfl, isShort_escaped v⟩
  | .template v _, _, clear => by
    obtain ⟨accent, slash⟩ := doubled_clear (by simpa [Expr.isClear] using clear)
    exact ⟨rfl, by simp [Expr.respelled, Expr.isLegible, accent, slash]⟩
  | .bool .., _, _ | .null _, _, _ => ⟨rfl, rfl⟩
  | .ident .., spelled, _ => ⟨spelled, rfl⟩
  | .array items _, spelled, clear => printable_respelleds items spelled clear
  | .unary op e _, spelled, clear =>
    ((printable_respelled e spelled clear).grouped 7).apart op (runsInto_grouped · 7 e)
  | .update op true e _, spelled, clear =>
    (((printable_respelled e spelled clear).grouped 8).apart op.sign
      (runsInto_grouped · 8 e)).apart op.sign (runsInto_apart · op.sign _)
  | .update op false e _, spelled, clear => (printable_respelled e spelled clear).grouped 8
  | .binary l op r _, spelled, clear => by
    simp only [Expr.isSpelled, Expr.isClear, Bool.and_eq_true] at spelled clear
    have left := (printable_respelled l spelled.1 clear.1).grouped op.precedence
    have right := (printable_respelled r spelled.2 clear.2).grouped (op.precedence + 1)
    exact .binary op left right
  | .assign op t v _, spelled, clear => by
    simp only [Expr.isSpelled, Expr.isClear, Bool.and_eq_true] at spelled clear
    have target := printable_respelled t spelled.1.2 clear.1
    have value := printable_respelled v spelled.2 clear.2
    constructor
    · rw [Expr.respelled, Expr.isSpelled, isTarget_respelled t spelled.1.1, target.1, value.1,
        Bool.and_true, Bool.and_true]
    · rw [Expr.respelled, Expr.isLegible, target.2, value.2, Bool.and_true]
  | .conditional t c a _, spelled, clear => by
    simp only [Expr.isSpelled, Expr.isClear, Bool.and_eq_true] at spelled clear
    have test := (printable_respelled t spelled.1.1 clear.1.1).grouped 1
    have first := printable_respelled c spelled.1.2 clear.1.2
    have second := printable_respelled a spelled.2 clear.2
    constructor
    · rw [Expr.respelled, Expr.isSpelled, test.1, first.1, second.1, Bool.and_true, Bool.and_true]
    · rw [Expr.respelled, Expr.isLegible, test.2, first.2, second.2, Bool.and_true, Bool.and_true]
  | .call f args _, spelled, clear => by
    simp only [Expr.isSpelled, Expr.isClear, Bool.and_eq_true] at spelled clear
    have callee := (printable_respelled f spelled.1 clear.1).grouped 8
    have others := printable_respelleds args spelled.2 clear.2
    constructor
    · rw [Expr.respelled, Expr.isSpelled, callee.1, others.1, Bool.and_true]
    · rw [Expr.respelled, Expr.isLegible, callee.2, others.2, Bool.and_true]
  | .member o p _, spelled, clear => by
    simp only [Expr.isSpelled, Bool.and_eq_true] at spelled
    have object := (printable_respelled o spelled.1 clear).grouped 8
    exact ⟨by rw [Expr.respelled, Expr.isSpelled, object.1, spelled.2, Bool.and_true], object.2⟩
  | .index o i _, spelled, clear => by
    simp only [Expr.isSpelled, Expr.isClear, Bool.and_eq_true] at spelled clear
    have object := (printable_respelled o spelled.1 clear.1).grouped 8
    have inside := printable_respelled i spelled.2 clear.2
    constructor
    · rw [Expr.respelled, Expr.isSpelled, object.1, inside.1, Bool.and_true]
    · rw [Expr.respelled, Expr.isLegible, object.2, inside.2, Bool.and_true]
  | .func .., _, clear => by simp [Expr.isClear] at clear

theorem printable_respelleds : ∀ es : List Expr, Expr.areSpelled es = true →
    Expr.areClear es = true →
    Expr.areSpelled (Expr.respelleds es) = true ∧ Expr.areLegible (Expr.respelleds es) = true
  | [], _, _ => ⟨rfl, rfl⟩
  | e :: rest, spelled, clear => by
    simp only [Expr.areSpelled, Expr.areClear, Bool.and_eq_true] at spelled clear
    have first := printable_respelled e spelled.1 clear.1
    have others := printable_respelleds rest spelled.2 clear.2
    constructor
    · rw [Expr.respelleds, Expr.areSpelled, first.1, others.1, Bool.and_true]
    · rw [Expr.respelleds, Expr.areLegible, first.2, others.2, Bool.and_true]

end

theorem Expr.Printable.bare_eq {a b : Expr} (left : a.Printable) (right : b.Printable)
    (same : a.text = b.text) : a.bare = b.bare := by
  have reads {e : Expr} (printable : e.Printable) : ∃ tokens,
      scan e.text = .ok tokens ∧ ∃ copy rest,
        Grammar.assignment (Grammar.allowance tokens) ⟨tokens, {}⟩ = .ok (copy, rest) ∧
          copy.bare = e.bare := by
    obtain ⟨tokens, scanned, kinds⟩ :=
      spells_text e printable.1 printable.2 [] [.eof] .nil .nil .origin
    rw [List.append_nil] at scanned
    obtain ⟨copy, rest, read, -, same⟩ :=
      reads_kinds kinds (isPlain_of_isLegible e printable.1 printable.2)
    exact ⟨tokens, scanned, copy, rest, read, same⟩
  obtain ⟨tokens, scanned, copy, rest, read, copied⟩ := reads left
  obtain ⟨tokens', scanned', copy', rest', read', copied'⟩ := reads right
  rw [same, scanned'] at scanned
  cases scanned
  rw [read'] at read
  cases read
  rw [← copied, copied']

def Expr.isGroupMark : Expr → Bool
  | .str v _ => v == "\x22"
  | _ => false

/-- The given sign, kept apart, in front of a group. -/
def Expr.isSignedGroup (op : UnaryOp) : Expr → Bool
  | .unary .not (.unary inner (.call mark _ _) _) _ => inner = op && mark.isGroupMark
  | _ => false

def Expr.isSigned : Expr → Bool
  | .unary .neg _ _ | .unary .plus _ _ => true
  | _ => false

def UnaryOp.step : UnaryOp → UpdateOp
  | neg => .decrement
  | _ => .increment

/-- A sign in front of an operand that was read back from `spelled`. The same sign in front of a
signed operand in parentheses is a step. -/
def UnaryOp.unspelled (op : UnaryOp) (spelled operand : Expr) : Expr :=
  if spelled.isSignedGroup op then
    match operand with
    | .unary _ e _ => if e.level = 7 then .update op.step true e {} else .unary op operand {}
    | _ => .unary op operand {}
  else .unary op operand {}

/-- Ways back from the texts of a respelled expression. -/
structure Unspelling where
  unquote : String → String
  undouble : String → String
  unquoted : Function.LeftInverse unquote escaped
  undoubled : Function.LeftInverse undouble doubled

mutual

def Expr.unspelled (u : Unspelling) : Expr → Expr
  | .str v _ => .str (u.unquote v) {}
  | .template v _ => .template (u.undouble v) {}
  | .array items _ => .array (Expr.unspelleds u items) {}
  | .unary .neg e _ => UnaryOp.unspelled .neg e (e.unspelled u)
  | .unary .plus e _ => UnaryOp.unspelled .plus e (e.unspelled u)
  | .unary .not e _ => if e.isSigned then e.unspelled u else .unary .not (e.unspelled u) {}
  | .unary .typeof e _ => .unary .typeof (e.unspelled u) {}
  | .update op before e _ => .update op before (e.unspelled u) {}
  | .binary l op r _ => .binary (l.unspelled u) op (r.unspelled u) {}
  | .assign op t v _ => .assign op (t.unspelled u) (v.unspelled u) {}
  | .conditional t c a _ => .conditional (t.unspelled u) (c.unspelled u) (a.unspelled u) {}
  | .call f args _ =>
    if f.isGroupMark then (Expr.unspelleds u args).headD (.null {})
    else .call (f.unspelled u) (Expr.unspelleds u args) {}
  | .member o p _ => .member (o.unspelled u) p {}
  | .index o i _ => .index (o.unspelled u) (i.unspelled u) {}
  | e => e

def Expr.unspelleds (u : Unspelling) : List Expr → List Expr
  | [] => []
  | e :: rest => e.unspelled u :: Expr.unspelleds u rest

end

theorem unspelled_grouped (u : Unspelling) (least : Nat) (e inside : Expr) :
    (e.grouped least inside).unspelled u = inside.unspelled u := by
  unfold Expr.grouped
  split
  · rfl
  · rfl

theorem escaped_ne_mark (v : String) : escaped v ≠ "\x22" := by
  intro same
  have chars := congrArg String.toList same
  simp only [toList_escaped, String.reduceToList] at chars
  generalize v.toList = cs at chars
  rcases cs with _ | ⟨c, cs⟩
  · cases chars
  · rw [List.flatMap_cons] at chars
    have quoted := quoted_quoteChar c
    generalize quoteChar c = w at chars quoted
    cases quoted with
    | plain plain => exact plain.2.2 (List.cons.inj chars).1
    | short letter => cases chars
    | code => cases chars

theorem isGroupMark_grouped (least : Nat) (e : Expr) :
    (e.grouped least e.respelled).isGroupMark = false := by
  unfold Expr.grouped
  split
  · rfl
  · cases e with
    | number v s =>
      rw [Expr.respelled]
      split <;> rfl
    | str v s => simp [Expr.respelled, Expr.isGroupMark, escaped_ne_mark]
    | unary op e s => cases op <;> rfl
    | update op before e s => cases before <;> cases op <;> rfl
    | _ => rfl

theorem isSigned_apart (op : UnaryOp) (e : Expr) : (op.apart e).isSigned = false := by
  cases op <;> rfl

theorem isSigned_grouped (least : Nat) (e : Expr) :
    (e.grouped least e.respelled).isSigned = false := by
  unfold Expr.grouped
  split
  · rfl
  · cases e with
    | number v s =>
      rw [Expr.respelled]
      split <;> rfl
    | unary op e s => exact isSigned_apart op _
    | update op before e s => cases before <;> cases op <;> rfl
    | _ => rfl

theorem group_of_mark {least : Nat} {e mark : Expr} {args : List Expr} {s : Span}
    (same : e.grouped least e.respelled = .call mark args s) (marked : mark.isGroupMark = true) :
    e.level < least := by
  unfold Expr.grouped at same
  split at same
  · assumption
  · exfalso
    cases e with
    | number v s =>
      rw [Expr.respelled] at same
      split at same <;> cases same
    | unary op e s => cases op <;> cases same
    | update op before e s => cases before <;> cases op <;> cases same
    | call f args s =>
      cases same
      rw [isGroupMark_grouped 8 f] at marked
      cases marked
    | _ => cases same

theorem isSignedGroup_cases {op : UnaryOp} {e : Expr} (group : e.isSignedGroup op = true) :
    ∃ mark args s s' s'', e = .unary .not (.unary op (.call mark args s) s') s'' ∧
      mark.isGroupMark = true := by
  unfold Expr.isSignedGroup at group
  split at group
  · simp only [Bool.and_eq_true, decide_eq_true_eq] at group
    obtain ⟨rfl, marked⟩ := group
    exact ⟨_, _, _, _, _, rfl, marked⟩
  · cases group

theorem apparent_of_signedGroup {op : UnaryOp} (sign : op = .neg ∨ op = .plus) {least : Nat}
    {e : Expr} (group : (e.grouped least e.respelled).isSignedGroup op = true) :
    ∃ operand, e.apparent = .unary op operand {} ∧ operand.level < 7 := by
  obtain ⟨mark, args, s, s', s'', same, marked⟩ := isSignedGroup_cases group
  unfold Expr.grouped at same
  split at same
  · cases same
  · cases e with
    | number v s =>
      rw [Expr.respelled] at same
      split at same <;> cases same
    | unary outer e s =>
      cases outer with
      | neg | plus =>
        simp only [Expr.respelled, UnaryOp.apart, Expr.unary.injEq, true_and] at same
        obtain ⟨⟨rfl, call, -⟩, -⟩ := same
        exact ⟨e.apparent, rfl, by rw [e.level_apparent]; exact group_of_mark call marked⟩
      | not =>
        -- Behind a `!` of its own, no respelled operand begins with a sign.
        have free := isSigned_grouped 7 e
        simp only [Expr.respelled, UnaryOp.apart, Expr.unary.injEq, true_and] at same
        rw [same.1] at free
        rcases sign with rfl | rfl <;> cases free
      | typeof => cases same
    | update op before e s => cases before <;> cases op <;> cases same
    | _ => cases same

theorem doubled_injective : Function.Injective doubled := by
  refine PrefixCode.injective ⟨fun c => ?_, fun {c d rest more} same => ?_⟩
  · unfold doubledChar
    split <;> exact List.cons_ne_nil _ _
  · unfold doubledChar at same
    split at same <;> split at same
    · rename_i left right
      rw [left, right]
    · simp only [List.cons_append, List.cons.injEq] at same
      exact absurd (same.1.trans same.2.1.symm) (by decide)
    · simp only [List.cons_append, List.cons.injEq] at same
      exact absurd (same.1.symm.trans same.2.1) (by decide)
    · exact (List.cons.inj same).1

theorem unspelled_sign {op : UnaryOp} (sign : op = .neg ∨ op = .plus) (least : Nat) (e : Expr) :
    op.unspelled (e.grouped least e.respelled) e.apparent = .unary op e.apparent {} := by
  unfold UnaryOp.unspelled
  split
  · rename_i group
    obtain ⟨operand, same, low⟩ := apparent_of_signedGroup sign group
    rw [same]
    exact if_neg (by omega)
  · rfl

theorem UpdateOp.sign_cases (op : UpdateOp) : op.sign = .neg ∨ op.sign = .plus := by
  cases op
  · exact .inr rfl
  · exact .inl rfl

/-- Two signs are a step if there are parentheses behind them that one sign does not ask for. -/
theorem unspelled_signs (op : UpdateOp) (e : Expr) (s : Span) :
    op.sign.unspelled (op.sign.apart (e.grouped 8 e.respelled)) (.unary op.sign e.apparent {}) =
      (Expr.update op true e s).apparent := by
  unfold UnaryOp.unspelled
  by_cases signed : e.level = 7
  · have grouped : e.grouped 8 e.respelled = e.respelled.group := if_pos (by omega)
    have group : (op.sign.apart e.respelled.group).isSignedGroup op.sign = true := by
      cases op <;> rfl
    have step : op.sign.step = op := by cases op <;> rfl
    rw [Expr.apparent, if_pos signed, grouped, if_pos group]
    simp only [e.level_apparent, signed, if_true, step]
  · rw [Expr.apparent, if_neg signed]
    simp only [e.level_apparent, signed, if_false, ite_self]

theorem unspelled_apart (u : Unspelling) {op : UnaryOp} (sign : op = .neg ∨ op = .plus)
    (inside : Expr) : (op.apart inside).unspelled u = op.unspelled inside (inside.unspelled u) := by
  rcases sign with rfl | rfl <;> rfl

theorem unspelled_not (u : Unspelling) {inside : Expr} (unsigned : inside.isSigned = false) :
    (UnaryOp.not.apart inside).unspelled u = .unary .not (inside.unspelled u) {} := by
  simp [UnaryOp.apart, Expr.unspelled, unsigned]

mutual

theorem unspelled_respelled (u : Unspelling) : ∀ e : Expr, e.isClear = true →
    e.respelled.unspelled u = e.apparent
  | .number v _, _ => by
    rw [Expr.respelled, Expr.apparent]
    split <;> rfl
  | .str v _, _ => by rw [Expr.respelled, Expr.unspelled, u.unquoted, Expr.apparent]
  | .template v _, _ => by rw [Expr.respelled, Expr.unspelled, u.undoubled, Expr.apparent]
  | .bool .., _ | .null _, _ | .ident .., _ => rfl
  | .array items _, clear => by
    rw [Expr.respelled, Expr.unspelled, unspelled_respelleds u items clear, Expr.apparent]
  | .unary op e _, clear => by
    have inside : (e.grouped 7 e.respelled).unspelled u = e.apparent := by
      rw [unspelled_grouped, unspelled_respelled u e clear]
    have signed {op : UnaryOp} (sign : op = .neg ∨ op = .plus) :
        (op.apart (e.grouped 7 e.respelled)).unspelled u = .unary op e.apparent {} := by
      rw [unspelled_apart u sign, inside, unspelled_sign sign]
    rw [Expr.respelled, Expr.apparent]
    cases op with
    | neg => exact signed (.inl rfl)
    | plus => exact signed (.inr rfl)
    | not => rw [unspelled_not u (isSigned_grouped 7 e), inside]
    | typeof => rw [UnaryOp.apart, Expr.unspelled, inside] <;> simp
  | .update op true e s, clear => by
    have inside : (e.grouped 8 e.respelled).unspelled u = e.apparent := by
      rw [unspelled_grouped, unspelled_respelled u e clear]
    have sign := op.sign_cases
    have first : (op.sign.apart (e.grouped 8 e.respelled)).unspelled u =
        .unary op.sign e.apparent {} := by
      rw [unspelled_apart u sign, inside, unspelled_sign sign]
    rw [Expr.respelled, unspelled_apart u sign, first]
    exact unspelled_signs op e s
  | .update op false e _, clear => by
    rw [Expr.respelled, Expr.unspelled, unspelled_grouped, unspelled_respelled u e clear,
      Expr.apparent]
  | .binary l op r _, clear => by
    simp only [Expr.isClear, Bool.and_eq_true] at clear
    rw [Expr.respelled, Expr.unspelled, unspelled_grouped, unspelled_grouped,
      unspelled_respelled u l clear.1, unspelled_respelled u r clear.2, Expr.apparent]
  | .assign op t v _, clear => by
    simp only [Expr.isClear, Bool.and_eq_true] at clear
    rw [Expr.respelled, Expr.unspelled, unspelled_respelled u t clear.1,
      unspelled_respelled u v clear.2, Expr.apparent]
  | .conditional t c a _, clear => by
    simp only [Expr.isClear, Bool.and_eq_true] at clear
    rw [Expr.respelled, Expr.unspelled, unspelled_grouped, unspelled_respelled u t clear.1.1,
      unspelled_respelled u c clear.1.2, unspelled_respelled u a clear.2, Expr.apparent]
  | .call f args _, clear => by
    simp only [Expr.isClear, Bool.and_eq_true] at clear
    rw [Expr.respelled, Expr.unspelled, isGroupMark_grouped, if_neg Bool.false_ne_true,
      unspelled_grouped, unspelled_respelled u f clear.1, unspelled_respelleds u args clear.2,
      Expr.apparent]
  | .member o p _, clear => by
    rw [Expr.respelled, Expr.unspelled, unspelled_grouped, unspelled_respelled u o clear,
      Expr.apparent]
  | .index o i _, clear => by
    simp only [Expr.isClear, Bool.and_eq_true] at clear
    rw [Expr.respelled, Expr.unspelled, unspelled_grouped, unspelled_respelled u o clear.1,
      unspelled_respelled u i clear.2, Expr.apparent]
  | .func .., clear => by simp [Expr.isClear] at clear

theorem unspelled_respelleds (u : Unspelling) : ∀ es : List Expr, Expr.areClear es = true →
    Expr.unspelleds u (Expr.respelleds es) = Expr.apparents es
  | [], _ => rfl
  | e :: rest, clear => by
    simp only [Expr.areClear, Bool.and_eq_true] at clear
    rw [Expr.respelleds, Expr.unspelleds, unspelled_respelled u e clear.1,
      unspelled_respelleds u rest clear.2, Expr.apparents]

end

theorem bare_grouped (least : Nat) (e inside : Expr) :
    (e.grouped least inside).bare = e.grouped least inside.bare := by
  unfold Expr.grouped
  split <;> rfl

theorem bare_apart (op : UnaryOp) (e : Expr) : (op.apart e).bare = op.apart e.bare := by
  cases op <;> rfl

mutual

theorem bare_respelled : ∀ e : Expr, e.isClear = true → e.respelled.bare = e.respelled
  | .number v _, _ => by
    rw [Expr.respelled]
    split <;> rfl
  | .str .., _ | .template .., _ | .bool .., _ | .null _, _ | .ident .., _ => rfl
  | .array items _, clear => by rw [Expr.respelled, Expr.bare, bares_respelleds items clear]
  | .unary op e _, clear => by
    rw [Expr.respelled, bare_apart, bare_grouped, bare_respelled e clear]
  | .update op true e _, clear => by
    rw [Expr.respelled, bare_apart, bare_apart, bare_grouped, bare_respelled e clear]
  | .update op false e _, clear => by
    rw [Expr.respelled, Expr.bare, bare_grouped, bare_respelled e clear]
  | .binary l op r _, clear => by
    simp only [Expr.isClear, Bool.and_eq_true] at clear
    rw [Expr.respelled, Expr.bare, bare_grouped, bare_grouped, bare_respelled l clear.1,
      bare_respelled r clear.2]
  | .assign op t v _, clear => by
    simp only [Expr.isClear, Bool.and_eq_true] at clear
    rw [Expr.respelled, Expr.bare, bare_respelled t clear.1, bare_respelled v clear.2]
  | .conditional t c a _, clear => by
    simp only [Expr.isClear, Bool.and_eq_true] at clear
    rw [Expr.respelled, Expr.bare, bare_grouped, bare_respelled t clear.1.1,
      bare_respelled c clear.1.2, bare_respelled a clear.2]
  | .call f args _, clear => by
    simp only [Expr.isClear, Bool.and_eq_true] at clear
    rw [Expr.respelled, Expr.bare, bare_grouped, bare_respelled f clear.1,
      bares_respelleds args clear.2]
  | .member o p _, clear => by
    rw [Expr.respelled, Expr.bare, bare_grouped, bare_respelled o clear]
  | .index o i _, clear => by
    simp only [Expr.isClear, Bool.and_eq_true] at clear
    rw [Expr.respelled, Expr.bare, bare_grouped, bare_respelled o clear.1,
      bare_respelled i clear.2]
  | .func .., clear => by simp [Expr.isClear] at clear

theorem bares_respelleds : ∀ es : List Expr, Expr.areClear es = true →
    Expr.bares (Expr.respelleds es) = Expr.respelleds es
  | [], _ => rfl
  | e :: rest, clear => by
    simp only [Expr.areClear, Bool.and_eq_true] at clear
    rw [Expr.respelleds, Expr.bares, bare_respelled e clear.1, bares_respelleds rest clear.2]

end

theorem apparent_eq_of_text_eq {a b : Expr} (spelledLeft : a.isSpelled = true)
    (clearLeft : a.isClear = true) (spelledRight : b.isSpelled = true)
    (clearRight : b.isClear = true) (same : a.text = b.text) : a.apparent = b.apparent := by
  obtain ⟨unquote, unquoted⟩ := escaped_injective.hasLeftInverse
  obtain ⟨undouble, undoubled⟩ := doubled_injective.hasLeftInverse
  have left := respells a spelledLeft clearLeft [] trivial
  have right := respells b spelledRight clearRight [] trivial
  rw [same, right] at left
  have text : a.respelled.text = b.respelled.text :=
    String.toList_injective (List.append_cancel_right left.symm)
  have bare := (printable_respelled a spelledLeft clearLeft).bare_eq
    (printable_respelled b spelledRight clearRight) text
  rw [bare_respelled a clearLeft, bare_respelled b clearRight] at bare
  let u : Unspelling := ⟨unquote, undouble, unquoted, undoubled⟩
  rw [← unspelled_respelled u a clearLeft, bare, unspelled_respelled u b clearRight]

end SortTrace.Script
