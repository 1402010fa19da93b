import SortTrace.Synthesis.LoopRange
import SortTrace.Trace.Recorder

/-!
A machine of 64 bits that watches itself. It keeps numbers in words and reads lists at positions; a result
that no word can hold and a position that a list does not have are breaches, and end everything.
-/

namespace SortTrace.Synthesis

inductive Breach where
  | overflow (exact : Int)
  | outside (position size : Nat)
deriving DecidableEq

namespace Machine

def signed (exact : Int) : Except Breach Int64 :=
  if -2 ^ 63 ≤ exact ∧ exact < 2 ^ 63 then .ok (Int64.ofInt exact) else .error (.overflow exact)

def unsigned (exact : Int) : Except Breach Nat :=
  if 0 ≤ exact ∧ exact < 2 ^ 64 then .ok exact.toNat else .error (.overflow exact)

theorem signed_ok {exact : Int} (low : -2 ^ 63 ≤ exact) (high : exact < 2 ^ 63) :
    signed exact = .ok (Int64.ofInt exact) := if_pos ⟨low, high⟩

theorem toInt_of_signed {exact : Int} {v : Int64} (held : signed exact = .ok v) :
    v.toInt = exact := by
  unfold signed at held
  split at held
  · rename_i fits
    cases held
    exact Int64.toInt_ofInt_of_le fits.1 fits.2
  · cases held

theorem signed_natCast {n : Nat} (fits : n < 2 ^ 63) : signed n = .ok (Int64.ofNat n) := by
  rw [signed_ok (by omega) (by omega), Int64.ofInt_eq_ofNat]

theorem unsigned_natCast {n : Nat} (fits : n < 2 ^ 64) : unsigned n = .ok n :=
  if_pos ⟨by omega, by omega⟩

theorem signed_succ {i stop : Int64} (inside : i < stop) : signed (i.toInt + 1) = .ok (i + 1) := by
  have below := Int64.lt_iff_toInt_lt.mp inside
  have high := stop.toInt_lt
  have low := i.le_toInt
  rw [signed_ok (by omega) (by omega), Int64.ofInt_add, Int64.ofInt_toInt]
  rfl

theorem signed_pred {length : Int64} (natural : 0 ≤ length.toInt) :
    signed (length.toInt - 1) = .ok (length - 1) := by
  have high := length.toInt_lt
  rw [signed_ok (by omega) (by omega), Int64.ofInt_sub, Int64.ofInt_toInt]
  rfl

theorem exactSub?_eq (a b : Int64) : exactSub? a b = (signed (a.toInt - b.toInt)).toOption := by
  unfold exactSub? signed
  dsimp only
  split <;> rfl

theorem unsigned_toInt (j : Int64) :
    (unsigned j.toInt).toOption = if j < 0 then none else some j.toInt.toNat := by
  have high := j.toInt_lt
  have sign : j < 0 ↔ j.toInt < 0 := by rw [Int64.lt_iff_toInt_lt, Int64.toInt_zero]
  unfold unsigned
  by_cases negative : j < 0
  · rw [if_pos negative, if_neg fun fits => absurd (sign.mp negative) (by omega)]
    rfl
  · have natural : ¬ j.toInt < 0 := mt sign.mpr negative
    rw [if_neg negative, if_pos (by omega)]
    rfl

theorem ok_bind {α β : Type} (a : α) (f : α → Except Breach β) : (Except.ok a >>= f) = f a := rfl

variable {α : Type}

def entry (l : List α) (i : Nat) : Except Breach α :=
  match l[i]? with
  | some x => .ok x
  | none => .error (.outside i l.length)

def replace (l : List α) (i : Nat) (x : α) : Except Breach (List α) :=
  if i < l.length then .ok (l.set i x) else .error (.outside i l.length)

theorem entry_ok {l : List α} {i : Nat} {x : α} (found : l[i]? = some x) : entry l i = .ok x := by
  rw [entry, found]

theorem replace_ok {l : List α} {i : Nat} (inside : i < l.length) (x : α) :
    replace l i x = .ok (l.set i x) := if_pos inside

def compare (r : Recorder) (i j : Nat) : Except Breach (Recorder × Option (Int64 × Int64)) :=
  if i < r.size ∧ j < r.size then do
    let x ← entry r.array i
    let y ← entry r.array j
    return (r.note (.compare i j x y), some (x, y))
  else return (r, none)

def swap (r : Recorder) (i j : Nat) : Except Breach Recorder :=
  if i < r.size ∧ j < r.size then do
    let x ← entry r.array i
    let y ← entry r.array j
    let half ← replace r.array i y
    let array ← replace half j x
    return ⟨array, r.log.push (.swap i j x y)⟩
  else return r

def set (r : Recorder) (i : Nat) (value : Int64) : Except Breach Recorder :=
  if i < r.size then do
    let previous ← entry r.array i
    let array ← replace r.array i value
    return ⟨array, r.log.push (.set i value previous)⟩
  else return r

def exchangeIf (r : Recorder) (asked : Int64 → Int64 → Bool) (i j : Nat) :
    Except Breach Recorder := do
  let looked ← compare r i j
  match looked.2 with
  | some (x, y) => if asked x y then swap looked.1 i j else return looked.1
  | none => return looked.1

section

variable (r : Recorder) {i j : Nat}

theorem inside_of_some {x : Int64} (found : r.array[i]? = some x) : i < r.size :=
  (List.getElem?_eq_some_iff.mp found).1

theorem outside_of_none (missing : r.array[i]? = none) : ¬ i < r.size :=
  Nat.not_lt.mpr (List.getElem?_eq_none_iff.mp missing)

theorem compare_eq (i j : Nat) : compare r i j = .ok (r.compare i j) := by
  unfold compare Recorder.compare
  cases first : r.array[i]? with
  | none => rw [if_neg fun both => outside_of_none r first both.1]; rfl
  | some x =>
    cases second : r.array[j]? with
    | none => rw [if_neg fun both => outside_of_none r second both.2]; rfl
    | some y =>
      rw [if_pos ⟨inside_of_some r first, inside_of_some r second⟩, entry_ok first, entry_ok second]
      rfl

theorem swap_eq (i j : Nat) : swap r i j = .ok (r.swap i j).1 := by
  unfold swap Recorder.swap
  cases first : r.array[i]? with
  | none => rw [if_neg fun both => outside_of_none r first both.1]; rfl
  | some x =>
    cases second : r.array[j]? with
    | none => rw [if_neg fun both => outside_of_none r second both.2]; rfl
    | some y =>
      have inside := inside_of_some r first
      have inside' := inside_of_some r second
      have later : j < (r.array.set i y).length := by rwa [List.length_set]
      rw [if_pos ⟨inside, inside'⟩, entry_ok first, entry_ok second]
      simp only [ok_bind, replace_ok inside, replace_ok later]
      rfl

theorem set_eq (i : Nat) (value : Int64) : set r i value = .ok (r.set i value).1 := by
  unfold set Recorder.set
  cases found : r.array[i]? with
  | none => rw [if_neg (outside_of_none r found)]; rfl
  | some x =>
    have inside := inside_of_some r found
    rw [if_pos inside, entry_ok found]
    simp only [ok_bind, replace_ok inside]
    rfl

theorem exchangeIf_eq (asked : Int64 → Int64 → Bool) (i j : Nat) :
    exchangeIf r asked i j = .ok (r.exchangeIf asked i j) := by
  unfold exchangeIf Recorder.exchangeIf
  rw [compare_eq]
  obtain ⟨looked, values⟩ := r.compare i j
  rcases values with _ | ⟨x, y⟩
  · rfl
  · simp only [ok_bind, swap_eq]
    split <;> rfl

end

end Machine

end SortTrace.Synthesis
