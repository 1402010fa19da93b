/-!
Rewriting a text in one pass. What is written for a character depends on the place it stands in and
on what is ahead of it.
-/

namespace SortTrace.Text

structure Rewriter (σ : Type) where
  write : σ → Char → List Char → List Char
  next : σ → Char → σ

namespace Rewriter

variable {σ : Type}

def run (r : Rewriter σ) : σ → List Char → List Char
  | _, [] => []
  | s, c :: rest => r.write s c rest ++ r.run (r.next s c) rest

/-- From one place to another, a text becomes another one in front of every rest of a kind. -/
def Turns (r : Rewriter σ) (Before : List Char → Prop) (s : σ) (text out : List Char) (t : σ) :
    Prop :=
  ∀ rest, Before rest → r.run s (text ++ rest) = out ++ r.run t rest

namespace Turns

variable {r : Rewriter σ} {Before Between : List Char → Prop} {s t u : σ}
  {text out text' out' : List Char}

theorem nil : r.Turns Before s [] [] s := fun _ _ => rfl

theorem one {c : Char} (written : ∀ rest, Before rest → r.write s c rest = out) :
    r.Turns Before s [c] out (r.next s c) := by
  intro rest before
  rw [List.singleton_append, run, written rest before]

theorem append (first : r.Turns Between s text out t) (second : r.Turns Before t text' out' u)
    (between : ∀ rest, Before rest → Between (text' ++ rest)) :
    r.Turns Before s (text ++ text') (out ++ out') u := by
  intro rest before
  rw [List.append_assoc, first _ (between rest before), second rest before, List.append_assoc]

theorem copy (written : ∀ c ∈ text, ∀ rest, r.write s c rest = [c])
    (kept : ∀ c ∈ text, r.next s c = s) : r.Turns Before s text text s := by
  intro rest before
  induction text with
  | nil => rfl
  | cons c text ih =>
    have others := ih (fun d member => written d (by simp [member]))
      (fun d member => kept d (by simp [member]))
    rw [List.cons_append, run, written c (by simp), kept c (by simp), others]
    rfl

end Turns

end Rewriter

end SortTrace.Text
