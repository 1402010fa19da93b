namespace SortTrace

variable {ε α β : Type} {x : Except ε α}

theorem ok_of_bind {k : α → Except ε β} {b : β} (done : x >>= k = .ok b) :
    ∃ a, x = .ok a ∧ k a = .ok b := by
  cases x with
  | ok a => exact ⟨a, rfl, done⟩
  | error e => cases done

theorem error_of_bind {k : α → Except ε β} {e : ε} (failed : x >>= k = .error e) :
    x = .error e ∨ ∃ a, x = .ok a ∧ k a = .error e := by
  cases x with
  | ok a => exact .inr ⟨a, rfl, failed⟩
  | error e' =>
    cases failed
    exact .inl rfl

theorem ok_of_toOption {a : α} (found : x.toOption = some a) : x = .ok a := by
  cases x with
  | ok b => rw [Option.some.inj found]
  | error e => cases found

theorem toOption_bind (x : Except ε α) (k : α → Except ε β) :
    (x >>= k).toOption = x.toOption.bind fun a => (k a).toOption := by
  cases x <;> rfl

end SortTrace
