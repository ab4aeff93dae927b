/-
Operations that may fail, one after the other.

Main statement: `bind_eq_ok_iff`, two operations succeed when both do.
-/

namespace PskHandshake.Fallible

variable {ε α β : Type}

theorem bind_eq_ok_iff {first : Except ε α} {next : α → Except ε β} {b : β} :
    first >>= next = .ok b ↔ ∃ a, first = .ok a ∧ next a = .ok b := by
  cases first with
  | error e => simp [bind, Except.bind]
  | ok a => simp [bind, Except.bind]

/-- An operation whose result is described differently succeeds exactly when it does. -/
theorem map_eq_ok_iff {first : Except ε α} {f : α → β} {b : β} :
    first.map f = .ok b ↔ ∃ a, first = .ok a ∧ f a = b := by
  cases first with
  | error e => simp [Except.map]
  | ok a => simp [Except.map]

theorem map_eq_error_iff {first : Except ε α} {f : α → β} {e : ε} :
    first.map f = .error e ↔ first = .error e := by
  cases first with
  | error e' => simp [Except.map]
  | ok a => simp [Except.map]

/-- An operation whose error is described differently succeeds exactly when it does. -/
theorem mapError_eq_ok_iff {ε' : Type} {first : Except ε α} {f : ε → ε'} {a : α} :
    first.mapError f = .ok a ↔ first = .ok a := by
  cases first with
  | error e => exact iff_of_false nofun nofun
  | ok a' =>
    change Except.ok a' = _ ↔ _
    simp

theorem mapError_eq_error_iff {ε' : Type} {first : Except ε α} {f : ε → ε'} {e' : ε'} :
    first.mapError f = .error e' ↔ ∃ e, first = .error e ∧ f e = e' := by
  cases first with
  | error e =>
    change Except.error (f e) = _ ↔ _
    simp
  | ok a => exact iff_of_false nofun (by simp)

end PskHandshake.Fallible
