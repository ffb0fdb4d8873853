import Mathlib.Data.List.Basic
import Mathlib.Algebra.Group.Nat.Basic

set_option autoImplicit false

/-! # What the sources share

Both `lpack.c` and `pktizr.c` compute in `size_t`, which the model takes as 64 bits (the
LP64 target). Code that can fail is modelled in `Except`; `bind_eq_ok` and `map_eq_ok`
take a successful computation apart, so that later proofs never unfold the monad.
-/

namespace Hype

/-- The largest `size_t` plus one: `size_t` arithmetic is modulo this. -/
def SIZET : Nat := 2 ^ 64

theorem bind_eq_ok {ε α β : Type} {x : Except ε α} {f : α → Except ε β} {b : β} :
    x >>= f = .ok b ↔ ∃ a, x = .ok a ∧ f a = .ok b := by
  cases x <;> simp [bind, Except.bind]

theorem map_eq_ok {ε α β : Type} {f : α → β} {x : Except ε α} {b : β}
    (h : x.map f = .ok b) : ∃ a, x = .ok a ∧ f a = b := by
  cases x <;> simp_all [Except.map]

end Hype
