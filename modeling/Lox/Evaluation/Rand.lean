/-!
The numbers that `rand` yields: a fixed cycle, so that every run is reproducible.
-/

namespace Lox.Rand

/-- The numbers in their order. -/
def cycle : Vector Nat 12 :=
  ⟨#[57, 97, 28, 7, 71, 1, 79, 83, 64, 82, 89, 24], rfl⟩

/-- The number at a place of the cycle. -/
def number (cursor : Fin 12) : Float :=
  Float.ofNat cycle[cursor]

/-- Where a run starts. -/
def first : Fin 12 :=
  0

/-- The place after a place. -/
def next (cursor : Fin 12) : Fin 12 :=
  cursor + 1

/-- The first `n` numbers from a place on. -/
def numbers (cursor : Fin 12) : Nat → List Float
  | 0 => []
  | n + 1 => number cursor :: numbers (next cursor) n

end Lox.Rand
