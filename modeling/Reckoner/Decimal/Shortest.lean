import Reckoner.Binary64.Rounding

/-!
# The shortest decimal of a double

Among the decimals that read back to a given positive double, the one with the fewest digits is
selected; of two with equally many digits the nearer one, and of two equally near the even one.
Every double is a whole number of units of 10⁻¹⁰⁷⁴, so the search compares naturals only: it
tries the two neighbours of the double on ever finer decimal grids, and on the finest grid the
double itself is a point.
-/

namespace Reckoner

/-- A whole number times a power of ten. -/
structure Decimal where
  digits : Nat
  exponent : Int
deriving DecidableEq

/-- What is found at the coarsest place, from the given one down; at the finest place, which is zero,
there is something to fall back on. -/
def coarsest {α : Type} (find? : Nat → Option α) (finest : α) : (place : Nat) → α
  | 0 => finest
  | place + 1 =>
    match find? (place + 1) with
    | some found => found
    | none => coarsest find? finest place

namespace Magnitude

/-- The size counted in units of 10⁻¹⁰⁷⁴. -/
def decimalUnits (m : Magnitude) : Nat :=
  m.units * Nat.pow 5 1074

/-- Whether a multiple of a power of ten, in units of 10⁻¹⁰⁷⁴, rounds to the size. -/
def readsBack (m : Magnitude) (count place : Nat) : Bool :=
  roundUnits (count * Nat.pow 10 place) (Nat.pow 5 1074) = m.units

/-- The multiple of a power of ten next to the size that rounds to it, the nearer one first. -/
def neighbour? (m : Magnitude) (place : Nat) : Option Nat :=
  let low := m.decimalUnits / Nat.pow 10 place
  let near := roundDiv m.decimalUnits (Nat.pow 10 place)
  let far := 2 * low + 1 - near
  if m.readsBack near place then some near
  else if m.readsBack far place then some far
  else none

/-- The decimal on the coarsest grid, from the given one down, that reads back. -/
def shortestFrom (m : Magnitude) (place : Nat) : Decimal :=
  coarsest (fun place => (m.neighbour? place).map fun count => ⟨count, place - 1074⟩)
    ⟨m.decimalUnits, -1074⟩ place

/-- The shortest decimal that reads back; the search starts at a power of ten above the size,
since 30103 / 100000 exceeds the decimal logarithm of two. -/
def shortest (m : Magnitude) : Decimal :=
  m.shortestFrom (m.decimalUnits.log2 * 30103 / 100000 + 2)

end Magnitude

end Reckoner
