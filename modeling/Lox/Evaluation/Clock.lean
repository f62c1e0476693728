/-!
The clock. All that a run can tell of it is what it shows each time it is read.
-/

namespace Lox

structure Clock where
  /-- What the clock shows each time it is read, in seconds. -/
  times : Nat → Float
  /-- How often it has been read. -/
  readings : Nat
deriving Inhabited

namespace Clock

/-- A clock that stands still. -/
def stopped (now : Float) : Clock :=
  ⟨fun _ => now, 0⟩

/-- What the clock shows. -/
def time (c : Clock) : Float :=
  c.times c.readings

/-- The clock after it has been read. -/
def next (c : Clock) : Clock :=
  { c with readings := c.readings + 1 }

/-- A time is also the clock that always shows it. -/
instance : Coe Float Clock := ⟨stopped⟩

instance (n : Nat) : OfNat Clock n := ⟨stopped (Float.ofNat n)⟩

end Clock

end Lox
