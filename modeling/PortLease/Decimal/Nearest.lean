namespace PortLease.Decimal

structure Binary where
  mantissa : Nat
  exponent : Int
  deriving DecidableEq, Repr

def roundDiv (n d : Nat) : Nat :=
  let q := n / d
  if 2 * (n % d) < d then q
  else if 2 * (n % d) = d then q + q % 2
  else q + 1

def scaled (n d : Nat) (e : Int) : Nat × Nat :=
  (n * Nat.pow 2 (-e).toNat, d * Nat.pow 2 e.toNat)

def exponentOf (n d : Nat) : Int :=
  let guess : Int := (n.log2 : Int) - d.log2 - 52
  let (a, b) := scaled n d guess
  max (if a < Nat.pow 2 52 * b then guess - 1 else guess) (-1074)

def nearestTo? (n d : Nat) : Option Binary :=
  let e := exponentOf n d
  let (a, b) := scaled n d e
  let m := roundDiv a b
  let (m, e) := if m = Nat.pow 2 53 then (Nat.pow 2 52, e + 1) else (m, e)
  if 971 < e then none else some ⟨m, e⟩

def nearest? (digits : Nat) (exponent : Int) : Option Binary :=
  let size : Int := (Nat.toDigits 10 digits).length + exponent
  if digits = 0 ∨ size < -400 then some ⟨0, 0⟩
  else if 400 < size then none
  else nearestTo? (digits * Nat.pow 10 exponent.toNat) (Nat.pow 10 (-exponent).toNat)

end PortLease.Decimal
