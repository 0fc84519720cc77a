/-!
# Ed25519 — the field of `2 ^ 255 - 19` elements

Field elements are natural numbers below the prime. The module gives the operations the curve needs,
among them the square root of a quotient that decompressing a point asks for.
-/

namespace ParticleLedger.Ed25519

/-- The field prime. -/
def prime : Nat := 1 <<< 255 - 19

namespace Field

def add (x y : Nat) : Nat := (x + y) % prime

def neg (x : Nat) : Nat := (prime - x % prime) % prime

def sub (x y : Nat) : Nat := (x + neg y) % prime

def mul (x y : Nat) : Nat := x * y % prime

def square (x : Nat) : Nat := mul x x

/-- The bits of a number below `2 ^ width`, most significant first. -/
def bits (width n : Nat) : List Bool :=
  (List.range width).reverse.map n.testBit

/-- Powers by repeated squaring, for exponents below `2 ^ 255`. -/
def pow (x exponent : Nat) : Nat :=
  (bits 255 exponent).foldl (fun r bit => if bit then mul (square r) x else square r) 1

/-- The inverse, by Fermat's little theorem; zero for zero. -/
def inv (x : Nat) : Nat :=
  pow x (prime - 2)

/-- A square root of minus one. -/
def sqrtMinusOne : Nat :=
  0x2b8324804fc1df0b2b4d00993dfbd7a72f431806ad2fe478c4ee1b274a0ea0b0

/-- The even square root of `u / v`, if the quotient is a square.

The prime is five modulo eight, so `u * v ^ 3 * (u * v ^ 7) ^ ((p - 5) / 8)` is a root of `u / v` or
of `- u / v`, and a root of minus one turns the second case into the first. -/
def sqrtRatio? (u v : Nat) : Option Nat :=
  let v3 := mul (square v) v
  let v7 := mul (square v3) v
  let r := mul (mul u v3) (pow (mul u v7) ((prime - 5) / 8))
  let check := mul v (square r)
  -- `r` is a root of the quotient, or of its negative, or there is none.
  let root? :=
    if check = u % prime then some r
    else if check = neg u then some (mul r sqrtMinusOne)
    else none
  root?.map fun x => if x % 2 = 1 then neg x else x

end Field

end ParticleLedger.Ed25519
