import ParticleLedger.Bytes
import ParticleLedger.Ed25519.Field

/-!
# Ed25519 — the twisted Edwards curve `-x² + y² = 1 + d x² y²`

Points are kept in extended homogeneous coordinates (RFC 8032, section 5.1.4), for which one
addition formula serves all pairs of points. A point is written as its `y` coordinate in thirty-two
bytes, least significant first, with the lowest bit of `x` in the top bit.
-/

namespace ParticleLedger.Ed25519

/-- The order of the base point. -/
def order : Nat := 1 <<< 252 + 27742317777372353535851937790883648493

/-- The curve's constant `d`. -/
def curveD : Nat := 0x52036cee2b6ffe738cc740797779e89800700a4d4141d8ab75eb4dca135978a3

/-- A point with affine coordinates `x / z` and `y / z`, and `t = x * y / z`. -/
structure Point where
  x : Nat
  y : Nat
  z : Nat
  t : Nat

namespace Point

/-- The neutral element. -/
def zero : Point := ⟨0, 1, 1, 0⟩

/-- The point with these affine coordinates. -/
def ofAffine (x y : Nat) : Point :=
  ⟨x, y, 1, Field.mul x y⟩

/-- The base point, whose `y` is four fifths. -/
def base : Point :=
  ofAffine 0x216936d3cd6e53fec0a4e231fdd6dc5c692cc7609525a7b2c9562d608f25d51a
    0x6666666666666666666666666666666666666666666666666666666666666658

def neg (p : Point) : Point :=
  ⟨Field.neg p.x, p.y, p.z, Field.neg p.t⟩

def add (p q : Point) : Point :=
  let a := Field.mul (Field.sub p.y p.x) (Field.sub q.y q.x)
  let b := Field.mul (Field.add p.y p.x) (Field.add q.y q.x)
  let c := Field.mul (Field.mul p.t (Field.add curveD curveD)) q.t
  let d := Field.mul (Field.add p.z p.z) q.z
  -- The formula is complete: it needs no case for equal, opposite or neutral points.
  let e := Field.sub b a
  let f := Field.sub d c
  let g := Field.add d c
  let h := Field.add b a
  ⟨Field.mul e f, Field.mul g h, Field.mul f g, Field.mul e h⟩

/-- The multiple of a point by a number below `2 ^ 256`, by doubling and adding. -/
def scale (n : Nat) (p : Point) : Point :=
  (Field.bits 256 n).foldl (fun q bit => if bit then (q.add q).add p else q.add q) zero

/-- The written form. -/
def compress (p : Point) : Bytes :=
  let zInv := Field.inv p.z
  let x := Field.mul p.x zInv
  let y := Field.mul p.y zInv
  Bytes.littleEndian 32 (y + (x % 2) <<< 255)

/-- Reads a written form. A `y` that is not reduced is reduced, and `x = 0` may carry either sign;
what is refused is a `y` that no point of the curve has. -/
def decompress? (bs : Bytes) : Option Point :=
  let n := Bytes.ofLittleEndian bs
  let y := n % (1 <<< 255) % prime
  let odd := n.testBit 255
  let y2 := Field.square y
  (Field.sqrtRatio? (Field.sub y2 1) (Field.add (Field.mul curveD y2) 1)).map fun x =>
    ofAffine (if odd then Field.neg x else x) y

end Point

end ParticleLedger.Ed25519
