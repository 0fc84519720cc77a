/-!
# Numbers in the metrics exposition format

The exposition format carries every sample as a double-precision number and prints the fewest digits
that read back as that number, with zeros up to the units. Counts below `2 ^ 53` are printed as they
are; larger ones are first rounded to the nearest number of 53 significant bits.
-/

namespace ParticleLedger.Text

/-- `n / 2 ^ q` to the nearest integer, a half to the even neighbour, times `2 ^ q`. -/
def roundBits (q n : Nat) : Nat :=
  let unit := 1 <<< q
  let m := n / unit
  let r := n % unit
  (if 2 * r < unit ∨ (2 * r = unit ∧ m % 2 = 0) then m else m + 1) * unit

/-- The double nearest to a count. -/
def nearestDouble (n : Nat) : Nat :=
  roundBits (n.log2 - 52) n

/-- The multiple of `unit` nearest to `d`, if it reads back as the double `d`. -/
def shorten? (d unit : Nat) : Option Nat :=
  let below := d / unit * unit
  let near := if 2 * (d - below) ≤ unit then below else below + unit
  if nearestDouble near = d then some near else none

/-- The digits of a count: those of the double nearest to it, as few as read back. -/
def sample (n : Nat) : String :=
  let d := nearestDouble n
  let digits := (toString d).length
  -- The coarsest unit comes first, so the fewest digits win.
  toString (((List.range digits).reverse.findSome? fun k => shorten? d (Nat.pow 10 k)).getD d)

/-- The text of a signed count. -/
def signedSample : Int → String
  | .ofNat n => sample n
  | .negSucc n => "-" ++ sample (n + 1)

end ParticleLedger.Text
