import EntityStore.Binary64

/-!
The shortest decimal of a double: the fewest digits that read back to it, of those the nearest, and
an exact tie goes away from zero. It is written in full, never with an exponent.
-/

namespace EntityStore.Decimal

open Binary64

/-- The number `digits * 10 ^ exp`. -/
structure Dec where
  digits : Nat
  exp : Int

/-- Compare `a * 10 ^ i` with `n * 2 ^ j`. -/
def compareScaled (a : Nat) (i : Int) (n : Nat) (j : Int) : Ordering :=
  compare ((a * Nat.pow 10 i.toNat) <<< (-j).toNat) (n <<< j.toNat * Nat.pow 10 (-i).toNat)

/-- Whether the decimal lies among the reals that round to the magnitude: between the midpoints to
its two neighbours, which count when its own last bit is even. -/
def readsBack (x : Magnitude) (d : Dec) : Bool :=
  let low := compareScaled d.digits d.exp (if x.narrow then 4 * x.m - 1 else 4 * x.m - 2) (x.q - 2)
  let high := compareScaled d.digits d.exp (4 * x.m + 2) (x.q - 2)
  let even := x.m % 2 == 0
  (low == .gt || even && low == .eq) && (high == .lt || even && high == .eq)

/-- The least `k` with the magnitude below `10 ^ k`. -/
def scale (x : Magnitude) : Int :=
  let guess := (x.m.log2 + x.q) * 30103 / 100000
  ((List.range 4).map fun (i : Nat) => guess - 1 + i).find?
    (fun k => compareScaled 1 k x.m x.q == .gt) |>.getD (guess + 3)

/-- The candidate on the grid of `10 ^ e`, if one of the two neighbours of the magnitude reads
back. -/
def onGrid? (x : Magnitude) (e : Int) : Option Dec :=
  let num := x.m <<< x.q.toNat * Nat.pow 10 (-e).toNat
  let den := Nat.pow 10 e.toNat <<< (-x.q).toNat
  let low : Dec := ⟨num / den, e⟩
  let high : Dec := ⟨num / den + 1, e⟩
  match readsBack x low, readsBack x high with
  | true, true => some (if 2 * num < (2 * low.digits + 1) * den then low else high)
  | true, false => some low
  | false, true => some high
  | false, false => none

/-- The shortest decimal of a magnitude that is not zero. Seventeen digits always suffice; the exact
value stands behind them. -/
def shortest (x : Magnitude) : Dec :=
  let k := scale x
  (List.range 17).findSome? (fun (n : Nat) => onGrid? x (k - 1 - n)) |>.getD
    (if 0 ≤ x.q then ⟨x.m <<< x.q.toNat, 0⟩ else ⟨x.m * Nat.pow 5 (-x.q).toNat, x.q⟩)

/-- Drop the zeros at the right end of a list of digits. -/
def dropZeros (s : List Char) : List Char := (s.reverse.dropWhile (· == '0')).reverse

/-- All digits of a decimal, with a point only before digits that are not all zero. -/
def layout (d : Dec) : List Char :=
  let s := Nat.toDigits 10 d.digits
  if 0 ≤ d.exp then s ++ List.replicate d.exp.toNat '0'
  else
    let places := (-d.exp).toNat
    let s := List.replicate (places + 1 - s.length) '0' ++ s
    let whole := s.take (s.length - places)
    let fraction := dropZeros (s.drop (s.length - places))
    if fraction.isEmpty then whole else whole ++ '.' :: fraction

def ofFloat (x : Float) : String :=
  if x.isNaN then "NaN"
  else
    let body :=
      if x.isInf then ['i', 'n', 'f']
      else if magnitudeBits x = 0 then ['0']
      else layout (shortest (magnitude x))
    String.ofList (if signed x then '-' :: body else body)

end EntityStore.Decimal
