/-!
Doubles read through their bits: their order on the line, the exact magnitude they stand for, the
nearest double of an integer, and the remainder of a division cut off toward zero.
-/

namespace EntityStore.Binary64

/-- The bits below the sign. -/
def magnitudeBits (x : Float) : Nat := x.toBits.toNat % 1 <<< 63

/-- Whether the sign bit is set, as it is for the negative zero. -/
def signed (x : Float) : Bool := 1 <<< 63 ≤ x.toBits.toNat

/-- The bits of infinity; those of a NaN lie above. -/
def infinityBits : Nat := 0x7FF0000000000000

/-- Place on the line of doubles: the two zeros share one, a NaN has none. -/
def place? (x : Float) : Option Int :=
  if infinityBits < magnitudeBits x then none
  else some (if signed x then -(magnitudeBits x : Int) else magnitudeBits x)

/-- Order on the line; nothing compares with a NaN. -/
def compare? (x y : Float) : Option Ordering := do
  some (compare (← place? x) (← place? y))

/-- Equal as numbers: the zeros are, a NaN is not even to itself. -/
def same (x y : Float) : Bool := compare? x y == some .eq

/-- A finite magnitude `m * 2 ^ q`. -/
structure Magnitude where
  m : Nat
  q : Int
  /-- The gap to the value below is half the gap to the value above. -/
  narrow : Bool

def magnitude (x : Float) : Magnitude :=
  let b := magnitudeBits x
  let e : Nat := b >>> 52
  let f : Nat := b % 1 <<< 52
  if e = 0 then ⟨f, -1074, false⟩ else ⟨1 <<< 52 + f, (e : Int) - 1075, f == 0 && e > 1⟩

/-- The double `± m * 2 ^ q` for `m` below `2 ^ 53` and `q` at least `-1074`. -/
def ofScaled (negative : Bool) (m : Nat) (q : Int) : Float :=
  let k := min (52 - m.log2) (q + 1074).toNat
  let m := m <<< k
  let e := q - k + 1075
  let b := if m < 1 <<< 52 then m else e.toNat <<< 52 + (m - 1 <<< 52)
  Float.ofBits (UInt64.ofNat (if negative then 1 <<< 63 + b else b))

/-- The magnitude bits of the double nearest to a natural number. Of two equally near the one with
an even last bit is taken; a carry out of the fraction runs on into the exponent. -/
def nearestBits (n : Nat) : Nat :=
  if n = 0 then 0
  else if n < 1 <<< 53 then (n.log2 + 1022) <<< 52 + n <<< (52 - n.log2)
  else
    let k := n.log2 - 52
    let m := n >>> k
    let r := n % 1 <<< k
    let up := 1 <<< k < 2 * r || 2 * r == 1 <<< k && m % 2 == 1
    (n.log2 + 1022) <<< 52 + (if up then m + 1 else m)

/-- Place of the double nearest to an integer. -/
def placeOfInt (i : Int) : Int :=
  if i < 0 then -(nearestBits i.natAbs : Int) else nearestBits i.natAbs

def ofInt (i : Int) : Float :=
  let b := nearestBits i.natAbs
  Float.ofBits (UInt64.ofNat (if i < 0 then 1 <<< 63 + b else b))

/-- What is left of `x` after taking away a whole multiple of `y`, exactly and with the sign
of `x`. -/
def remainder (x y : Float) : Float :=
  if x.isNaN || y.isNaN || x.isInf || magnitudeBits y = 0 then 0.0 / 0.0
  else if y.isInf then x
  else
    let a := magnitude x
    let b := magnitude y
    let q := min a.q b.q
    let r := a.m <<< (a.q - q).toNat % b.m <<< (b.q - q).toNat
    ofScaled (signed x) r q

end EntityStore.Binary64
