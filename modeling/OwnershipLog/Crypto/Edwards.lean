import OwnershipLog.Bytes

/-!
# The curve of the signatures

Points of the twisted Edwards curve `-x² + y² = 1 + d x² y²` over the integers
modulo `2²⁵⁵ - 19`, in extended coordinates `(X : Y : Z : T)` with `x = X / Z`,
`y = Y / Z` and `x y = T / Z`. A point is written as the 32 bytes of `y`, least
significant first, with the parity of `x` in the top bit.
-/

namespace OwnershipLog.Edwards

/-- The prime of the coordinate field. -/
def prime : Nat := 2 ^ 255 - 19

/-- The prime order of the subgroup that the base point generates. -/
def order : Nat := 2 ^ 252 + 27742317777372353535851937790883648493

/-- The power `a ^ n` in the coordinate field. -/
def power (a n : Nat) : Nat :=
  if n = 0 then 1
  else
    let root := power a (n / 2)
    let square := root * root % prime
    if n % 2 = 1 then square * a % prime else square
termination_by n
decreasing_by omega

/-- The inverse of a nonzero element. -/
def inverse (a : Nat) : Nat := power a (prime - 2)

/-- The difference of two elements. -/
def sub (a b : Nat) : Nat := (a + (prime - b % prime)) % prime

/-- The coefficient `d` of the curve. -/
def coefficient : Nat := sub 0 121665 * inverse 121666 % prime

/-- A square root of minus one. -/
def rootOfMinusOne : Nat := power 2 ((prime - 1) / 4)

/-- A point in extended coordinates. -/
structure Point where
  x : Nat
  y : Nat
  z : Nat
  t : Nat

namespace Point

/-- The neutral point. -/
def neutral : Point := ⟨0, 1, 1, 0⟩

/-- The sum of two points. The formula has no exceptions on this curve. -/
def add (p q : Point) : Point :=
  let a := sub p.y p.x * sub q.y q.x % prime
  let b := (p.y + p.x) * (q.y + q.x) % prime
  let c := p.t * 2 * coefficient % prime * q.t % prime
  let d := p.z * 2 * q.z % prime
  let e := sub b a
  let f := sub d c
  let g := d + c
  let h := b + a
  ⟨e * f % prime, g * h % prime, f * g % prime, e * h % prime⟩

/-- The opposite point. -/
def neg (p : Point) : Point := ⟨sub 0 p.x, p.y, p.z, sub 0 p.t⟩

/-- The sum of `n` copies of a point, by doubling and adding. -/
def multiple (n : Nat) (p : Point) : Point :=
  if n = 0 then neutral
  else
    let half := multiple (n / 2) p
    let double := half.add half
    if n % 2 = 1 then double.add p else double
termination_by n
decreasing_by omega

/-- Whether the point is neutral. -/
def isNeutral (p : Point) : Bool := p.x % prime == 0 && p.y % prime == p.z % prime

/-- Whether eight copies of the point cancel. -/
def isSmallOrder (p : Point) : Bool := (p.multiple 8).isNeutral

/-- The 32 bytes of a point. -/
def encode (p : Point) : Octets 32 :=
  let scale := inverse p.z
  let x := p.x * scale % prime
  let y := p.y * scale % prime
  ⟨littleEndian 32 (y + x % 2 * 2 ^ 255), by simp [littleEndian]⟩

/-- The point whose `y` is given, with the parity of its `x`; none if no point has that `y`. -/
def ofY? (y parity : Nat) : Option Point :=
  let square := y * y % prime
  let u := sub square 1
  let v := (coefficient * square + 1) % prime
  let v3 := v * v % prime * v % prime
  let v7 := v3 * v3 % prime * v % prime
  let root := u * v3 % prime * power (u * v7 % prime) ((prime - 5) / 8) % prime
  let check := v * root % prime * root % prime
  let x? :=
    if check = u then some root
    else if check = sub 0 u then some (root * rootOfMinusOne % prime)
    else none
  x?.map fun x =>
    let x := if x % 2 = parity then x else sub 0 x
    ⟨x, y, 1, x * y % prime⟩

/-- The point that 32 bytes spell; none if they spell no point. -/
def decode? (bytes : Octets 32) : Option Point :=
  let n := ofLittleEndian bytes.toBytes
  ofY? (n % 2 ^ 255 % prime) (n / 2 ^ 255)

/-- The generator: `y = 4 / 5` and `x` even. -/
def base : Point := (ofY? (4 * inverse 5 % prime) 0).getD neutral

end Point

end OwnershipLog.Edwards
