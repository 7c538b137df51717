import HttpEngine.Serving.Handshake.Take

/-!
# Groups for keys

Both sides make a key in one group, each from its own secret and the share of the other.

* `Group.ofNumber?`: the groups that a server knows.
* `Group.isShare`: whether bytes are a share in a group, **a point that is no trap**.
-/

namespace HttpEngine.Handshake

/-- The curve `y² = x³ − 3x + b` over a prime field. -/
structure Curve where
  prime : Nat
  b : Nat
  /-- The bytes of a coordinate. -/
  width : Nat
  deriving Repr

namespace Curve

/-- The curve of 256 bits. -/
def small : Curve where
  prime := 0xffffffff00000001000000000000000000000000ffffffffffffffffffffffff
  b := 0x5ac635d8aa3a93e7b3ebbd55769886bc651d06b0cc53b0f63bce3c3e27d2604b
  width := 32

/-- The curve of 384 bits. -/
def large : Curve where
  prime :=
    0xfffffffffffffffffffffffffffffffffffffffffffffffffffffffffffffffeffffffff0000000000000000ffffffff
  b :=
    0xb3312fa7e23ee7e4988e056be3f82d19181d9c6efe8141120314088f5013875ac656398d8a2ed19d2a85c8edd3ec2aef
  width := 48

/-- Whether a point lies on the curve. -/
def contains (c : Curve) (x y : Nat) : Bool :=
  x < c.prime && y < c.prime && (y * y + 3 * x) % c.prime == (x * x * x + c.b) % c.prime

/-- The mark of a point that is written with both coordinates. -/
def bothCoordinates : UInt8 := 4

/-- Whether bytes are **a point with both coordinates**. -/
def isPoint (c : Curve) : Bytes → Bool
  | [] => false
  | mark :: rest =>
    mark == bothCoordinates && rest.length == 2 * c.width
      && c.contains (Take.valueOf (rest.take c.width)) (Take.valueOf (rest.drop c.width))

end Curve

/-- A group that a server knows. -/
inductive Group
  /-- The curve over the prime `2²⁵⁵ − 19`, on which a point has one coordinate. -/
  | single
  | points (c : Curve)
  deriving Repr

namespace Group

/-- The groups by their numbers. -/
def known : List (Nat × Group) :=
  [(0x1d, single), (0x17, points .small), (0x18, points .large)]

/-- The group of a number, **if a server knows it**. -/
def ofNumber? (n : Nat) : Option Group := known.lookup n

/-- The prime `2²⁵⁵ − 19`. -/
def prime : Nat := (1 <<< 255) - 19

/-- The coordinates of points that lead to **the same key with every secret**. -/
def traps : List Nat :=
  [0, 1, prime - 1,
    325606250916557431795983626356110631294008115727848805560023387167927233504,
    39382357235489614581723060781553021112529911719440698176882885853963445705823]

/-- The bytes of a single coordinate. -/
def singleWidth : Nat := 32

/-- Whether bytes are a share in a group. The highest bit of a single coordinate says nothing. -/
def isShare (b : Bytes) : Group → Bool
  | single =>
    b.length == singleWidth && !traps.contains (Take.valueOf b.reverse % (1 <<< 255) % prime)
  | points c => c.isPoint b

end Group

end HttpEngine.Handshake
