import NamedContent.Signing.Sha512

/-! # Ed25519 signatures

The curve is -x² + y² = 1 + d·x²·y² over the field of 2²⁵⁵ - 19 elements. Points are kept in
extended coordinates. Verification reads the key's y-coordinate modulo the field's order, insists
on a reduced scalar, and compares the recomputed point with the first half of the signature byte
by byte.

* `Ed25519.Point`: the group, with `Point.add` and `Point.mul`
* `Ed25519.Point.encode`, `Ed25519.Point.decode?`: points as 32 bytes
* `Ed25519.publicKey`, `Ed25519.sign`, `Ed25519.verify?`
-/

namespace NamedContent.Ed25519

/-- The order of the field. -/
def fieldOrder : Nat := Nat.pow 2 255 - 19

/-- The order of the base point. -/
def groupOrder : Nat := Nat.pow 2 252 + 27742317777372353535851937790883648493

/-- The coefficient d of the curve. -/
def curveD : Nat := 0x52036cee2b6ffe738cc740797779e89800700a4d4141d8ab75eb4dca135978a3

/-- A square root of -1. -/
def rootMinusOne : Nat := 0x2b8324804fc1df0b2b4d00993dfbd7a72f431806ad2fe478c4ee1b274a0ea0b0

/-! ## The field -/

/-- Difference in the field. -/
def sub (a b : Nat) : Nat := (a + (fieldOrder - b % fieldOrder)) % fieldOrder

/-- Product in the field. -/
def mul (a b : Nat) : Nat := a * b % fieldOrder

/-- Power in the field, by the binary digits of the exponent. -/
def pow (a n : Nat) : Nat :=
  if n = 0 then 1
  else
    let half := pow (mul a a) (n / 2)
    if n % 2 = 1 then mul a half else half
termination_by n
decreasing_by omega

/-- The inverse in the field, zero for zero. -/
def inv (a : Nat) : Nat := pow a (fieldOrder - 2)

/-! ## The group -/

/-- A point with x = X/Z, y = Y/Z and x·y = T/Z. -/
structure Point where
  (x y z t : Nat)

namespace Point

/-- The neutral element. -/
def zero : Point := ⟨0, 1, 1, 0⟩

/-- The base point. -/
def base : Point :=
  let x := 0x216936d3cd6e53fec0a4e231fdd6dc5c692cc7609525a7b2c9562d608f25d51a
  let y := 0x6666666666666666666666666666666666666666666666666666666666666658
  ⟨x, y, 1, mul x y⟩

/-- The sum, by the complete addition formula. -/
def add (p q : Point) : Point :=
  let a := mul (sub p.y p.x) (sub q.y q.x)
  let b := mul (p.y + p.x) (q.y + q.x)
  let c := mul (mul p.t (2 * curveD)) q.t
  let d := mul p.z (2 * q.z)
  let e := sub b a
  let f := sub d c
  let g := d + c
  let h := b + a
  ⟨mul e f, mul g h, mul f g, mul e h⟩

/-- The inverse. -/
def neg (p : Point) : Point := ⟨sub 0 p.x, p.y, p.z, sub 0 p.t⟩

/-- The multiple by a number, by its binary digits. -/
def mul (n : Nat) (p : Point) : Point :=
  if n = 0 then zero
  else
    let half := mul (n / 2) (p.add p)
    if n % 2 = 1 then half.add p else half
termination_by n
decreasing_by omega

/-- The 32 bytes of a point: y in little-endian order, the parity of x in the top bit. -/
def encode (p : Point) : Bytes :=
  let zi := inv p.z
  let x := Ed25519.mul p.x zi
  let y := Ed25519.mul p.y zi
  Bytes.littleEndian 32 (y + Nat.pow 2 255 * (x % 2))

/-- The point with the encoding, if there is one. The y-coordinate is taken modulo the order of
the field, and the top bit chooses the parity of x where x is not zero. -/
def decode? (bytes : Bytes) : Option Point :=
  let n := Bytes.ofLittleEndian bytes
  let y := n % Nat.pow 2 255 % fieldOrder
  let y2 := Ed25519.mul y y
  let u := sub y2 1
  let v := (Ed25519.mul curveD y2 + 1) % fieldOrder
  let v3 := Ed25519.mul (Ed25519.mul v v) v
  let v7 := Ed25519.mul (Ed25519.mul v3 v3) v
  let r := Ed25519.mul (Ed25519.mul u v3) (pow (Ed25519.mul u v7) ((fieldOrder - 5) / 8))
  let check := Ed25519.mul v (Ed25519.mul r r)
  let root? :=
    if check = u then some r
    else if check = sub 0 u then some (Ed25519.mul r rootMinusOne)
    else none
  root?.map fun x =>
    let x := if x % 2 = n / Nat.pow 2 255 % 2 then x else sub 0 x
    ⟨x, y, 1, Ed25519.mul x y⟩

end Point

/-! ## Keys and signatures -/

/-- The 256-bit scalar of a secret: the first half of its hash with the low three bits and the top
bit cleared and the bit below the top set. -/
def secretScalar (secret : Bytes) : Nat :=
  let n := Bytes.ofLittleEndian ((Sha512.digest secret).take 32)
  n % Nat.pow 2 254 / 8 * 8 + Nat.pow 2 254

/-- The public key of a secret. -/
def publicKey (secret : Bytes) : Bytes := (Point.base.mul (secretScalar secret)).encode

/-- The hash of the parts as a scalar. -/
def hashScalar (parts : Bytes) : Nat :=
  Bytes.ofLittleEndian (Sha512.digest parts) % groupOrder

/-- The 64-byte signature of a message under a secret. -/
def sign (secret message : Bytes) : Bytes :=
  let a := secretScalar secret
  let key := publicKey secret
  let r := hashScalar ((Sha512.digest secret).drop 32 ++ message)
  let rBytes := (Point.base.mul r).encode
  let k := hashScalar (rBytes ++ key ++ message)
  rBytes ++ Bytes.littleEndian 32 ((r + k * a) % groupOrder)

/-- Whether a signature is that of the message under the key; nothing if the key is no point. -/
def verify? (key message signature : Bytes) : Option Bool := do
  let point ← Point.decode? key
  let rBytes := signature.take 32
  let s := Bytes.ofLittleEndian (signature.drop 32)
  if groupOrder ≤ s then return false
  let k := hashScalar (rBytes ++ key ++ message)
  let expected := (Point.base.mul s).add (point.neg.mul k)
  return expected.encode == rBytes

/-- A signature has 64 bytes. -/
@[simp] theorem length_sign (secret message : Bytes) : (sign secret message).length = 64 := by
  simp [sign, Point.encode]

/-- A key has 32 bytes. -/
@[simp] theorem length_publicKey (secret : Bytes) : (publicKey secret).length = 32 := by
  simp [publicKey, Point.encode]

end NamedContent.Ed25519
