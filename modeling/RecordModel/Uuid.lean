/-
**Unique identifiers.**

An identifier is a number of 128 bits.  Its text is the 32 hexadecimal digits of the number in five
groups; it is read from that form, from the digits alone, and from the grouped form in braces or
after the name of its scheme.

Main definitions:

* `Uuid` — the identifiers;
* `Uuid.text`, `Uuid.parse` — writing and reading;
* `Uuid.ofRandomBytes` — an identifier of random bits, marked as such.
-/

import RecordModel.Text.Digits

set_option relaxedAutoImplicit false
set_option autoImplicit false

namespace RecordModel

/-- An identifier, as its bits. -/
structure Uuid where
  bits : BitVec 128
deriving DecidableEq

namespace Uuid

/-- The 32 hexadecimal digits. -/
def digits (u : Uuid) : List Char :=
  let ds := Nat.toDigits 16 u.bits.toNat
  List.replicate (32 - ds.length) '0' ++ ds

/-- Groups of eight, four, four, four and twelve digits, with dashes between them. -/
def grouped (ds : List Char) : List Char :=
  ds.take 8 ++ '-' :: (ds.drop 8).take 4 ++ '-' :: (ds.drop 12).take 4 ++
    '-' :: (ds.drop 16).take 4 ++ '-' :: ds.drop 20

/-- The digits in groups. -/
def text (u : Uuid) : List Char := grouped u.digits

/-- The value of a hexadecimal digit of either case. -/
def digitValue? (c : Char) : Option Nat :=
  if c.isDigit then some (c.toNat - '0'.toNat)
  else if 'a' ≤ c ∧ c ≤ 'f' then some (c.toNat - 'a'.toNat + 10)
  else if 'A' ≤ c ∧ c ≤ 'F' then some (c.toNat - 'A'.toNat + 10)
  else none

/-- The number that hexadecimal digits write. -/
def value? (ds : List Char) : Option Nat :=
  ds.foldlM (fun n c => (digitValue? c).map (16 * n + ·)) 0

/-- The identifier of 32 digits. -/
def ofDigits? (ds : List Char) : Option Uuid :=
  if ds.length = 32 then (value? ds).map fun n => ⟨BitVec.ofNat 128 n⟩ else none

/-- The identifier of digits in groups. -/
def ofGrouped? (cs : List Char) : Option Uuid :=
  let ds := cs.filter (· ≠ '-')
  if grouped ds = cs then ofDigits? ds else none

/-- The name of the scheme, in front of an identifier. -/
def scheme : List Char := "urn:uuid:".toList

/-- The identifier that a text holds. -/
def parse (cs : List Char) : Option Uuid :=
  if cs.length = 32 then ofDigits? cs
  else if cs.length = 36 then ofGrouped? cs
  else if cs.length = 38 ∧ cs.head? = some '\x7b' ∧ cs.getLast? = some '\x7d' then
    ofGrouped? (cs.drop 1).dropLast
  else if cs.length = 45 ∧ (cs.take 9).map Char.toLower = scheme then ofGrouped? (cs.drop 9)
  else none

/-- The identifier of sixteen random bytes: six bits are replaced by the marks of a random
identifier. -/
def ofRandomBytes (bytes : List UInt8) : Uuid :=
  let marked := bytes.mapIdx fun i b =>
    if i = 6 then b &&& 0x0f ||| 0x40 else if i = 8 then b &&& 0x3f ||| 0x80 else b
  ⟨BitVec.ofNat 128 (marked.foldl (fun n b => 256 * n + b.toNat) 0)⟩

example : (parse "URN:UUID:67e55044-10B1-426f-9247-bb680e5fe0c8".toList).map Uuid.text
    = some "67e55044-10b1-426f-9247-bb680e5fe0c8".toList := by decide +kernel
example : parse "67e5504410b1-426f-9247-bb680e5fe0c8".toList = none := by decide +kernel

end Uuid

end RecordModel
