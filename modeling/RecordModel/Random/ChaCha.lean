/-
**The ChaCha stream.**

The stream of words that twelve rounds of ChaCha make of a key and a counter of blocks.  A source
takes them one after the other; a word of 64 bits is two of them, the lower half first.

Main definitions:

* `ChaCha.quarter`, `ChaCha.doubleRound`, `ChaCha.block` — a block of sixteen words;
* `ChaCha.expandSeed` — a key of eight words from a seed of 64 bits;
* `ChaCha` — the source, `ChaCha.ofSeed` — the source of a seed.
-/

import RecordModel.Random.Source

set_option relaxedAutoImplicit false
set_option autoImplicit false

namespace RecordModel

/-- A place in the stream of a key: the number of the next block, and the words left of the last
one. -/
structure ChaCha where
  key : List UInt32
  counter : UInt64
  pending : List UInt32

namespace ChaCha

/-! ### Blocks -/

/-- A word turned to the left by `n` bits. -/
def rotate (x : UInt32) (n : UInt32) : UInt32 := (x <<< n) ||| (x >>> (32 - n))

/-- The quarter round on the words at four places. -/
def quarter (v : Vector UInt32 16) (a b c d : Fin 16) : Vector UInt32 16 :=
  let v := v.set a (v[a] + v[b])
  let v := v.set d (rotate (v[d] ^^^ v[a]) 16)
  let v := v.set c (v[c] + v[d])
  let v := v.set b (rotate (v[b] ^^^ v[c]) 12)
  let v := v.set a (v[a] + v[b])
  let v := v.set d (rotate (v[d] ^^^ v[a]) 8)
  let v := v.set c (v[c] + v[d])
  v.set b (rotate (v[b] ^^^ v[c]) 7)

/-- A round on the columns and a round on the diagonals. -/
def doubleRound (v : Vector UInt32 16) : Vector UInt32 16 :=
  let v := quarter (quarter (quarter (quarter v 0 4 8 12) 1 5 9 13) 2 6 10 14) 3 7 11 15
  quarter (quarter (quarter (quarter v 0 5 10 15) 1 6 11 12) 2 7 8 13) 3 4 9 14

/-- The words that a block starts from: constants, key, counter and a stream number of zero. -/
def start (key : List UInt32) (counter : UInt64) : Vector UInt32 16 :=
  let k (i : Nat) := key.getD i 0
  #v[0x61707865, 0x3320646e, 0x79622d32, 0x6b206574, k 0, k 1, k 2, k 3, k 4, k 5, k 6, k 7,
    counter.toUInt32, (counter >>> 32).toUInt32, 0, 0]

/-- A block: twelve rounds, and the starting words added. -/
def block (key : List UInt32) (counter : UInt64) : Vector UInt32 16 :=
  let first := start key counter
  let last := (List.range 6).foldl (fun v _ => doubleRound v) first
  Vector.zipWith (· + ·) last first

/-! ### The source -/

/-- The words of a key that a seed of 64 bits is spread to. -/
def expandSeed : Nat → UInt64 → List UInt32
  | 0, _ => []
  | n + 1, state =>
      let state := state * 6364136223846793005 + 11634580027462260723
      let x := (((state >>> 18) ^^^ state) >>> 27).toUInt32
      let turn := (state >>> 59).toUInt32
      let word := (x >>> turn) ||| (x <<< ((32 - turn) % 32))
      word :: expandSeed n state

/-- The source of a seed. -/
def ofSeed (seed : UInt64) : ChaCha := ⟨expandSeed 8 seed, 0, []⟩

/-- The next word of 32 bits. -/
def next (s : ChaCha) : UInt32 × ChaCha :=
  match s.pending with
  | w :: rest => (w, { s with pending := rest })
  | [] =>
      let words := (block s.key s.counter).toList
      (words.headD 0, { s with counter := s.counter + 1, pending := words.drop 1 })

/-- Two words make one of 64 bits, the lower half first. -/
instance : RandomSource ChaCha where
  word32 := next
  word64 s :=
    let (low, s) := s.next
    let (high, s) := s.next
    (high.toUInt64 <<< 32 ||| low.toUInt64, s)
  bytes := RandomSource.bytesFromWords 4 fun s => s.next.map UInt32.toNat id
  length_bytes := RandomSource.length_bytesFromWords (by decide) _

example : ((ofSeed 0).next.1, (ofSeed 0).next.2.next.1) = (0xcd2c6f7f, 0xbb2a3fb2) := by
  decide +kernel
example : (ofSeed 42).next.1 = 0x222724a2 := by decide +kernel

end ChaCha

end RecordModel
