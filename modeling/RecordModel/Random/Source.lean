/-
**Sources of random words.**

A source gives words of 32 and of 64 bits and stretches of bytes, and is a new source afterwards.
Everything that is generated depends on the source alone, so that a source with the same seed gives
the same values again.

Main definitions:

* `RandomSource` — the sources;
* `RandomSource.littleEndian` — the bytes of a word;
* `SplitMix` — a counter whose values are mixed, with given words before them;
* `RandomSource` of a sum — a source of one of two kinds.

Main results:

* `RandomSource.length_bytesFromWords` — a stretch made of words has as many bytes as were asked
  for.
-/

set_option relaxedAutoImplicit false
set_option autoImplicit false

namespace RecordModel

/-- A source of random words. -/
class RandomSource (σ : Type) where
  word32 : σ → UInt32 × σ
  word64 : σ → UInt64 × σ
  bytes : Nat → σ → List UInt8 × σ
  /-- A stretch has as many bytes as were asked for. -/
  length_bytes : ∀ n s, (bytes n s).1.length = n

namespace RandomSource

/-- The lowest `n` bytes of a number, the least significant one first. -/
def littleEndian : Nat → Nat → List UInt8
  | 0, _ => []
  | n + 1, x => UInt8.ofNat (x % 256) :: littleEndian n (x / 256)

@[simp] theorem length_littleEndian (n x : Nat) : (littleEndian n x).length = n := by
  induction n generalizing x with
  | zero => rfl
  | succ n ih => simp [littleEndian, ih]

/-- Bytes from words of `size` bytes: as many words as are started, and the bytes beyond the number
asked for are dropped. -/
def bytesFromWords {σ : Type} (size : Nat) (word : σ → Nat × σ) (n : Nat) (s : σ) :
    List UInt8 × σ :=
  let words := (n + size - 1) / size
  let (bytes, s) := (List.range words).foldl
    (fun (acc : List (List UInt8) × σ) _ =>
      let (w, s) := word acc.2
      (littleEndian size w :: acc.1, s))
    ([], s)
  (bytes.reverse.flatten.take n, s)

/-- So many words of `size` bytes are that many times `size` bytes. -/
theorem length_foldl_littleEndian {σ : Type} (size : Nat) (word : σ → Nat × σ) (words : List Nat)
    (acc : List (List UInt8)) (s : σ) :
    (words.foldl
      (fun (acc : List (List UInt8) × σ) _ =>
        let (w, s) := word acc.2
        (littleEndian size w :: acc.1, s))
      (acc, s)).1.reverse.flatten.length = acc.reverse.flatten.length + words.length * size := by
  induction words generalizing acc s with
  | nil => simp
  | cons w rest ih =>
      rw [List.foldl_cons, ih]
      simp only [List.reverse_cons, List.flatten_append, List.flatten_singleton,
        List.length_append, length_littleEndian, List.length_cons]
      rw [Nat.succ_mul]
      omega

/-- A stretch made of words has as many bytes as were asked for. -/
theorem length_bytesFromWords {σ : Type} {size : Nat} (hs : 0 < size) (word : σ → Nat × σ)
    (n : Nat) (s : σ) : (bytesFromWords size word n s).1.length = n := by
  have h : n ≤ (n + size - 1) / size * size := by
    have hm := Nat.div_add_mod (n + size - 1) size
    have hlt := Nat.mod_lt (n + size - 1) hs
    have hc := Nat.mul_comm ((n + size - 1) / size) size
    omega
  rw [bytesFromWords]
  simp only [List.length_take, length_foldl_littleEndian, List.length_range, List.reverse_nil,
    List.flatten_nil, List.length_nil, Nat.zero_add]
  exact Nat.min_eq_left h

instance {α β : Type} [RandomSource α] [RandomSource β] : RandomSource (α ⊕ β) where
  word32
    | .inl s => (word32 s).map id .inl
    | .inr s => (word32 s).map id .inr
  word64
    | .inl s => (word64 s).map id .inl
    | .inr s => (word64 s).map id .inr
  bytes n
    | .inl s => (bytes n s).map id .inl
    | .inr s => (bytes n s).map id .inr
  length_bytes
    | n, .inl s => length_bytes n s
    | n, .inr s => length_bytes n s

end RandomSource

/-! ### Mixed counters -/

/-- A counter whose values are mixed into words; words that are given come first. -/
structure SplitMix where
  words : List UInt64
  counter : UInt64

namespace SplitMix

/-- The step of the counter. -/
def step : UInt64 := 0x9e3779b97f4a7c15

/-- The word of a value of the counter. -/
def mix (z : UInt64) : UInt64 :=
  let z := (z ^^^ (z >>> 30)) * 0xbf58476d1ce4e5b9
  let z := (z ^^^ (z >>> 27)) * 0x94d049bb133111eb
  z ^^^ (z >>> 31)

/-- The next word of 64 bits. -/
def next (s : SplitMix) : UInt64 × SplitMix :=
  match s.words with
  | w :: rest => (w, { s with words := rest })
  | [] =>
      let counter := s.counter + step
      (mix counter, { s with counter })

/-- A word of 32 bits is the lower half of the next word. -/
instance : RandomSource SplitMix where
  word32 s := s.next.map UInt64.toUInt32 id
  word64 s := s.next
  bytes := RandomSource.bytesFromWords 8 fun s => s.next.map UInt64.toNat id
  length_bytes := RandomSource.length_bytesFromWords (by decide) _

end SplitMix

end RecordModel
