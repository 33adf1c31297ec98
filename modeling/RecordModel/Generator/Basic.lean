/-
**Generating instances.**

A generator draws a value for every field of a record, by its type.  A record that refers to itself
is followed until it stands on the chain as often as it may; then a collection stays empty, an
optional value is absent, and a union takes another member.  Types may be nested to a limit, and the
limit left is the argument of the recursion.

Fields of the record that is asked for may be given a value, which is taken as it is.

Main definitions:

* `GeneratorState`, `GeneratorM` — what a generation changes: the registry and the source;
* `Generator.primitive`, `Generator.logical` — scalars;
* `Generator.valueF` — a value of any type, with a bound on the nesting;
* `Generator.instanceWith` — an instance of a record;
* `drawValue`, `drawInstance`, `drawInstances` — what is asked for from outside.

Main results:

* `Generator.valueF_zero` — without levels left there is a failure.
-/

import RecordModel.Generator.Generable
import RecordModel.Random.Sampling

set_option relaxedAutoImplicit false
set_option autoImplicit false

namespace RecordModel

/-- What a generation changes. -/
structure GeneratorState (σ : Type) where
  registry : Registry
  source : σ

/-- Computations that draw from a source of type `σ` and may add records to a registry; both stay
changed after a failure. -/
abbrev GeneratorM (σ : Type) := Stateful (GeneratorState σ) Failure

namespace Generator

variable {σ : Type} [RandomSource σ]

/-! ### Steps -/

/-- A draw from the source. -/
def draw {α : Type} (d : Draw σ α) : GeneratorM σ α :=
  ExceptT.mk fun s =>
    let (a, source) := d.run s.source
    (.ok a, { s with source })

/-- A computation on the registry. -/
def ask {α : Type} (m : RegistryM α) : GeneratorM σ α :=
  Stateful.onPart (·.registry) (fun registry s => { s with registry }) .error m

/-- Where in the records a value is generated. -/
structure Position where
  record : String
  field : Option String

/-- The failure at a position. -/
def fail {α : Type} (position : Position) (fault : GenerationFault) : GeneratorM σ α :=
  throw (.error (.generation position.record position.field fault))

/-- A whole number between two numbers, both included, of which the second must not be less. -/
def between (w : Draw.Width) (low high : Int) : GeneratorM σ Int :=
  if high < low then throw (.breakdown .emptyRange) else draw (.between w low high)

/-- A binary number between the opposite of `bound` and `bound`, which is left out; the range must
not be empty, and its width has to be finite. -/
def floatBelow {f : BinaryFormat} (w : Draw.Width) (bound : Binary f) : GeneratorM σ (Binary f) :=
  if bound.isNaN || bound.order ≤ 0 then throw (.breakdown .emptyRange)
  else if bound.isFinite && (Draw.span bound).isFinite then draw (.floatBelow w bound)
  else throw (.breakdown .wideRange)

/-- True with the probability `p`, which has to be one. -/
def chance (p : Binary64) : GeneratorM σ Bool :=
  if Settings.isProbability p then draw (.chance p) else throw (.breakdown .notProbability)

/-- So many results of a computation. -/
def repeatM {α : Type} (m : GeneratorM σ α) : Nat → GeneratorM σ (List α)
  | 0 => return []
  | n + 1 => do
      let a ← m
      return a :: (← repeatM m n)

/-! ### Scalars -/

/-- A number of items, characters or bytes. -/
def count (least most : Nat) : GeneratorM σ Nat := do
  return (← between .w64 least most).toNat

/-- The bound of numbers of 32 bits: at most half the greatest one, so that twice it is finite. -/
def singleBound (bound : Binary64) : Binary32 :=
  let half : Binary64 := .ofScaled false (pow2 24 - 1) 103
  if half.less bound then half.narrow else bound.narrow

/-- A value of a primitive type. -/
def primitive (s : Settings) : Primitive → GeneratorM σ Value
  | .boolean => .boolean <$> draw .coin
  | .int32 => do return .int32 (← draw .word32).toInt32
  | .int64 => do return .int64 (← draw .word64).toInt64
  | .float32 => .float32 <$> floatBelow .w32 (singleBound s.floatBound)
  | .float64 => .float64 <$> floatBelow .w64 s.floatBound
  | .bytes => do
      let n ← count s.minBytesLength s.maxBytesLength
      return .bytes (← draw (.bytes n))
  | .string => do
      let n ← count s.minStringLength s.maxStringLength
      return .string (← draw (.text n))
  | .null => return .null

/-- A date of the years of the settings. -/
def date (s : Settings) (position : Position) : GeneratorM σ Date := do
  let some first := Date.ofCivil? s.startYear 1 1 | fail position (.startYear s.startYear)
  let some last := Date.ofCivil? s.endYear 12 31 | fail position (.endYear s.endYear)
  let offset ← between .w64 0 (last.day - first.day)
  match Date.ofDay? (first.day + offset) with
  | some d => return d
  | none => throw (.breakdown .dayNumber)

/-- A time of day of whole units, `perSecond` of them to a second. -/
def timeOfDay (perSecond : Nat) (position : Position) : GeneratorM σ TimeOfDay := do
  let seconds ← between .w32 0 86399
  let units ← between .w32 0 (perSecond - 1)
  match TimeOfDay.ofUnits? perSecond (seconds * perSecond + units) with
  | some t => return t
  | none => fail position .timeOfDay

/-- An instant of whole units, `perSecond` of them to a second. -/
def instant (s : Settings) (perSecond : Nat) (position : Position) : GeneratorM σ Instant := do
  let date ← date s position
  return ⟨date, ← timeOfDay perSecond position⟩

/-- A decimal of so many digits. -/
def decimal (precision scale : Nat) (position : Position) : GeneratorM σ Decimal := do
  if precision < scale then fail position (.scaleExceedsPrecision precision scale)
  else if mostPrecision < precision then fail position (.precisionTooGreat precision)
  else
    let most : Int := pow10 precision - 1
    let unscaled ← between .w128 (-most) most
    match Decimal.ofUnscaled? unscaled scale with
    | some d => return d
    | none => fail position (.precisionTooGreat precision)

/-- A value of a logical type. -/
def logical (s : Settings) (position : Position) : Logical → GeneratorM σ Value
  | .date => .date <$> date s position
  | .timeMillis => .timeMillis <$> timeOfDay 1000 position
  | .timeMicros => .timeMicros <$> timeOfDay 1000000 position
  | .timestampMillis => .timestampMillis <$> instant s 1000 position
  | .timestampMicros => .timestampMicros <$> instant s 1000000 position
  | .uuid => do return .uuid (Uuid.ofRandomBytes (← draw (.bytes 16)))
  | .decimal precision scale => .decimal <$> decimal precision scale position

/-- One of some things; none of none. -/
def choose? {α : Type} (xs : List α) : GeneratorM σ (Option α) := do
  if xs.isEmpty then return none
  else
    let index ← draw (.below .w32 xs.length)
    return xs[index]?

/-! ### Keys of maps -/

/-- The length of keys. -/
def keyLength : Nat := 10

/-- A key that is longer than all keys of a list. -/
def longerKey (taken : List String) : String :=
  String.ofList (List.replicate ((taken.map String.length).foldl max 0 + 1) 'A')

/-- A key that is not taken, passing over at most so many that are. -/
def freshKeyF (taken : List String) : Nat → GeneratorM σ String
  | 0 => return longerKey taken
  | tries + 1 => do
      let key ← draw (.text keyLength)
      if key ∈ taken then freshKeyF taken tries else return key

/-- A key that is not taken. -/
def freshKey (taken : List String) : GeneratorM σ String := freshKeyF taken Draw.patience

/-- So many entries with values of a computation, added to those that are there. -/
def addEntries (value : GeneratorM σ Value) (entries : List (String × Value)) :
    Nat → GeneratorM σ (List (String × Value))
  | 0 => return entries
  | n + 1 => do
      let key ← freshKey (Keyed.keys entries)
      let v ← value
      addEntries value (Keyed.insert key v entries) n

/-! ### Records and unions -/

/-- An entry of an instance; a field that is not given a value gets one from `value`. -/
def entryWith (value : Field → GeneratorM σ Value) (given : List (String × Value))
    (field : Field) : GeneratorM σ (String × Value) :=
  match Keyed.get? field.name given with
  | some v => return (field.name, v)
  | none => do return (field.name, ← value field)

/-- An instance of a record; fields that are not given a value get one from `value`, which is told
the chain with the record on it. -/
def instanceWith (value : List String → Position → Descriptor → GeneratorM σ Value)
    (given : List (String × Value)) (chain : List String) (name : String) :
    GeneratorM σ (Instance Value) := do
  let record ← ask (Registry.fetch name)
  let drawn (field : Field) : GeneratorM σ Value :=
    value (record.name :: chain) ⟨record.name, some field.name⟩ field.type
  return ⟨record.name, ← record.fields.mapM (entryWith drawn given)⟩

/-- Those of some types that can be generated, null apart. -/
def generableAlternatives (limit : Nat) (chain : List String) :
    List Descriptor → RegistryM (List Descriptor)
  | [] => return []
  | m :: rest => do
      let keep ← if m.isNull then pure false else generable limit chain m
      let kept ← generableAlternatives limit chain rest
      return if keep then m :: kept else kept

/-- A value of one of some types. -/
def chosenWith (value : Descriptor → GeneratorM σ Value) (position : Position)
    (candidates : List Descriptor) : GeneratorM σ Value := do
  match ← choose? candidates with
  | some m => value m
  | none => fail position .noAlternative

/-- A value of a union or an optional type. -/
def unionWith (s : Settings) (value : Descriptor → GeneratorM σ Value) (chain : List String)
    (position : Position) (d : Descriptor) : GeneratorM σ Value := do
  let candidates ← ask (generableAlternatives s.selfReferenceDepth chain d.alternatives)
  if candidates.isEmpty then
    if d.alternatives.any Descriptor.isNull then return .null
    else fail position (.noGenerableMember d s.selfReferenceDepth)
  else
    let absent ← if d.isOptional then chance s.nullProbability else pure false
    if absent then return .null else chosenWith value position candidates

/-! ### All types -/

/-- A value of a type, after the records of the chain, with so many levels of nesting left. -/
def valueF (s : Settings) : Nat → List String → Position → Descriptor → GeneratorM σ Value
  | 0, _, position, _ => fail position (.nestingTooDeep s.nestingDepth)
  | levels + 1, chain, position, d =>
      match d with
      | .primitive kind => primitive s kind
      | .logical kind => logical s position kind
      | .fixed type => do return .fixed (← draw (.bytes type.size))
      | .enum type => do
          match ← choose? type.symbols with
          | some symbol => return .enum symbol
          | none => fail position (.noSymbols type.name)
      | .array items => do
          if ← ask (generable s.selfReferenceDepth chain items) then
            let n ← count s.minItems s.maxItems
            return .array (← repeatM (valueF s levels chain position items) n)
          else return .array []
      | .map values => do
          if ← ask (generable s.selfReferenceDepth chain values) then
            let n ← count s.minItems s.maxItems
            return .map (← addEntries (valueF s levels chain position values) [] n)
          else return .map []
      | .union _ => unionWith s (valueF s levels chain position) chain position d
      | .optional _ => unionWith s (valueF s levels chain position) chain position d
      | .reference name => do
          if ← ask (generable s.selfReferenceDepth chain d) then
            return .record (← instanceWith (valueF s levels) [] chain name)
          else fail position (.noTerminalCase name s.selfReferenceDepth)

theorem valueF_zero (s : Settings) (chain : List String) (position : Position) (d : Descriptor) :
    (valueF s 0 chain position d : GeneratorM σ Value) =
      fail position (.nestingTooDeep s.nestingDepth) := rfl

end Generator

/-! ### From outside -/

/-- What stands for the record of values that are generated outside any record. -/
def noRecord : String := "<value>"

/-- The failure of settings that have a problem. -/
def checkSettings {σ : Type} (s : Settings) (record : String) : GeneratorM σ Unit :=
  match s.problem? with
  | some problem => throw (.error (.generation record none (.invalidSettings problem)))
  | none => return ()

/-- A value of a type. -/
def drawValue {σ : Type} [RandomSource σ] (s : Settings) (d : Descriptor) :
    GeneratorM σ Value := do
  checkSettings s noRecord
  Generator.valueF s s.nestingDepth [] ⟨noRecord, none⟩ d

/-- The least of some names. -/
def leastName? (names : List String) : Option String :=
  (names.mergeSort fun a b => a ≤ b).head?

/-- An instance of a record, with given values for some of its fields. -/
def drawInstance {σ : Type} [RandomSource σ] (s : Settings) (name : String)
    (given : List (String × Value)) : GeneratorM σ (Instance Value) := do
  checkSettings s name
  let record ← Generator.ask (Registry.fetch name)
  let unknown := (Keyed.keys given).filter fun k => (record.field? k).isNone
  match leastName? unknown with
  | some field => throw (.error (.generation name (some field) .unknownOverride))
  | none => Generator.instanceWith (Generator.valueF s s.nestingDepth) given [] name

/-- So many instances of a record. -/
def drawInstances {σ : Type} [RandomSource σ] (s : Settings) (name : String)
    (given : List (String × Value)) (n : Nat) : GeneratorM σ (List (Instance Value)) :=
  Generator.repeatM (drawInstance s name given) n

end RecordModel
