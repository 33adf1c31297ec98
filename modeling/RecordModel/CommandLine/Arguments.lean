/-
**Arguments of the command line.**

A command line names one of two commands and then its options, in any order.  An option with a
value takes the next argument or what stands behind an equals sign; an argument that starts with a
dash is no value, unless it is the dash alone.  Every option may be given once, except those that
say otherwise.

Main definitions:

* `Command` — the commands;
* `OptionKey` — the options of a command;
* `Command.parse` — the command that arguments give.
-/

import RecordModel.Power

set_option relaxedAutoImplicit false
set_option autoImplicit false

namespace RecordModel

/-- A command. -/
inductive Command where
  /-- Print the schema of a record. -/
  | schema (model record : String) (relaxed : Bool)
  /-- Print instances of a record. -/
  | fake (model record : String) (seed : Option Nat) (settings : Option String)
      (given : List String) (count : Nat)

/-- The options of the commands. -/
inductive OptionKey where
  | model
  | record
  | relaxed
  | seed
  | settings
  | given
  | count
deriving DecidableEq

namespace OptionKey

/-- The option as it is written. -/
def name : OptionKey → String
  | .model => "--model"
  | .record => "--record"
  | .relaxed => "--relaxed-unions"
  | .seed => "--seed"
  | .settings => "--config"
  | .given => "--set"
  | .count => "--count"

/-- Whether the option has a value. -/
def hasValue : OptionKey → Bool
  | .relaxed => false
  | _ => true

/-- Whether the option may be given more than once. -/
def repeatable : OptionKey → Bool
  | .given => true
  | _ => false

end OptionKey

namespace Command

/-- A number of 64 bits, perhaps behind a plus sign. -/
def number? (s : String) : Option Nat :=
  let digits := match s.toList with
    | '+' :: rest => rest
    | cs => cs
  if digits.isEmpty || !digits.all Char.isDigit then none
  else
    let n := Nat.ofDigitChars 10 digits 0
    if n < pow2 64 then some n else none

/-- Whether an argument can be the value of the option before it. -/
def isValue (s : String) : Bool := s.toList.head? ≠ some '-' || s = "-"

/-- An argument at its first equals sign. -/
def splitEquals (s : String) : String × Option String :=
  match s.toList.span (· ≠ '=') with
  | (name, []) => (String.ofList name, none)
  | (name, _ :: value) => (String.ofList name, some (String.ofList value))

/-- The options among `keys` with their values, in order. -/
def options (keys : List OptionKey) : List String → Option (List (OptionKey × String))
  | [] => some []
  | "--" :: rest => if rest.isEmpty then some [] else none
  | arg :: rest => do
      let (name, inline) := splitEquals arg
      let key ← keys.find? (·.name = name)
      match key.hasValue, inline, rest with
      | false, none, rest => return (key, "") :: (← options keys rest)
      | false, some _, _ => none
      | true, some value, rest => return (key, value) :: (← options keys rest)
      | true, none, value :: rest =>
          if isValue value then return (key, value) :: (← options keys rest) else none
      | true, none, [] => none

/-- The values of an option. -/
def values (key : OptionKey) (given : List (OptionKey × String)) : List String :=
  (given.filter (·.1 = key)).map (·.2)

/-- The value of an option that is given at most once. -/
def value? (key : OptionKey) (given : List (OptionKey × String)) : Option String :=
  (values key given).head?

/-- Whether no option is given twice that must not be. -/
def noneRepeated (keys : List OptionKey) (given : List (OptionKey × String)) : Bool :=
  keys.all fun key => key.repeatable || (values key given).length ≤ 1

/-- A path, which is not empty. -/
def path? (s : String) : Option String := if s.isEmpty then none else some s

/-- An optional value, as it is read. -/
def readOptional {α : Type} (read : String → Option α) : Option String → Option (Option α)
  | none => some none
  | some s => (read s).map some

/-- The command that arguments give, unless they are wrong. -/
def parse : List String → Option Command
  | "schema" :: rest => do
      let keys : List OptionKey := [.model, .record, .relaxed]
      let given ← options keys rest
      if noneRepeated keys given then
        let model ← path? (← value? .model given)
        let record ← value? .record given
        return .schema model record (value? .relaxed given).isSome
      else none
  | "fake" :: rest => do
      let keys : List OptionKey := [.model, .record, .seed, .settings, .given, .count]
      let given ← options keys rest
      if noneRepeated keys given then
        let model ← path? (← value? .model given)
        let record ← value? .record given
        let seed ← readOptional number? (value? .seed given)
        let settings ← readOptional path? (value? .settings given)
        let count ← readOptional number? (value? .count given)
        return .fake model record seed settings (values .given given) (count.getD 1)
      else none
  | _ => none

example : (parse ["schema", "--model=m", "--record", "-"]).isSome = true := by decide +kernel
example : (parse ["schema", "--model=m", "--record", "-r"]).isNone = true := by decide +kernel
example : (parse ["fake", "--model=m", "--record=r", "--seed", "+7"]).isSome = true := by
  decide +kernel

end Command

end RecordModel
