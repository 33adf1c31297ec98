/-
**Running a command.**

A command reads a model, and perhaps settings, and prints a schema or instances.  What it reads is
given to it as a function from paths, so that running is a pure function; a failure is reported as
the chain of what was being done and the message of its cause.

Main definitions:

* `Outcome` — how a command ends;
* `Command.run` — running a command;
* `CommandLine.run` — running a whole command line.
-/

import RecordModel.CommandLine.Arguments
import RecordModel.Generator.Basic
import RecordModel.Generator.SettingsText
import RecordModel.Model.Document
import RecordModel.Random.ChaCha
import RecordModel.Schema.OfRecord

set_option relaxedAutoImplicit false
set_option autoImplicit false

namespace RecordModel

/-- How a command ends. -/
inductive Outcome where
  /-- The arguments are wrong. -/
  | refused
  | failed (message : String)
  | printed (text : String)
  | broken (b : Breakdown)

/-- The texts of files by their paths. -/
abbrev Files := String → Except ReadFault String

namespace Command

/-- A step of a command: it gives a value, or the command ends. -/
abbrev Step := Except Outcome

/-- A step that fails while something is done. -/
def within {α : Type} (doing : String) : Except Failure α → Step α
  | .ok a => .ok a
  | .error (.error e) => .error (.failed (doing ++ e.message))
  | .error (.breakdown b) => .error (.broken b)

/-- The model in a file.  The cause of a file that cannot be read is reported twice, as the message
of the error and as the cause of that. -/
def readModel (files : Files) (path : String) : Step Model :=
  let doing := "loading model " ++ path ++ ": "
  match files path with
  | .ok text => within doing (Model.parse text)
  | .error fault =>
      .error (.failed (doing ++ (Error.read fault).message ++ ": " ++ fault.message))

/-- The settings in a file. -/
def readSettings (files : Files) (path : String) : Step Settings :=
  match files path with
  | .error fault => .error (.failed ("reading " ++ path ++ ": " ++ fault.message))
  | .ok text =>
      match Settings.parse text with
      | some settings => .ok settings
      | none => .error (.failed ("parsing generator config " ++ path))

/-- A value that is given for a field, as `field=value`. -/
def givenValue (model : Model) (record pair : String) : Step (String × Value) :=
  match splitEquals pair with
  | (_, none) => .error (.failed ("override '" ++ pair ++ "' must have the form field=<json>"))
  | (field, some text) =>
      match Json.parse text with
      | none => .error (.failed ("override for '" ++ field ++ "' is not valid JSON"))
      | some raw => do
          let v ← within "" (model.valueFor record field raw)
          return (field, v)

/-- Lines of text. -/
def lines (texts : List String) : String := String.join (texts.map (· ++ "\n"))

/-- Runs a command; `seed` is the seed of a command that states none. -/
def run (files : Files) (seed : UInt64) : Command → Step String
  | .schema modelPath record relaxed => do
      let model ← readModel files modelPath
      let registry := Registry.ofProvider model.provider
      let json ← within ("building schema for '" ++ record ++ "': ")
        (Document.lift ((Schema.jsonOfRecord (!relaxed) record).run registry).1)
      return lines [json.pretty]
  | .fake modelPath record stated settingsPath pairs count => do
      let model ← readModel files modelPath
      let given ← pairs.mapM (givenValue model record)
      let settings ← match settingsPath with
        | some path => readSettings files path
        | none => pure {}
      let source := ChaCha.ofSeed ((stated.map UInt64.ofNat).getD seed)
      let state : GeneratorState ChaCha := ⟨Registry.ofProvider model.provider, source⟩
      let instances ← within ("generating '" ++ record ++ "': ")
        ((drawInstances settings record (Keyed.ofArrivals given) count).run state).1
      return lines (instances.map fun i => (Value.record i).toJson.compact)

end Command

/-- Runs a command line; `seed` is the seed of a command that states none. -/
def CommandLine.run (files : Files) (seed : UInt64) (arguments : List String) : Outcome :=
  match Command.parse arguments with
  | none => .refused
  | some command =>
      match command.run files seed with
      | .ok text => .printed text
      | .error outcome => outcome

end RecordModel
