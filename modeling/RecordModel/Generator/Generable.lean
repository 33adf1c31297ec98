/-
**Whether a type can be generated.**

A value of a record that refers to itself ends only where a reference is left out: in an absent
value, in an empty collection, or in another member of a union.  Before the generator goes into a
type it looks ahead whether there is such an end within the limit on how often one record may stand
on the chain of records that are being generated.

Along a chain that keeps to the limit every name occurs at most so often, hence the look-ahead ends.
The number of records that it may still push on the chain is the argument of the recursion.

Main definitions:

* `atLimit` — whether a record stands on the chain as often as it may;
* `generableWith` — whether a type can be generated, when it is known which records can;
* `recordGenerableF`, `recordGenerable`, `generable` — whether a record and a type can be
  generated.
-/

import RecordModel.Registry

set_option relaxedAutoImplicit false
set_option autoImplicit false

namespace RecordModel

/-- Whether a record stands on the chain as often as it may. -/
def atLimit (limit : Nat) (chain : List String) (name : String) : Bool :=
  limit ≤ chain.count name

mutual

/-- Whether a type can be generated; `ofRecord` says which records can. -/
def generableWith (ofRecord : String → RegistryM Bool) : Descriptor → RegistryM Bool
  | .reference name => ofRecord name
  | .union members => anyGenerableWith ofRecord members
  | _ => return true

/-- Whether one of some members of a union is null or can be generated. -/
def anyGenerableWith (ofRecord : String → RegistryM Bool) : List Descriptor → RegistryM Bool
  | [] => return false
  | m :: rest => do
      if m.isNull then return true
      else if ← generableWith ofRecord m then return true
      else anyGenerableWith ofRecord rest

end

/-- Whether every type of a list can be generated. -/
def allGenerableWith (ofRecord : String → RegistryM Bool) : List Descriptor → RegistryM Bool
  | [] => return true
  | d :: rest => do
      if ← generableWith ofRecord d then allGenerableWith ofRecord rest else return false

/-- Whether a record can be generated after the records of the chain, the innermost one first; at
most so many records are pushed on it. -/
def recordGenerableF (limit : Nat) : Nat → List String → String → RegistryM Bool
  | 0, _, _ => return false
  | budget + 1, chain, name => do
      if atLimit limit chain name then return false
      else
        let record ← Registry.fetch name
        allGenerableWith (recordGenerableF limit budget (record.name :: chain))
          (record.fields.map (·.type))

/-- Whether a record can be generated after the records of the chain. -/
def recordGenerable (limit : Nat) (chain : List String) (name : String) : RegistryM Bool := do
  let registry ← get
  recordGenerableF limit (registry.knownNames.length * limit + 1) chain name

/-- Whether a type can be generated after the records of the chain. -/
def generable (limit : Nat) (chain : List String) (d : Descriptor) : RegistryM Bool :=
  generableWith (recordGenerable limit chain) d

end RecordModel
