import SampleStream.Config
import SampleStream.Json.Reader
import SampleStream.Json.Writer
import SampleStream.Outline
import SampleStream.Render
import SampleStream.Token

/-!
# Values on the wire

The JSON forms of messages, states, counters, spans and configurations. Records are objects with their
fields in order; they are read from objects with any further members, or from arrays of the fields.
-/

namespace SampleStream

/-- From the control side to the processor: the bytes of a module to load. -/
structure ControlMessage where
  moduleBytes : List UInt8
deriving DecidableEq, Repr

/-- From the processor to the control side: a module was adopted. -/
inductive RenderMessage
  | ready
deriving DecidableEq, Repr

/-- Why a text is refused. -/
inductive WireError
  /-- It is no JSON of the right shape. -/
  | shape
  /-- It is JSON, but no control message. -/
  | noControlMessage
  /-- It withdraws a readiness that can only be given. -/
  | notReady
deriving DecidableEq, Repr

def WireError.message? : WireError → Option String
  | .shape => none
  | .noControlMessage => some "data did not match any variant of untagged enum ControlMessage"
  | .notReady => some "`ready` must be true"

/-- A type with a form on the wire. -/
class Wire (α : Type) where
  toJson : α → Json
  ofJson : Json → Except WireError α
  outline : α → Outline

namespace Wire

/-- The value that a text holds; nothing but blanks may follow it. -/
def decode (α : Type) [Wire α] (text : String) : Except WireError α :=
  match Json.ofText? text with
  | none => .error .shape
  | some (j, complete) => do
    let value ← ofJson j
    if complete then .ok value else .error .shape

def encode {α : Type} [Wire α] (value : α) : String :=
  (toJson value).compact

def ofOption {α : Type} : Option α → Except WireError α
  | some a => .ok a
  | none => .error .shape

/-- An object of numbers in the order of their names. -/
def recordJson (names : List String) (values : List Nat) : Json :=
  .object (List.zipWith (fun name n => (some name, Json.nat n)) names values)

/-- A record of numbers shown under a name. -/
def recordOutline (title : String) (names : List String) (values : List Nat) : Outline :=
  .record title (List.zipWith (fun name n => (name, Outline.nat n)) names values) false

/-- The numbers of a record, each below its bound; none where a field is missing. -/
def recordValues? (names : List String) (bounds : List Nat) (j : Json) : Option (List (Option Nat)) := do
  let fields ← j.fields? names
  (fields.zip bounds).mapM fun (field, bound) =>
    match field with
    | none => some none
    | some value => (value.natBelow? bound).map some

def spanFields : List String := ["start", "end"]

instance : Wire Span where
  toJson s := recordJson spanFields [s.start, s.stop]
  ofJson j :=
    match recordValues? spanFields [UInt64.size, UInt64.size] j with
    | some [some start, some stop] => .ok ⟨start, stop⟩
    | _ => .error .shape
  outline s := recordOutline "Span" spanFields [s.start, s.stop]

def statsFields : List String := ["quanta", "silent_quanta", "failed_quanta", "dropped_loads"]

def statsValues (s : RenderStats) : List Nat := [s.quanta, s.silent, s.failed, s.droppedLoads]

instance : Wire RenderStats where
  toJson s := recordJson statsFields (statsValues s)
  ofJson j :=
    match recordValues? statsFields (statsFields.map fun _ => UInt64.size) j with
    | some [some quanta, some silent, some failed, some dropped] => .ok ⟨quanta, silent, failed, dropped⟩
    | _ => .error .shape
  outline s := recordOutline "RenderStats" statsFields (statsValues s)

/-- Fields that are missing have their defaults. -/
instance : Wire Config where
  toJson c := recordJson Config.settings c.values
  ofJson j := do
    let given ← ofOption (recordValues? Config.settings Config.bounds j)
    return Config.override {} given
  outline c := recordOutline "RuntimeConfig" Config.settings c.values

def stateOfName? (name : String) : Option RenderState :=
  if name = "Unloaded" then some .unloaded
  else if name = "Loading" then some .loading
  else if name = "Ready" then some .ready
  else none

/-- A state is its name, or an object of that one name without a value. -/
instance : Wire RenderState where
  toJson s := .text s.name
  ofJson
    | .string (some name) => ofOption (stateOfName? name)
    | .object [(some name, .null)] => ofOption (stateOfName? name)
    | _ => .error .shape
  outline s := .word s.name

instance : Wire RenderMessage where
  toJson _ := .object [(some "ready", .bool true)]
  ofJson j :=
    match j.fields? ["ready"] with
    | some [some (.bool true)] => .ok .ready
    | some [some (.bool false)] => .error .notReady
    | _ => .error .shape
  outline _ := .word "Ready"

/-- How deep a control message may nest. -/
def maxDepth : Nat := 127

def moduleBytes? : Json → Option (List UInt8)
  | .object members =>
    match members.filter (·.1 == some "moduleBytes") with
    | [(_, .array items)] => items.mapM fun item => (item.natBelow? 256).map UInt8.ofNat
    | _ => none
  | _ => none

/-- The whole text is looked at before the message is told: a text with a value that has no content
anywhere is no JSON at all. -/
instance : Wire ControlMessage where
  toJson m := .object [(some "moduleBytes", .array (m.moduleBytes.map fun b => .nat b.toNat))]
  ofJson j :=
    if j.sound maxDepth then
      match moduleBytes? j with
      | some bytes => .ok ⟨bytes⟩
      | none => .error .noControlMessage
    else .error .shape
  outline m := .record "LoadModule"
    [("module_bytes", .list (m.moduleBytes.map fun b => .nat b.toNat))] false

end Wire

end SampleStream
