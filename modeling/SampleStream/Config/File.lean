import SampleStream.Config
import SampleStream.Toml.Document

/-!
# Configuration files

A configuration file is a TOML document that names some of the settings. Keys that are no settings are
passed over.
-/

namespace SampleStream.Config

/-- Why a configuration file is refused. -/
inductive FileError
  /-- The text is no document, or a setting has a value that does not fit it. -/
  | malformed
  | invalid (flaw : Flaw)
deriving DecidableEq, Repr

/-- The settings that a document gives, in order; none when one of them does not fit. -/
def given? (document : Toml) : Option (List (Option Nat)) :=
  (settings.zip bounds).mapM fun (name, bound) =>
    match document.get? name with
    | none => some none
    | some value => (value.natBelow? bound).map some

/-- The configuration that a text describes, with defaults for what it leaves out. -/
def ofText (text : String) : Except FileError Config :=
  match Toml.parse? text >>= given? with
  | none => .error .malformed
  | some given =>
    match validate (override {} given) with
    | .ok c => .ok c
    | .error flaw => .error (.invalid flaw)

/-- The message of a flaw. -/
def Flaw.report (flaw : Flaw) : String :=
  "invalid config: " ++ flaw.message

end SampleStream.Config
