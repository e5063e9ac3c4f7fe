import PathPolicy.Loader.Load
import PathPolicy.Loader.Status
import PathPolicy.Text.JsonText

/-!
# What commands print
-/

namespace PathPolicy

open Text (Json)

def LoadReport.lines (r : LoadReport) : List String :=
  r.loaded.map (fun name => s!"{name}: configuration loaded")
    ++ r.unchanged.map (fun name => s!"{name}: configuration unchanged")
    ++ r.failed.map (fun name => s!"{name}: configuration not loaded")

/-- One of two words. -/
def word (flag : Bool) (on off : String) : String := if flag then on else off

namespace SubmoduleStatus

/-- The value of a feature, as it is printed. -/
def featureText : Option String → String
  | none => "not available"
  | some "0" => "no"
  | some _ => "yes"

/-- The line around the text of a policy. -/
def rule : String := "".pushn '-' 79

/-- The lines of the state of a submodule. -/
def lines (s : SubmoduleStatus) : List String :=
  ["", s.longName ++ ": " ++ word s.enabled "enabled" "disabled"]
    ++ s.features.map (fun (name, value) => s!"{name}: {featureText value}")
    ++ s.defaultValue.toList.map (fun value => s!"Default: {value}")
    ++ s.version.toList.map (fun version => s!"Version: {version}")
    ++ [if s.isLoaded then s!"{s.longName}: configuration loaded ({s.digest})"
        else s!"{s.longName}: configuration not loaded"]
    ++ (match s.config with
        | some config => [rule, Text.trimEnd config, rule]
        | none => [])

def json (s : SubmoduleStatus) : Json :=
  .object <|
    [("name", .string s.name), ("long_name", .string s.longName), ("enabled", .boolean s.enabled),
      ("hash", .string s.digest), ("version", Json.ofOption s.version),
      ("features", .object (s.features.map fun (name, value) => (name, Json.ofOption value))),
      ("default_value", Json.ofOption s.defaultValue)]
    ++ s.config.toList.map fun config => ("config", .string config)

end SubmoduleStatus

namespace Status

/-- The lines of the state of the kernel. -/
def lines (s : Status) : List String :=
  ["S.A.R.A.: " ++ word s.enabled "enabled" "disabled",
    "Configuration: " ++ word s.locked "locked" "unlocked"]
    ++ s.submodules.flatMap SubmoduleStatus.lines

def json (s : Status) : Json :=
  .object [("enabled", .boolean s.enabled), ("locked", .boolean s.locked),
    ("submodules", .array (s.submodules.map SubmoduleStatus.json))]

end Status

end PathPolicy
