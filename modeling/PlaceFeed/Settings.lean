import PlaceFeed.Json.Parser
import PlaceFeed.Log

/-!
# Settings

`Settings` say how much is logged, which venues are accepted, and how reports are laid out.
`Settings.ofJson?` reads them from a JSON object in which every member may be absent, and a member
of the wrong kind spoils the whole: a file gives all of its settings or none.

`Settings.load` chooses the file.  A named file must exist; without a name the first of
`Settings.searchPaths` that exists is taken, whatever it holds.  A file that holds no settings, and
no file at all, give the default settings.
-/

namespace PlaceFeed

/-- The regular files, by path. -/
abbrev Files := Bytes → Option Bytes

/-- The settings of a run. -/
structure Settings where
  logLevel : Bytes
  logPattern : Bytes
  /-- Venues that a Mercator map does not show are rejected. -/
  requireMapPoint : Bool
  /-- Reports are indented. -/
  pretty : Bool
deriving DecidableEq

namespace Settings

/-- The pattern of log lines that holds until settings change it. -/
def defaultPattern : Bytes := Bytes.ofString "[%H:%M:%S] [%^%l%$] %v"

/-- The settings where nothing is said. -/
def default : Settings := ⟨Bytes.ofString "info", defaultPattern, false, false⟩

/-! ### Reading -/

/-- The settings of an object's members. -/
def ofMembers? (members : Json.Members) : Option Settings := do
  let logLevel ← Json.read Json.string? default.logLevel members "log_level"
  let logPattern ← Json.read Json.string? default.logPattern members "log_pattern"
  let requireMapPoint ← Json.read Json.bool? default.requireMapPoint members "require_map_point"
  let pretty ← Json.read Json.bool? default.pretty members "pretty"
  return { logLevel, logPattern, requireMapPoint, pretty }

/-- The settings of a JSON value, which must be an object. -/
def ofJson? : Json → Option Settings
  | .obj members => ofMembers? members
  | _ => none

/-! ### Files -/

/-- The paths that are tried when none is named, in this order. -/
def searchPaths : List Bytes :=
  ["venue_check.json", "../venue_check.json", "config/venue_check.json",
    "build/venue_check.json"].map Bytes.ofString

/-- The default settings, with the remark that a file holds none. -/
def unreadable (path : Bytes) : Settings × Log.Message :=
  (default, ⟨.error, Bytes.ofString "💥 Failed to parse " ++ path
    ++ Bytes.ofString ": <json error>"⟩)

/-- The settings in the text of a file, or the default ones, with a remark that says which. -/
def ofText (path text : Bytes) : Settings × Log.Message :=
  match Json.parse? text with
  | none => unreadable path
  | some (.obj members) =>
    match ofMembers? members with
    | some settings => (settings, ⟨.info, Bytes.ofString "Config loaded from " ++ path⟩)
    | none => unreadable path
  | some _ => (default, ⟨.error, Bytes.ofString "💥 " ++ path
      ++ Bytes.ofString " is not a JSON object, using defaults"⟩)

/-- The first of some paths that exists, with the text of its file. -/
def firstFile (files : Files) (paths : List Bytes) : Option (Bytes × Bytes) :=
  paths.findSome? fun path => (files path).map fun text => (path, text)

/-- The **settings of a run**, and a remark on where they are from.  An empty path names no file.
There are none only when the file that is named does not exist. -/
def load (files : Files) (path : Bytes) : Option Settings × Log.Message :=
  if path.isEmpty then
    match firstFile files searchPaths with
    | some (path, text) => let r := ofText path text; (some r.1, r.2)
    | none => (some default, ⟨.warning,
        Bytes.ofString "⚠️ venue_check.json not found, using defaults"⟩)
  else
    match files path with
    | some text => let r := ofText path text; (some r.1, r.2)
    | none => (none, ⟨.error, Bytes.ofString "Config file " ++ path
        ++ Bytes.ofString " cannot be opened"⟩)

/-! ### Logging -/

/-- The logger that the settings ask for.  An unknown level means `info`. -/
def logger (settings : Settings) : Log.Logger :=
  ⟨(Log.Level.ofName? settings.logLevel).getD .info, settings.logPattern⟩

/-- What there is to say about the level that the settings ask for. -/
def loggerRemarks (settings : Settings) : List Log.Message :=
  match Log.Level.ofName? settings.logLevel with
  | some _ => []
  | none => [⟨.warning, Bytes.ofString "Unknown log_level '" ++ settings.logLevel
      ++ Bytes.ofString "', keeping info"⟩]

end Settings

end PlaceFeed
