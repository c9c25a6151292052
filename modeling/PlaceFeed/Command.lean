import PlaceFeed.Feed.Checker

/-!
# The command line

The command takes a settings file (`--config PATH`) and an input, which is standard input when it
is absent or `-`.  `Request.ofArgs` reads the arguments from left to right, and the first that
asks for help or makes no sense decides.  `Command.run` does what was asked for, over given files
and a given standard input, and says what it wrote and how it ended.
-/

namespace PlaceFeed

/-- What the arguments ask for. -/
inductive Request
  | help
  | misuse
  /-- Check an input with the settings at a path; an empty path names none. -/
  | check (config input : Bytes)
deriving DecidableEq

namespace Request

/-- The argument that stands for standard input. -/
def standardInput : Bytes := Bytes.ofString "-"

/-- The argument that the path of the settings follows. -/
def configOption : Bytes := Bytes.ofString "--config"

/-- The argument asks for help. -/
def isHelp (arg : Bytes) : Bool := arg == Bytes.ofString "--help" || arg == Bytes.ofString "-h"

/-- The argument looks like an option. -/
def isOption (arg : Bytes) : Bool := (Bytes.ofString "--").isPrefixOf arg

/-- The request of the arguments that are left, with what was named before them. -/
def ofArgsAux (config : Bytes) (input : Option Bytes) : List Bytes → Request
  | [] => .check config (input.getD standardInput)
  | arg :: rest =>
    if isHelp arg then .help
    else if arg = configOption then
      match rest with
      | [] => .misuse
      | path :: rest => ofArgsAux path input rest
    else if input.isNone && !isOption arg then ofArgsAux config (some arg) rest
    else .misuse

/-- The **request of the arguments**. -/
def ofArgs (args : List Bytes) : Request := ofArgsAux [] none args

/-- The files that a request may read. -/
def paths : Request → List Bytes
  | .check config input =>
    (if config.isEmpty then Settings.searchPaths else [config]) ++
      (if input = standardInput then [] else [input])
  | _ => []

end Request

/-- How a run ended and what it wrote. -/
structure Outcome where
  code : UInt8
  out : Bytes
  err : Bytes
  /-- The log messages that the logger let through. -/
  log : List Log.Message
  /-- The logger at the end. -/
  logger : Log.Logger
deriving DecidableEq

namespace Command

/-- How the command is used. -/
def usage : Bytes :=
  Bytes.ofString "Usage: venue_check [--config PATH] [INPUT]\n" ++ Bytes.ofString
    "Validates a JSON Lines venue feed. Reads stdin when INPUT is absent or '-'.\n"

/-- The outcome of checking a text, after some messages. -/
def checkText (settings : Settings) (log : List Log.Message) (text : Bytes) : Outcome :=
  let logger := settings.logger
  let checker := Checker.new settings
  let (reports, after) := checker.run text
  { code := 0
    out := checker.output reports
    err := []
    log := log ++ logger.filter (Checker.runRemarks text after.summary)
    logger }

/-- The outcome of checking an input with settings that have been loaded, after some messages. -/
def checkInput (files : Files) (stdin : Bytes) (settings : Settings) (log : List Log.Message)
    (input : Bytes) : Outcome :=
  let logger := settings.logger
  if input = Request.standardInput then checkText settings log stdin
  else match files input with
    | some text =>
      checkText settings
        (log ++ logger.filter [⟨.info, Bytes.ofString "🛰️ Checking " ++ input⟩]) text
    | none =>
      { code := 1
        out := []
        err := []
        log := log ++ logger.filter [⟨.error, Bytes.ofString "🚨 Input file " ++ input
          ++ Bytes.ofString " cannot be opened"⟩]
        logger }

/-- The **outcome of the arguments**, over some files and a standard input, starting with a
logger. -/
def run (files : Files) (stdin : Bytes) (logger : Log.Logger) (args : List Bytes) : Outcome :=
  match Request.ofArgs args with
  | .help => ⟨0, [], usage, [], logger⟩
  | .misuse => ⟨2, [], usage, [], logger⟩
  | .check config input =>
    match Settings.load files config with
    | (none, remark) => ⟨1, [], [], logger.filter [remark], logger⟩
    | (some settings, remark) =>
      checkInput files stdin settings (logger.filter (remark :: settings.loggerRemarks)) input

end Command

end PlaceFeed
