import PlaceFeed.Bytes

/-!
# Log messages

What the library says beside its results is a list of `Message`s, each with a level.  A `Logger`
lets through the messages at its level or above it.
-/

namespace PlaceFeed

namespace Log

/-- How grave a message is; `off` is above all of them. -/
inductive Level
  | trace
  | debug
  | info
  | warning
  | error
  | critical
  | off
deriving DecidableEq

namespace Level

/-- The levels from the least to the gravest. -/
def rank : Level → Nat
  | trace => 0
  | debug => 1
  | info => 2
  | warning => 3
  | error => 4
  | critical => 5
  | off => 6

/-- The name that a message is printed with. -/
def name : Level → String
  | trace => "trace"
  | debug => "debug"
  | info => "info"
  | warning => "warning"
  | error => "error"
  | critical => "critical"
  | off => "off"

/-- The names that settings may use: two levels have a second, shorter one. -/
def names : List (Bytes × Level) :=
  [trace, debug, info, warning, error, critical, off].map (fun l => (Bytes.ofString l.name, l)) ++
    [(Bytes.ofString "warn", warning), (Bytes.ofString "err", error)]

/-- The level of a name. -/
def ofName? (name : Bytes) : Option Level := names.lookup name

end Level

/-- A message with its level. -/
structure Message where
  level : Level
  text : Bytes
deriving DecidableEq

/-- The message as it is printed, without its time. -/
def Message.toBytes (m : Message) : Bytes :=
  Bytes.ofString m.level.name ++ Bytes.ofString ": " ++ m.text

/-- What a logger is set to: the least level that it lets through, and the pattern of its lines. -/
structure Logger where
  level : Level
  pattern : Bytes
deriving DecidableEq

/-- The messages that the logger lets through. -/
def Logger.filter (logger : Logger) (messages : List Message) : List Message :=
  messages.filter fun m => logger.level.rank ≤ m.level.rank

end Log

end PlaceFeed
