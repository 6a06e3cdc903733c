import ConfigLoader.Text

/-! # Log records -/
namespace ConfigLoader

inductive Level
  | debug
  | info
  deriving DecidableEq, Repr

def Level.name : Level → String
  | .debug => "DEBUG"
  | .info => "INFO"

/-- The parts of the program that keep a log. -/
inductive Logger
  | host
  | loader
  | compiler
  deriving DecidableEq, Repr

def Logger.name : Logger → String
  | .host => "tsl.host"
  | .loader => "tsl.loader"
  | .compiler => "tsl.compiler"

structure LogRecord where
  level : Level
  logger : Logger
  message : Text
  deriving DecidableEq, Repr

/-- A world and the records written in it so far, the last one first. -/
structure Logged (W : Type) where
  world : W
  log : List LogRecord

namespace Logged

variable {W : Type}

def start (w : W) : Logged W := ⟨w, []⟩

def record (r : LogRecord) (l : Logged W) : Logged W := { l with log := r :: l.log }

def note (l : Logged W) (level : Level) (logger : Logger) (message : Text) : Logged W :=
  l.record ⟨level, logger, message⟩

@[simp] theorem record_world (r : LogRecord) (l : Logged W) : (l.record r).world = l.world := rfl

@[simp] theorem note_world (l : Logged W) (level : Level) (logger : Logger) (message : Text) :
    (l.note level logger message).world = l.world := rfl

end Logged
end ConfigLoader
