import ScriptDocs.Text.Basic

/-!
# Log entries

What the library notes while it works, for whoever runs it.
-/

namespace ScriptDocs

inductive LogLevel where
  | info
  | warning
  | error
deriving DecidableEq, Repr

def LogLevel.word : LogLevel → Text
  | .info => "INFO".toList
  | .warning => "WARNING".toList
  | .error => "ERROR".toList

structure LogEntry where
  level : LogLevel
  message : Text
deriving DecidableEq, Repr

namespace LogEntry

def info (message : Text) : LogEntry := ⟨.info, message⟩

def warning (message : Text) : LogEntry := ⟨.warning, message⟩

def error (message : Text) : LogEntry := ⟨.error, message⟩

end LogEntry

end ScriptDocs
