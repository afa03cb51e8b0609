/-!
# Notices

What the library has to say about its work, in order, each of some severity.
-/

namespace BoardPlotter

inductive Severity where
  | debug
  | info
  | warning
  | error
  | critical
  deriving DecidableEq, Repr

namespace Severity

def all : List Severity := [debug, info, warning, error, critical]

/-- Severities are compared by number. -/
def level : Severity → Int
  | debug => 10
  | info => 20
  | warning => 30
  | error => 40
  | critical => 50

def text : Severity → String
  | debug => "DEBUG"
  | info => "INFO"
  | warning => "WARNING"
  | error => "ERROR"
  | critical => "CRITICAL"

end Severity

structure Notice where
  severity : Severity
  text : String
  deriving DecidableEq, Repr

namespace Notice

def debug (text : String) : Notice := ⟨.debug, text⟩
def info (text : String) : Notice := ⟨.info, text⟩
def warning (text : String) : Notice := ⟨.warning, text⟩
def error (text : String) : Notice := ⟨.error, text⟩

/-- The notices of at least some severity. -/
def atLeast (s : Severity) (notices : List Notice) : List Notice :=
  notices.filter fun n => s.level ≤ n.severity.level

end Notice

end BoardPlotter
