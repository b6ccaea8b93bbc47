/-!
# Notifications

A notification is a message that the host shows to the user.
-/

namespace LeaderKey

/-- How serious a notification is. -/
inductive Severity where
  | info
  | warning
  | error
  deriving DecidableEq, Repr

/-- The name of a severity. -/
def Severity.name : Severity → String
  | .info => "info"
  | .warning => "warning"
  | .error => "error"

/-- The mark in front of a notification on a console. -/
def Severity.mark : Severity → String
  | .info => "ℹ"
  | .warning => "⚠"
  | .error => "✗"

/-- A message for the user. -/
structure Notification where
  /-- The title above the message. -/
  title : String
  /-- The message. -/
  message : String
  /-- How serious it is. -/
  severity : Severity
  deriving DecidableEq, Repr

namespace Notification

/-- The title of the notifications of this program. -/
def programTitle : String := "Ataman"

/-- A notification of an error. -/
def ofError (title message : String) : Notification := ⟨title, message, .error⟩

/-- A notification as a line on a console. -/
def toLine (n : Notification) : String := s!"{n.severity.mark} {n.title}: {n.message}\n"

end Notification

end LeaderKey
