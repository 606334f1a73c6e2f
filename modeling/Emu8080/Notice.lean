/-
# Emu8080.Notice -- what is reported to the host

Loading an image, building a system and running a program leave notices.  They
are values like any other: whoever makes one appends it to a list, and the host
decides what to do with them.  Its words are only put down when the host asks for
them, so a notice that shows a value too long to be written is no obstacle to
what it reports.
-/
import Emu8080.Text.Basic

namespace Emu8080

set_option autoImplicit false

/-- How urgent a notice is. -/
inductive Level
  | debug | info | warning | error
deriving DecidableEq, Repr

/-- A line of report. -/
structure Notice where
  level : Level
  text : Text
  /-- Whether what the text shows can be written. -/
  isWritable : Bool := true
deriving DecidableEq, Repr

end Emu8080
