/-!
# Reports

A command reports in lines, each of which has a meaning that decides on which stream and in which
colour it is printed.

## Main definitions

* `Line` — a line of a report
* `Line.render` — its text, with or without colour
* `Report.output`, `Report.complaints` — the texts of the two streams
-/

namespace Targeting.CommandLine

/-- A line of a report. -/
inductive Line where
  | header (text : String)
  | detail (text : String)
  | success (text : String)
  | action (label text : String)
  | plain (text : String)
  | warning (text : String)
  | error (text : String)
  deriving DecidableEq

/-- The colours of a report. -/
inductive Colour where
  | green
  | yellow
  | boldRed
  | boldCyan

namespace Colour

/-- The sequence that ends a colour. -/
def ending : String := "\x1b[0m"

/-- The sequence that begins a colour. -/
def beginning : Colour → String
  | .green => "\x1b[32m"
  | .yellow => "\x1b[33m"
  | .boldRed => "\x1b[1;31m"
  | .boldCyan => "\x1b[1;36m"

/-- A text in a colour. Where the text itself ends a colour, this one begins again. -/
def paint (c : Colour) (text : String) : String :=
  c.beginning ++ text.replace ending (ending ++ c.beginning) ++ ending

end Colour

namespace Line

/-- A text in a colour if there are colours. -/
def paintIf (coloured : Bool) (c : Colour) (text : String) : String :=
  if coloured then c.paint text else text

/-- The text of a line with its line break. -/
def render (coloured : Bool) (l : Line) : String :=
  let paint := paintIf coloured
  let text := match l with
    | .header text => paint .boldCyan text
    | .detail text => "  " ++ text
    | .success text => paint .green "✓" ++ " " ++ text
    | .action label text => paint .green label ++ ": " ++ text
    | .plain text => text
    | .warning text => paint .yellow "Warning" ++ ": " ++ text
    | .error text => paint .boldRed "error" ++ ": " ++ text
  text ++ "\n"

/-- Whether a line tells of something that is wrong. -/
def isComplaint : Line → Bool
  | .warning _ | .error _ => true
  | _ => false

end Line

/-- The lines that a command reports, in order. -/
abbrev Report := List Line

namespace Report

/-- The text of the lines that tell of nothing wrong. -/
def output (coloured : Bool) (r : Report) : String :=
  String.join ((r.filter (!·.isComplaint)).map (Line.render coloured))

/-- The text of the lines that tell of something wrong. -/
def complaints (coloured : Bool) (r : Report) : String :=
  String.join ((r.filter (·.isComplaint)).map (Line.render coloured))

end Report

end Targeting.CommandLine
