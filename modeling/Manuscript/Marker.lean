/-!
# Markers

The fixed words of LaTeX that documents are written with, and how a command takes its arguments.
-/
namespace Manuscript

namespace Marker

def documentEnvironment : String := "document"
def alignEnvironment : String := "align"
def tabularEnvironment : String := "tabular"
def tableOfContents : String := "\\tableofcontents"
def titlePage : String := "\\maketitle"
def clearPage : String := "\\clearpage"
def horizontalLine : String := "\\hline"
def noNumber : String := "\\nonumber"
def columnSeparator : String := " & "
def rowTerminator : String := " \\\\"

/-- The version of this set of markers and rules. -/
def version : String := "0.3.0"

end Marker

/-- An argument in braces. -/
def braced (text : String) : String := "\x7b" ++ text ++ "\x7d"

/-- The text of a command with an argument: `\name{argument}`. -/
def command (name argument : String) : String := "\\" ++ name ++ braced argument

/-- An optional argument in square brackets. -/
def optional : Option String → String
  | some text => "[" ++ text ++ "]"
  | none => ""

/-- The name of a new command, with one backslash before it whatever number it was given with. -/
def commandName (name : String) : String :=
  "\\" ++ String.ofList (name.toList.dropWhile (· == '\\'))

end Manuscript
