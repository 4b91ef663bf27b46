import LatexTabular.CommandLine.Program

/-!
# The program

This module connects the command line program to the files and streams of the
operating system.
-/

namespace LatexTabular.CommandLine

/-- Decode bytes as UTF-8. -/
def decodeFile (bytes : ByteArray) : Option Text :=
  (String.fromUTF8? bytes).map String.toList

/-- The files and the standard input of the operating system. -/
def systemHost : Host IO where
  load path := do
    try
      return decodeFile (← IO.FS.readBinFile (String.ofList path))
    catch _ => return none
  input := do
    try
      return decodeFile (← (← IO.getStdin).readBinToEnd)
    catch _ => return none
  save path content := do
    try
      IO.FS.writeFile (String.ofList path) (String.ofList content)
      return true
    catch _ => return false

/-- What the user is told about the end of a run. -/
def messageOf : Outcome → Text
  | .misused _ => usageText
  | .unreachable => "Error: a file could not be read or written\n".toList
  | .failed error => errorMessage error
  | .done _ messages => messages

end LatexTabular.CommandLine

open LatexTabular.CommandLine in
/-- Run the program on the arguments of the process and leave with its code. -/
def main (arguments : List String) : IO UInt32 := do
  let outcome ← run systemHost (arguments.map String.toList)
  (← IO.getStderr).putStr (String.ofList (messageOf outcome))
  (← IO.getStdout).putStr (String.ofList outcome.output)
  return UInt32.ofNat outcome.exitCode
