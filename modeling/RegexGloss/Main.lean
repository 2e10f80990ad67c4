import RegexGloss.CommandLine

/-!
# The program

Prints what the command answers to the arguments given to it.
-/

namespace RegexGloss

/-- Runs the command with a reader of arguments and prints its answer. The result is the exit
code. -/
def runProgram (readArgs : List Text → Except Answer Arguments) (args : List String) :
    IO UInt32 := do
  let answer := runCommand readArgs (args.map String.toList)
  IO.print (String.ofList answer.out)
  IO.eprint (String.ofList answer.err)
  return answer.code.toUInt32

end RegexGloss
