import LiveMarkup.Report

/-!
# The command line

`tokens FILE`, `tree FILE`, `bindings FILE` and `render FILE [--value V]...`
print a report on a template file.
-/

namespace LiveMarkup.CommandLine

/-- Reads a template file. -/
def load (name : String) : IO TemplateFile := do
  try
    return .ofBytes name (← IO.FS.readBinFile name)
  catch
    | .noFileOrDirectory .. => return ⟨name, .error .missing⟩
    | e => return ⟨name, .error (.other (toString e))⟩

/-- Splits arguments into words and values. A value follows its flag, or an
equals sign behind it. There are no other flags. -/
def arguments? : List String → Option (List String × List String)
  | [] => some ([], [])
  | ["--value"] => none
  | "--value" :: value :: rest =>
      (arguments? rest).map fun (words, values) => (words, value :: values)
  | word :: rest =>
      if word.startsWith "--value=" then
        (arguments? rest).map fun (words, values) => (words, (word.drop 8).toString :: values)
      else if word.startsWith "-" then none
      else (arguments? rest).map fun (words, values) => (word :: words, values)

def usage : String :=
  "usage: tokens FILE | tree FILE | bindings FILE | render FILE [--value V]..."

/-- Prints a report, or a failure with its causes. -/
def finish : Except Failure String → IO UInt32
  | .ok out => do
      IO.print out
      return 0
  | .error failure => do
      IO.eprintln ("Error: " ++ failure.context ++ "\n\nCaused by:")
      failure.causes.forM fun cause => IO.eprintln ("    " ++ cause)
      return 1

end LiveMarkup.CommandLine

open LiveMarkup LiveMarkup.CommandLine in
def main (args : List String) : IO UInt32 := do
  match arguments? args with
  | some (["tokens", name], []) => finish (Report.tokens (← load name))
  | some (["tree", name], []) => finish (Report.tree (← load name))
  | some (["bindings", name], []) => finish (Report.bindings (← load name))
  | some (["render", name], values) => finish (Report.render (← load name) values)
  | _ => do
      IO.eprintln usage
      return 2
