import ScopeScript.Script

/-!
# Command line

Runs a script file: `run PATH [--tokens] [--ast] [--globals]`. Reports are colored unless the
environment asks for plain text.
-/

namespace ScopeScript.CommandLine

/-- The arguments of a run: the path of the script and what to print. -/
structure Invocation where
  path : String
  options : ScriptOptions

/-- Reads the arguments behind the name of the command; flags may stand before or behind the path. -/
def parseRun (path : Option String) (options : ScriptOptions) : List String → Option Invocation
  | [] => path.map (⟨·, options⟩)
  | "--tokens" :: rest => parseRun path { options with showTokens := true } rest
  | "--ast" :: rest => parseRun path { options with showTree := true } rest
  | "--globals" :: rest => parseRun path { options with showGlobals := true } rest
  | argument :: rest =>
    if argument.startsWith "-" || path.isSome then none else parseRun (some argument) options rest

/-- More rounds than a loop can run through in practice. -/
def budget : Nat := Nat.pow 2 62

/-- Reads a file as text. -/
def readScript (path : String) : IO (Except ReadFailure String) := do
  try
    let bytes ← IO.FS.readBinFile path
    return match String.fromUTF8? bytes with
      | some text => .ok text
      | none => .error .invalidText
  catch
    | .noFileOrDirectory .. => return .error .missing
    | error => return .error (.other (toString error))

/-- Whether reports are colored: not without a terminal type, on a dumb one, or when colors are
declined. -/
def wantsColor : IO Bool := do
  let declined := (← IO.getEnv "NO_COLOR").isSome
  return match ← IO.getEnv "TERM" with
    | none | some "dumb" => false
    | some _ => !declined

/-- Runs a script and writes its transcript. -/
def perform (invocation : Invocation) : IO UInt32 := do
  let source ← readScript invocation.path
  let transcript := Script.runFile budget invocation.options invocation.path source
  IO.print transcript.output
  IO.eprint (Markup.render (← wantsColor) transcript.complaint)
  return if transcript.succeeded then 0 else 1

/-- Says how the command is called. -/
def explain : IO UInt32 := do
  IO.eprintln "usage: run PATH [--tokens] [--ast] [--globals]"
  return 2

end ScopeScript.CommandLine

open ScopeScript.CommandLine in
/-- Runs the script that the arguments name. -/
def main (arguments : List String) : IO UInt32 := do
  match arguments with
  | "run" :: rest =>
    match parseRun none ⟨false, false, false⟩ rest with
    | some invocation => perform invocation
    | none => explain
  | _ => explain
