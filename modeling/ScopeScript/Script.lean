import ScopeScript.Eval.Program
import ScopeScript.Report.Basic
import ScopeScript.Tree.Outline
import ScopeScript.Tree.Program

/-!
# Running a script

A script is read, scanned, parsed and evaluated with no globals to begin with. Its value, if it has
one, is printed; on demand also the tokens, the outline of the tree and the globals. What is printed
before a fault stays, and the globals are printed even then.
-/

namespace ScopeScript

/-- What is printed besides the value of a script. -/
structure ScriptOptions where
  showTokens : Bool
  showTree : Bool
  showGlobals : Bool
deriving DecidableEq, Repr

/-- Why a file gives no text. -/
inductive ReadFailure where
  | missing
  | invalidText
  | other (reason : String)
deriving DecidableEq, Repr

/-- The reason for a failure to read. -/
def ReadFailure.reason : ReadFailure → String
  | missing => "No such file or directory (os error 2)"
  | invalidText => "stream did not contain valid UTF-8"
  | other reason => reason

/-- What a run has written to the two streams of output, and whether it has succeeded. -/
structure Transcript where
  output : String
  complaint : List Markup
  succeeded : Bool

namespace Script

/-- Lines of text. -/
def lines (texts : List String) : String := String.join (texts.map (· ++ "\n"))

/-- The listing of the globals in the order of their names. -/
def globalListing (env : Env) : String :=
  lines (env.globalFrame.sorted.map fun binding ↦ binding.1 ++ " = " ++ binding.2.text)

/-- What a text says before it is evaluated, and its program or its fault. -/
def compile (options : ScriptOptions) (source : String) : String × Except Fault Program :=
  match scan source with
  | .error fault => ("", .error fault)
  | .ok tokens =>
    let listing := if options.showTokens then lines (tokens.map Token.listing) else ""
    match Program.ofTokens tokens with
    | .error fault => (listing, .error fault)
    | .ok program =>
      (listing ++ if options.showTree then lines [(Program.outline program).tall ""] else "",
        .ok program)

/-- The complaint that a loop has used up its budget. -/
def unfinishedComplaint : List Markup := [.text "error: the script does not come to an end\n"]

/-- The session of a script before it runs. -/
def freshSession : Session := .ofGlobals .empty false

/-- Runs the text of a script of some name. -/
def run (budget : Nat) (options : ScriptOptions) (name source : String) : Transcript :=
  let globals (session : Session) : String :=
    if options.showGlobals then globalListing session.env else ""
  let failing (output : String) (fault : Fault) (session : Session) : Transcript :=
    ⟨output ++ globals session, Report.ofFault name source fault, false⟩
  match compile options source with
  | (output, .error fault) => failing output fault freshSession
  | (output, .ok program) =>
    match Program.run budget program freshSession with
    | .done value session =>
      ⟨output ++ lines (value.toList.map Value.text) ++ globals session, [], true⟩
    | .failed fault session => failing output fault session
    | .unfinished => ⟨output, unfinishedComplaint, false⟩

/-- Runs a script whose text may have failed to be read. -/
def runFile (budget : Nat) (options : ScriptOptions) (name : String) :
    Except ReadFailure String → Transcript
  | .ok source => run budget options name source
  | .error failure =>
    ⟨"", [.text ("error: could not read script: " ++ name ++ "\n\nCaused by:\n    " ++
      failure.reason ++ "\n")], false⟩

end Script

end ScopeScript
