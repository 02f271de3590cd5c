import Treewalk.Command.Options
import Treewalk.Session
import Treewalk.Text
import Treewalk.Tree.Text

/-!
# What the command does

Everything the command writes and the code it exits with, as functions of its
arguments, of the script's contents or of the bytes on its standard input.
-/
namespace Treewalk.Command

structure Reply where
  exitCode : Nat
  out : String
  err : String
  deriving DecidableEq, Repr

/-- Fuel for programs that are meant to run as long as they like. -/
def plenty : Nat := 1 <<< 62

/-- Lines of text, each with its line break. -/
def lines (ls : List String) : String := String.join (ls.map (· ++ "\n"))

def versionText : String := "hz_repl 0.1.0\n"

def helpText : String := lines
  ["Runs SCRIPT if one is given, otherwise starts an interactive session.", "",
   "Usage: hezarfen [OPTIONS] [SCRIPT]", "",
   "Arguments:",
   "  [SCRIPT]  Path of the script to run", "",
   "Options:",
   "      --tokens   Print the token stream before running",
   "      --ast      Print the syntax tree before running",
   "  -h, --help     Print help",
   "  -V, --version  Print version"]

def usageText : String := "Usage: hezarfen [OPTIONS] [SCRIPT]\n"

def banner : String := "Hezarfen v0.1.0. Type 'exit' or press Ctrl + C to leave.\n"

/-- The listings of a source text that the options ask for. Statements are listed
if the tokens form a program, whatever lexical errors there are. Mirrors `dump`. -/
def listing (o : Options) (source : String) : String :=
  let s := scan source
  let tokens := if o.tokens then lines (s.tokens.map Token.text) else ""
  let tree := if o.tree then
      match parse s.tokens with
      | .ok program => lines (Stmt.texts program)
      | .error _ => ""
    else ""
  tokens ++ tree

/-- The diagnostics of a step, as written to the error stream. -/
def complaints (r : Report) : String := lines (r.diagnostics.map Diagnostic.text)

/-! ## Scripts -/

/-- Why a file cannot be read. -/
inductive Unreadable where
  | missing
  | directory
  | notText
  | other (reason : String)
  deriving DecidableEq, Repr

def Unreadable.message : Unreadable → String
  | missing => "No such file or directory (os error 2)"
  | directory => "Is a directory (os error 21)"
  | notText => "stream did not contain valid UTF-8"
  | other reason => reason

/-- The text that the bytes of a file encode. -/
def decode (bytes : ByteArray) : Except Unreadable String :=
  match String.fromUTF8? bytes with
  | some s => .ok s
  | none => .error .notText

/-- Run a script with the given contents; nothing if the script has no end. Mirrors
`run_file`. -/
def script (cfg : Setting) (fuel : Nat) (o : Options) (path : String)
    (contents : Except Unreadable String) : Option Reply :=
  match contents with
  | .error e => some ⟨66, "", "Could not read '" ++ path ++ "': " ++ e.message ++ "\n"⟩
  | .ok source => do
    let (r, _) ← Session.initial.run cfg fuel source
    return ⟨r.outcome.exitCode, listing o source ++ lines r.printed, complaints r⟩

/-! ## Interactive sessions -/

/-- What the user wants with a line of input. -/
inductive Entry where
  | leave
  | nothing
  | source (text : String)
  deriving DecidableEq, Repr

/-- Blanks around a line do not count. -/
def Entry.ofLine (line : String) : Entry :=
  let text := Text.trim line
  if text = "exit" || text = "quit" then .leave
  else if text.isEmpty then .nothing
  else .source text

/-- Run one entry and give what it writes to the two streams. -/
def enter (cfg : Setting) (fuel : Nat) (o : Options) (s : Session) (source : String) :
    Option (String × String × Session) := do
  let (r, s) ← s.runLine cfg fuel source
  return (listing o source ++ lines r.printed, complaints r, s)

/-- The lines of the input, without their line breaks; what follows the last line
break is a line too, unless it is empty. -/
def inputLines : List UInt8 → List (List UInt8)
  | [] => []
  | b :: bs =>
    if b = 10 then [] :: inputLines bs
    else
      match inputLines bs with
      | [] => [[b]]
      | line :: rest => (b :: line) :: rest

/-- The message for a line that is not text. -/
def undecodable : String :=
  "Error: Io(Error \x7b kind: InvalidData, message: \"stream did not contain valid UTF-8\" \x7d)\n"

/-- Run the lines of the input up to one that leaves or is not text. -/
def converse (cfg : Setting) (fuel : Nat) (o : Options) :
    Session → List (Option String) → Option Reply
  | _, [] => some ⟨0, "", ""⟩
  | _, none :: _ => some ⟨0, "", undecodable⟩
  | s, some line :: rest =>
    match Entry.ofLine line with
    | .leave => some ⟨0, "", ""⟩
    | .nothing => converse cfg fuel o s rest
    | .source text => do
      let (out, err, s) ← enter cfg fuel o s text
      let r ← converse cfg fuel o s rest
      return { r with out := out ++ r.out, err := err ++ r.err }

/-- A session over the whole of the input; nothing if a line has no end. Mirrors `repl`. -/
def interactive (cfg : Setting) (fuel : Nat) (o : Options) (input : ByteArray) : Option Reply := do
  let ls := (inputLines input.toList).map fun l => String.fromUTF8? ⟨l.toArray⟩
  let r ← converse cfg fuel o .initial ls
  return { r with out := banner ++ r.out }

/-! ## The command -/

/-- The command with the given arguments, `read` giving the contents of a file. -/
def reply (cfg : Setting) (fuel : Nat) (args : List String)
    (read : String → Except Unreadable String) (input : ByteArray) : Option Reply :=
  match request args with
  | .version => some ⟨0, versionText, ""⟩
  | .help => some ⟨0, helpText, ""⟩
  | .usageError => some ⟨64, "", usageText⟩
  | .start o =>
    match o.script with
    | some path => script cfg fuel o path (read path)
    | none => interactive cfg fuel o input

end Treewalk.Command
