/-!
# Command line options

Arguments are read from left to right. The first one that asks for the version
or for help, or that is wrong, decides; nothing after it is looked at.
-/
namespace Treewalk.Command

structure Options where
  /-- List the tokens of every source text before it runs. -/
  tokens : Bool
  /-- List the statements of every source text before it runs. -/
  tree : Bool
  script : Option String
  deriving DecidableEq, Repr

/-- What the command line asks for. -/
inductive Request where
  | start (options : Options)
  | version
  | help
  | usageError
  deriving DecidableEq, Repr

/-- The script: at most one, and its name is not empty. -/
def positional (o : Options) (arg : String) : Option Options :=
  if o.script.isSome || arg.isEmpty then none else some { o with script := some arg }

/-- Arguments after which options may no longer follow. -/
def readPositionals : Options → List String → Request
  | o, [] => .start o
  | o, arg :: args =>
    match positional o arg with
    | none => .usageError
    | some o => readPositionals o args

/-- Read the arguments after those that have led to the given options. -/
def readArguments : Options → List String → Request
  | o, [] => .start o
  | o, arg :: args =>
    match arg.toList with
    | ['-', '-'] => readPositionals o args
    | '-' :: '-' :: _ =>
      match arg with
      | "--version" => .version
      | "--help" => .help
      | "--tokens" => if o.tokens then .usageError else readArguments { o with tokens := true } args
      | "--ast" => if o.tree then .usageError else readArguments { o with tree := true } args
      | _ => .usageError
    | '-' :: 'V' :: _ => .version
    | '-' :: 'h' :: _ => .help
    | '-' :: _ :: _ => .usageError
    | _ =>
      match positional o arg with
      | none => .usageError
      | some o => readArguments o args

def request (args : List String) : Request := readArguments ⟨false, false, none⟩ args

end Treewalk.Command
