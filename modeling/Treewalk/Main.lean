import Std.Time.DateTime.Timestamp
import Treewalk.Command.Reply

/-!
# The command

Reads arguments, files and standard input and writes what `Treewalk.Command`
computes. The clock starts at the present time and gains a microsecond each time
a program reads it.
-/
namespace Treewalk.Command

/-- The clock of a run that starts now. -/
def settingNow : IO Setting := do
  let now ← Std.Time.Timestamp.now
  let start := Float.ofInt now.toNanosecondsSinceUnixEpoch.val / 1e9
  return { clock := fun n => start + n.toFloat * 1e-6 }

/-- The contents of a file. -/
def readScript (path : String) : IO (Except Unreadable String) := do
  try
    let bytes ← IO.FS.readBinFile path
    return decode bytes
  catch
    | .noFileOrDirectory .. => return .error .missing
    | e =>
      let text := toString e
      return .error (if (text.splitOn "directory").length > 1 then .directory else .other text)

/-- Write a reply and exit with its code. -/
def writeReply (r : Option Reply) : IO UInt32 := do
  match r with
  | none => return 70
  | some r =>
    IO.print r.out
    IO.eprint r.err
    return r.exitCode.toUInt32

/-- Run the lines of the standard input until one leaves. -/
partial def converseOn (cfg : Setting) (o : Options) (input : IO.FS.Stream) (s : Session) :
    IO UInt32 := do
  let bytes ← readLine ByteArray.empty
  if bytes.isEmpty then return 0
  match String.fromUTF8? bytes with
  | none =>
    IO.eprint undecodable
    return 0
  | some line =>
    match Entry.ofLine line with
    | .leave => return 0
    | .nothing => converseOn cfg o input s
    | .source text =>
      match enter cfg plenty o s text with
      | none => return 70
      | some (out, err, s) =>
        IO.print out
        IO.eprint err
        (← IO.getStdout).flush
        converseOn cfg o input s
where
  /-- The bytes of a line with its line break. -/
  readLine (line : ByteArray) : IO ByteArray := do
    let b ← input.read 1
    if b.isEmpty then return line
    else if b.toList = [10] then return line ++ b
    else readLine (line ++ b)

/-- Run the command. -/
def start (args : List String) : IO UInt32 := do
  let cfg ← settingNow
  match request args with
  | .start o =>
    match o.script with
    | some path => writeReply (script cfg plenty o path (← readScript path))
    | none =>
      IO.print banner
      (← IO.getStdout).flush
      converseOn cfg o (← IO.getStdin) .initial
  | _ => writeReply (reply cfg plenty args (fun _ => .error .missing) ByteArray.empty)

end Treewalk.Command

def main (args : List String) : IO UInt32 := Treewalk.Command.start args
