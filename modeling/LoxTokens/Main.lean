import LoxTokens.Program

/-!
# The executable

The program on the real standard streams and the real file system.
-/

namespace LoxTokens

/-- Reads a file from the file system. -/
def readScript (path : String) : IO (Except ReadError ByteArray) := do
  try
    return .ok (← IO.FS.readBinFile path)
  catch
    | .noFileOrDirectory .. => return .error .notFound
    | .inappropriateType _ code _ =>
      return .error (if code = 21 then .isDirectory else .notDirectory)
    | error => throw error

/-- Reads one line of bytes, without what ends it; nothing at the end of the input. -/
def readLine (stream : IO.FS.Stream) : IO (Option ByteArray) := do
  let mut line := ByteArray.empty
  repeat
    let byte ← stream.read 1
    line := line ++ byte
    if byte.isEmpty || byte.data.contains 10 then break
  return (inputLines line).head?

/-- Goes through rounds at the prompt, each with fresh writers that are emptied into the streams,
until the input ends or is no text. -/
partial def interact (stdin stdout stderr : IO.FS.Stream) : IO Status := do
  stdout.write Writer.unbounded.prompt.2.written
  stdout.flush
  match ← readLine stdin with
  | none => return .success
  | some line =>
    match takeTurn (.onto .unbounded) .unbounded line with
    | .ends ending =>
      let outcome := ending.outcome "stdin"
      stderr.write outcome.stderr
      stdout.write outcome.stdout
      return outcome.status
    | .goesOn console out =>
      stderr.write console.writer.written
      stdout.write out.written
      interact stdin stdout stderr

/-- Carries a request out on the real streams. -/
def serve (request : Request) : IO Status := do
  let stdout ← IO.getStdout
  let stderr ← IO.getStderr
  let print (outcome : Outcome) : IO Status := do
    stderr.write outcome.stderr
    stdout.write outcome.stdout
    stdout.flush
    return outcome.status
  match request with
  | .repl => interact (← IO.getStdin) stdout stderr
  | .tokenize script =>
    let content ← readScript script
    print (perform (fun _ => content) .empty request)
  | .help | .version => print (perform (fun _ => .error .notFound) .empty request)

end LoxTokens

/-- Runs the program on these arguments.  A failure of the system itself ends it with a notice. -/
def main (arguments : List String) : IO UInt32 := do
  match LoxTokens.Request.ofArguments arguments with
  | .error error =>
    IO.eprintln error.message
    return LoxTokens.Status.usageError.code.toUInt32
  | .ok request =>
    try
      return (← LoxTokens.serve request).code.toUInt32
    catch failure =>
      IO.eprintln (toString failure)
      return LoxTokens.Status.ioError.code.toUInt32
