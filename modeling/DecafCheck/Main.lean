import DecafCheck.Command.Execute

namespace DecafCheck.Command

def readError : IO.Error → ReadError
  | .noFileOrDirectory _ _ _ => .notFound
  | .inappropriateType (some _) _ _ => .notDirectory
  | .inappropriateType none _ _ => .isDirectory
  | .invalidArgument (some _) _ "name too long" => .nameTooLong
  | e => .other (toString e)

def readFile (path : String) : IO (Except ReadError String) := do
  try
    return decode (← IO.FS.readBinFile path)
  catch e =>
    return .error (readError e)

def send (reply : Reply) : IO UInt32 := do
  IO.print reply.output
  IO.eprint reply.errors
  return reply.exit.toUInt32

end DecafCheck.Command

def main (words : List String) : IO UInt32 := do
  match DecafCheck.Command.prepare words with
  | .error reply => DecafCheck.Command.send reply
  | .ok (options, input) =>
    DecafCheck.Command.send
      (DecafCheck.Command.checkInput options input (← DecafCheck.Command.readFile input))
