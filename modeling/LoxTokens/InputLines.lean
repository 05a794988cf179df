/-!
# Lines of input

Input bytes as lines, before they are known to be text.
-/

namespace LoxTokens

/-- Drops the carriage return that a line, given backwards, may end in. -/
def dropReturn : List UInt8 → List UInt8
  | 13 :: line => line
  | line => line

/-- The lines of the bytes to come, given the beginning of the current line backwards and the
lines already done. -/
def linesOnto (done : Array ByteArray) (line : List UInt8) : List UInt8 → Array ByteArray
  | [] => if line.isEmpty then done else done.push line.reverse.toByteArray
  | byte :: rest =>
    if byte = 10 then linesOnto (done.push (dropReturn line).reverse.toByteArray) [] rest
    else linesOnto done (byte :: line) rest

/-- The lines of an input.  A newline ends a line, and a carriage return right before it goes
with it; bytes after the last newline make a line of their own, as they are. -/
def inputLines (input : ByteArray) : List ByteArray :=
  (linesOnto #[] [] input.data.toList).toList

end LoxTokens
