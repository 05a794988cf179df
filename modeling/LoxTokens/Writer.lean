/-!
# Writers

A writer that may run full and may cease to flush, with all it has taken so far.

- `Writer.write` keeps what there is room for and says whether that was everything
- `Writer.flush` says whether the flush succeeded
-/

namespace LoxTokens

/-- A destination for bytes: what it holds, how many bytes it takes in all, and how many more
flushes succeed.  Where no number is given there is no bound. -/
structure Writer where
  written : ByteArray
  capacity : Option Nat
  flushes : Option Nat

namespace Writer

/-- An empty writer with these bounds. -/
def fresh (capacity flushes : Option Nat) : Writer where
  written := .empty
  capacity := capacity
  flushes := flushes

/-- An empty writer without bounds. -/
def unbounded : Writer :=
  fresh none none

/-- How many of `count` more bytes the writer takes. -/
def room (w : Writer) (count : Nat) : Nat :=
  match w.capacity with
  | none => count
  | some capacity => min count (capacity - w.written.size)

/-- Adds as many of these bytes as there is room for, and says whether that is all of them. -/
def write (w : Writer) (bytes : ByteArray) : Bool × Writer :=
  let kept := w.room bytes.size
  (decide (bytes.size ≤ kept), { w with written := w.written ++ bytes.extract 0 kept })

/-- Writes a text in its encoding. -/
def print (w : Writer) (text : String) : Bool × Writer :=
  w.write text.toUTF8

/-- Uses up one of the flushes that succeed, if there is one left. -/
def flush (w : Writer) : Bool × Writer :=
  match w.flushes with
  | none => (true, w)
  | some 0 => (false, w)
  | some (left + 1) => (true, { w with flushes := some left })

end Writer

end LoxTokens
