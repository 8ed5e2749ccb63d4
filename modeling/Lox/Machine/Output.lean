/-!
# Output

The bytes that programs have printed.  An output may be limited to a number of bytes; of a text that
goes beyond the limit the bytes that fit are written.
-/

namespace Lox

structure Output where
  written : ByteArray
  limit? : Option Nat

def Output.empty (limit? : Option Nat) : Output :=
  ⟨.empty, limit?⟩

/-- The part of some bytes that fits. -/
def Output.fitting (o : Output) (bytes : ByteArray) : ByteArray :=
  match o.limit? with
  | none => bytes
  | some limit => bytes.extract 0 (limit - o.written.size)

/-- Writes the bytes that fit, and says whether all of them did. -/
def Output.write (o : Output) (bytes : ByteArray) : Bool × Output :=
  let fitting := o.fitting bytes
  (fitting.size = bytes.size, { o with written := o.written ++ fitting })

/-- The bytes written since there were `start` of them. -/
def Output.since (o : Output) (start : Nat) : ByteArray :=
  o.written.extract start o.written.size

end Lox
