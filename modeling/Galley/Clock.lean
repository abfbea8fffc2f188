import Galley.Duration
/-!
# Clocks

A clock that moves only when it is told to. Its time is nanoseconds since the epoch in a signed
64-bit integer and stops at the greatest one.
-/
namespace Galley

structure Clock where
  time : Int
  deriving DecidableEq, Repr, Inhabited

namespace Clock

def start : Clock := ⟨1700000000000000000⟩

def advance (c : Clock) (d : Duration) : Clock :=
  ⟨Text.Numeral.saturate (c.time + d.signedNanos)⟩

end Clock

end Galley
