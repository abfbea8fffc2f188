import Galley.Text.Numeral
/-!
# Durations

A span of time in whole nanoseconds.
-/
namespace Galley

structure Duration where
  nanos : Nat
  deriving DecidableEq, Repr, Inhabited

namespace Duration

def ofSeconds (n : Nat) : Duration := ⟨n * 1000000000⟩

def ofMillis (n : Nat) : Duration := ⟨n * 1000000⟩

def seconds (d : Duration) : Nat := d.nanos / 1000000000

/-- The nanoseconds beyond the whole seconds. -/
def fraction (d : Duration) : Nat := d.nanos % 1000000000

/-- The nanoseconds as a signed 64-bit integer, the greatest one for all longer spans. -/
def signedNanos (d : Duration) : Int :=
  min (d.nanos : Int) Text.Numeral.maxI64

/-- The span as far as its nanoseconds fit in 64 bits. -/
def capped (d : Duration) : Duration :=
  ⟨min d.nanos Text.Numeral.maxU64⟩

@[simp] theorem capped_capped (d : Duration) : d.capped.capped = d.capped :=
  congrArg Duration.mk (Nat.min_eq_left (Nat.min_le_right d.nanos Text.Numeral.maxU64))

end Duration

end Galley
