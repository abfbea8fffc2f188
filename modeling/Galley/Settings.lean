import Galley.Duration
/-!
# Settings of the engine
-/
namespace Galley

structure Settings where
  /-- How many tasks of one queue run at once. -/
  workers : Nat
  /-- How long a queue goes without a look at most. -/
  poll : Duration
  /-- How late a task may be before it is reported. -/
  outdated : Duration
  /-- How long running tasks are waited for at the end. -/
  drain : Duration
  deriving DecidableEq, Repr

namespace Settings

def standard : Settings :=
  ⟨10, .ofMillis 250, .ofMillis 1000, .ofMillis 5000⟩

/-- The greatest number of places that can be handed out. -/
def maxPlaces : Nat := 2305843009213693951

/-- Whether there can be so many workers. -/
def canStart (s : Settings) : Bool :=
  s.workers ≤ maxPlaces

end Settings

end Galley
