import VideoFingerprint.Video.Info

/-!
Time limits. A clock is looked at from time to time, and a limit has passed once the clock
shows a moment after its end. Nothing is assumed about what the clock shows: that is a part of
what happens while a program runs.
-/

namespace VideoFingerprint

/-- A number of seconds, the moment at which they are over, and what the clock shows at the
coming looks; moments are in nanoseconds. -/
structure TimeLimit where
  seconds : Nat
  moment : Int
  clock : Nat → Int

namespace TimeLimit

/-- The moment some seconds after another one. -/
def later (moment : Int) (seconds : Nat) : Int := moment + seconds * Duration.nanosPerSecond

/-- Moments are held only as long as their seconds fit 63 bits. -/
def firstUnheld : Int := later 0 (UInt64.size / 2)

/-- The limit of some seconds after the moment that the clock shows first, if
it can be held. -/
def after? (seconds : Nat) (clock : Nat → Int) : Option TimeLimit :=
  if later (clock 0) seconds < firstUnheld then
    some ⟨seconds, later (clock 0) seconds, fun i => clock (i + 1)⟩
  else none

def hasPassed (l : TimeLimit) : Bool := l.moment < l.clock 0

/-- The limit after a look at the clock. -/
def looked (l : TimeLimit) : TimeLimit := { l with clock := fun i => l.clock (i + 1) }

/-- The moment until which a program is waited for: the end of the limit, or now
if it is over. -/
def lastMoment (l : TimeLimit) : Int := max l.moment (l.clock 0)

end TimeLimit

end VideoFingerprint
