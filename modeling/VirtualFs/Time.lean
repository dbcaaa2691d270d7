namespace VirtualFs

/-- A point in time, in nanoseconds since the epoch; earlier times are negative. -/
abbrev Time := Int

/-- What the clock shows at each stage of one operation. Nothing is assumed of it: it may stand
still or go back. -/
abbrev Clock := Nat → Time

/-- The readings from stage `n` on. -/
def Clock.later (clock : Clock) (n : Nat) : Clock :=
  fun k => clock (n + k)

/-- Nanoseconds in a second. -/
def nanosPerSecond : Int := 1000000000

/-- Whole seconds since the epoch, rounded down. -/
def Time.seconds (t : Time) : Int :=
  Int.fdiv t nanosPerSecond

/-- Nanoseconds past the whole second, never negative. -/
def Time.nanos (t : Time) : Int :=
  Int.fmod t nanosPerSecond

/-- The time `seconds` and `nanos` after the epoch. -/
def Time.ofParts (seconds nanos : Int) : Time :=
  seconds * nanosPerSecond + nanos

end VirtualFs
