/-!
# Timing

When an evaluation started and when it ended, and how long it took. A duration is a
whole number of nanoseconds; it is negative if the end lies before the start. Its
larger units are truncated toward zero, so that the seconds and the nanoseconds beside
them never have opposite signs.
-/

namespace Dataflow

/-- An instant, as the time since the epoch. -/
structure Instant where
  /-- The seconds. -/
  seconds : Int
  /-- The nanoseconds beside the seconds. -/
  nanoseconds : Int
deriving DecidableEq

/-- The nanoseconds from the epoch to an instant. -/
def Instant.sinceEpoch (t : Instant) : Int := t.seconds * 1000000000 + t.nanoseconds

/-- The length of a span of time. -/
structure Duration where
  /-- The nanoseconds. -/
  nanoseconds : Int
deriving DecidableEq

namespace Duration

/-- The whole seconds, truncated toward zero. -/
def seconds (d : Duration) : Int := d.nanoseconds.tdiv 1000000000

/-- The nanoseconds beside the whole seconds. -/
def subseconds (d : Duration) : Int := d.nanoseconds.tmod 1000000000

/-- The whole milliseconds, truncated toward zero. -/
def milliseconds (d : Duration) : Int := d.nanoseconds.tdiv 1000000

/-- Whether the span goes back in time. -/
def isNegative (d : Duration) : Bool := d.nanoseconds < 0

end Duration

/-- The start and the end of an evaluation. -/
structure Timing where
  /-- The start. -/
  start : Instant
  /-- The end. -/
  stop : Instant
deriving DecidableEq

/-- How long the evaluation took. -/
def Timing.duration (t : Timing) : Duration := ⟨t.stop.sinceEpoch - t.start.sinceEpoch⟩

end Dataflow
