import VaultTransfers.Time.Calendar

/-!
Moments in UTC. An instant is a count of seconds since 1970 and the nanoseconds
in that second. A leap second has no count of its own: it prolongs the second
in front of it, whose nanoseconds then run on to two milliards. Any second may be
prolonged; clocks in UTC do so with the last one of a minute only.
-/

namespace VaultTransfers

/-- A moment between the years -262143 and 262142. -/
structure Instant where
  second : Int
  nanos : Nat
  first_le : -8334601228800 ≤ second
  le_last : second ≤ 8210266876799
  nanos_lt : nanos < 2000000000
deriving DecidableEq

namespace Instant

def of? (second : Int) (nanos : Nat) : Option Instant :=
  if h : (-8334601228800 ≤ second ∧ second ≤ 8210266876799) ∧ nanos < 2000000000 then
    some ⟨second, nanos, h.1.1, h.1.2, h.2⟩
  else none

/-- A whole second of Unix time, if it can be represented. -/
def ofUnix? (second : Int) : Option Instant :=
  of? second 0

/-- The instant nearest to a whole number of milliseconds of Unix time. -/
def ofUnixMillis (millis : Int) : Instant :=
  let ms := max (-8334601228800000) (min millis 8210266876799000)
  ⟨ms / 1000, (ms % 1000).toNat * 1000000, by omega, by omega, by omega⟩

/-- Instants are ordered by second and then by nanoseconds. -/
def before (a b : Instant) : Bool :=
  a.second < b.second || a.second = b.second && a.nanos < b.nanos

/-- Whether the second runs on into a leap second. -/
def isLeap (t : Instant) : Bool :=
  1000000000 ≤ t.nanos

def date (t : Instant) : CivilDate :=
  CivilDate.ofDays (t.second / 86400)

/-- The second of the day, from 0 to 86399. -/
def secondOfDay (t : Instant) : Nat :=
  (t.second % 86400).toNat

/-- Seconds from 1970 to 2000. -/
def millennium : Int := 946684800

/-- Whole microseconds since 2000-01-01, cut toward that date. A leap second counts as the second
behind it. -/
def microsSinceMillennium (t : Instant) : Int :=
  ((t.second - millennium) * 1000000000 + t.nanos).tdiv 1000

/-- The instant a whole number of microseconds from 2000-01-01. -/
def ofMicrosSinceMillennium? (micros : Int) : Option Instant :=
  of? (millennium + micros / 1000000) ((micros % 1000000).toNat * 1000)

end Instant

end VaultTransfers
