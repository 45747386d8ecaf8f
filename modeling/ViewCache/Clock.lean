namespace ViewCache

inductive TimeSource
  | wall
  | manual
  deriving DecidableEq, Repr

structure Clock where
  manual : Int := 1000000
  wall : Int := 1
  deriving DecidableEq, Repr

namespace Clock

def now (clock : Clock) : TimeSource → Int
  | .wall => clock.wall
  | .manual => clock.manual

inductive Move
  | stay
  | advance (millis : Int)
  | set (millis : Int)
  deriving DecidableEq, Repr

/-- The clock moved by hand has 64 bits, beyond which it wraps around. -/
def move (clock : Clock) : Move → Clock
  | .stay => clock
  | .advance millis => { clock with manual := (clock.manual + millis).bmod 18446744073709551616 }
  | .set millis => { clock with manual := millis }

end Clock

end ViewCache
