import RepoWiki.Json.Access

namespace RepoWiki

structure Clock where
  year : Nat := 1970
  month : Nat := 1
  day : Nat := 1
  hour : Nat := 0
  minute : Nat := 0
  second : Nat := 0

namespace Clock

def padded (width n : Nat) : String :=
  let digits := Nat.toDigits 10 n
  String.ofList (List.replicate (width - digits.length) '0' ++ digits)

def dateWith (mark : String) (c : Clock) : String :=
  Text.join mark [padded 4 c.year, padded 2 c.month, padded 2 c.day]

def timeWith (mark : String) (c : Clock) : String :=
  Text.join mark [padded 2 c.hour, padded 2 c.minute, padded 2 c.second]

def stamp (c : Clock) : String :=
  c.dateWith "" ++ "_" ++ c.timeWith ""

def spoken (c : Clock) : String :=
  c.dateWith "-" ++ " " ++ c.timeWith ":"

def iso (c : Clock) : String :=
  c.dateWith "-" ++ "T" ++ c.timeWith ":"

def perSecond : Int := 1000000000

/-- A time in seconds as whole nanoseconds. The whole seconds come first; what is left of a second
is rounded down. -/
def nanoseconds : Json → Int
  | .real x =>
      let whole := x.toInt64.toInt
      let part := (x - Float.ofInt whole) * 1000000000.0
      whole * perSecond + part.floor.toInt64.toInt
  | v => v.asInt?.getD 0 * perSecond

/-- A time in nanoseconds as whole milliseconds. The time is first told in seconds, as the nearest
double; the milliseconds in it are rounded toward zero. -/
def milliseconds (n : Int) : Int :=
  let seconds := Float.ofInt (n.fdiv perSecond) + 1e-9 * Float.ofInt (n.fmod perSecond)
  (seconds * 1000.0).toInt64.toInt

end Clock
end RepoWiki
