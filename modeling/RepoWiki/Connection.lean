import RepoWiki.Json.Basic

namespace RepoWiki

inductive Event where
  | accept
  | send (v : Json)
  | close

structure Connection where
  events : List Event := []
  attempts : Nat := 0
  /-- The attempts that fail, counted from one, and what each failure says. -/
  faults : List (Nat × String) := []

namespace Connection

def add (e : Event) (c : Connection) : Connection :=
  { c with events := c.events ++ [e] }

def begin (c : Connection) : Connection :=
  { c with attempts := c.attempts + 1 }

def fault? (c : Connection) : Option String :=
  (c.faults.find? fun f => f.1 == c.attempts).map (·.2)

def sent (c : Connection) : List Json :=
  c.events.filterMap fun e =>
    match e with
    | .send v => some v
    | _ => none

end Connection
end RepoWiki
