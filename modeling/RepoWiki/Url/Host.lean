import RepoWiki.Fault
/-
The host between square brackets in an address of the web: an address of the sixth version of
the Internet protocol, or one of a version yet to come.
-/

namespace RepoWiki.Url

def isHexDigit (c : Char) : Bool :=
  c.isDigit || ('a' ≤ c && c ≤ 'f') || ('A' ≤ c && c ≤ 'F')

def isOctet (s : String) : Bool :=
  let cs := s.toList
  !cs.isEmpty && cs.all Char.isDigit && cs.length ≤ 3 &&
    (cs.length = 1 || cs.head? != some '0') &&
    cs.foldl (fun n c => 10 * n + (c.toNat - 48)) 0 ≤ 255

def isVersion4 (s : String) : Bool :=
  let parts := Text.splitOn "." s
  parts.length = 4 && parts.all isOctet

def isGroup (s : String) : Bool :=
  let cs := s.toList
  !cs.isEmpty && cs.length ≤ 4 && cs.all isHexDigit

def expandLast (parts : List String) : Option (List String) :=
  match parts.getLast? with
  | some last =>
      if Text.hasInfix "." last then
        if isVersion4 last then some (parts.dropLast ++ ["0", "0"]) else none
      else some parts
  | none => some parts

def innerGaps (parts : List String) : List Nat :=
  (List.range parts.length).filter fun i =>
    0 < i && i + 1 < parts.length && parts[i]? == some ""

def areGroups (parts : List String) : Bool :=
  match innerGaps parts with
  | [] => parts.length = 8 && parts.all isGroup
  | [gap] =>
      let before := parts.take gap
      let after := parts.drop (gap + 1)
      let before := if before.head? == some "" then before.tail else before
      let after := if after.getLast? == some "" then after.dropLast else after
      (parts.head? != some "" || before.isEmpty) &&
        (parts.getLast? != some "" || after.isEmpty) &&
        before.length + after.length < 8 && before.all isGroup && after.all isGroup
  | _ => false

def isVersion6 (s : String) : Bool :=
  let (address, zoneOk) :=
    match Text.cut? "%" s with
    | some (a, zone) => (a, zone ≠ "" && !Text.hasInfix "%" zone)
    | none => (s, true)
  let parts := Text.splitOn ":" address
  zoneOk && 3 ≤ parts.length &&
    match expandLast parts with
    | some parts => parts.length ≤ 9 && areGroups parts
    | none => false

def isFuture (s : String) : Bool :=
  match s.toList with
  | 'v' :: rest =>
      let version := rest.takeWhile isHexDigit
      match rest.dropWhile isHexDigit with
      | '.' :: _ :: _ => !version.isEmpty
      | _ => false
  | _ => false

def checkBracketed (host : String) : Result Unit :=
  if Text.startsWith "v" host then
    if isFuture host then .ok () else .error (.value "IPvFuture address is invalid")
  else if isVersion4 host then .error (.value "An IPv4 address cannot be in brackets")
  else if isVersion6 host then .ok ()
  else .error (.value s!"{Text.display host} does not appear to be an IPv4 or IPv6 address")

end RepoWiki.Url
