import RepoWiki.Text.Case
import RepoWiki.Text.Digit
import RepoWiki.Url.Host
/-
Addresses of the web, split into their parts. Nothing is decoded; a text without the marks of an
address is a path.
-/

namespace RepoWiki

open Text

/-- The parts of an address. Parts that are not there are empty. -/
structure Url where
  scheme : String
  authority : String
  path : String
  query : String
  fragment : String
  deriving DecidableEq, Repr

namespace Url

def isSchemeChar (c : Char) : Bool :=
  c.isAlpha || c.isDigit || oneOf "+-." c

def cutScheme (s : String) : String × String :=
  match cut? ":" s with
  | some (scheme, rest) =>
      match scheme.toList with
      | c :: more =>
          if c.isAlpha && (c :: more).all isSchemeChar then (lower scheme, rest) else ("", s)
      | [] => ("", s)
  | none => ("", s)

def cutAuthority (s : String) : String × String :=
  match s.toList with
  | '/' :: '/' :: rest =>
      let inside := fun c => !oneOf "/?#" c
      (String.ofList (rest.takeWhile inside), String.ofList (rest.dropWhile inside))
  | _ => ("", s)

def hiddenMarks : List Nat :=
  [0x2047, 0x2048, 0x2049, 0x2100, 0x2101, 0x2105, 0x2106, 0x2A74, 0xFE13, 0xFE16, 0xFE55, 0xFE56,
    0xFE5F, 0xFE6B, 0xFF03, 0xFF0F, 0xFF1A, 0xFF1F, 0xFF20]

/-- An authority has both brackets or none, a proper host between them, and no characters that
pass for marks. -/
def checkBrackets (authority : String) : Result Unit :=
  match hasInfix "[" authority, hasInfix "]" authority with
  | false, false => .ok ()
  | true, true =>
      let inside := ((cut? "[" authority).map (·.2)).getD ""
      checkBracketed (((cut? "]" inside).map (·.1)).getD inside)
  | _, _ => .error (.value "Invalid IPv6 URL")

def checkMarks (authority : String) : Result Unit :=
  if authority.toList.any fun c => hiddenMarks.contains c.toNat then
    .error (.value s!"netloc '{authority}' contains invalid characters under NFKC normalization")
  else .ok ()

def parameterSchemes : List String :=
  ["", "ftp", "hdl", "prospero", "http", "imap", "https", "shttp", "rtsp", "rtsps",
    "rtspu", "sip", "sips", "mms", "sftp", "tel"]

def dropParameters (scheme path : String) : String :=
  if parameterSchemes.contains scheme then
    match cutLast? "/" path with
    | some (before, last) => before ++ "/" ++ ((cut? ";" last).map (·.1)).getD last
    | none => ((cut? ";" path).map (·.1)).getD path
  else path

def isLeadIn (c : Char) : Bool :=
  c.toNat ≤ 0x20

def ofText (s : String) : Result Url := do
  let s := String.ofList <|
    (s.toList.dropWhile isLeadIn).filter fun c => !oneOf "\t\r\n" c
  let (scheme, rest) := cutScheme s
  let (authority, rest) := cutAuthority rest
  checkBrackets authority
  let (rest, fragment) := (cut? "#" rest).getD (rest, "")
  let (path, query) := (cut? "?" rest).getD (rest, "")
  checkMarks authority
  return ⟨scheme, authority, dropParameters scheme path, query, fragment⟩

def ofValue : Json → Result Url
  | .str s => ofText s
  | v => if v.truthy then .error (.attribute v.kindName "decode") else ofText ""

def hostAndPort (u : Url) : String × String :=
  let info := ((cutLast? "@" u.authority).map (·.2)).getD u.authority
  match cut? "[" info with
  | some (_, inside) =>
      let (host, after) := (cut? "]" inside).getD (inside, "")
      (host, ((cut? ":" after).map (·.2)).getD "")
  | none => (cut? ":" info).getD (info, "")

def port? (u : Url) : Result (Option Nat) :=
  match u.hostAndPort.2 with
  | "" => .ok none
  | port =>
      if port.toList.all Char.isDigit then
        match readNat port.toList with
        | .ok n => if n ≤ 65535 then .ok (some n) else .error (.value "Port out of range 0-65535")
        | .error _ => .error (.value (tooLongMessage port.length))
      else
        .error (.value ("Port could not be cast to integer value as " ++ display port))

end Url
end RepoWiki
