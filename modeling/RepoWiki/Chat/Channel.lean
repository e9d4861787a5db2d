namespace RepoWiki.Chat

inductive Channel where
  /-- A stream of pieces, after an answer of the web server. -/
  | stream
  /-- A line that is open in both directions until it is closed. -/
  | socket
  deriving DecidableEq, Repr

def Channel.tokenLimit : Channel → Nat
  | .stream => 8000
  | .socket => 20000

end RepoWiki.Chat
