import RepoWiki.Pattern

namespace RepoWiki.Provider.TaggedPrompt

def systemStart : String := "<START_OF_SYSTEM_PROMPT>"

def systemEnd : String := "<END_OF_SYSTEM_PROMPT>"

def userStart : String := "<START_OF_USER_PROMPT>"

def userEnd : String := "<END_OF_USER_PROMPT>"

/-- The system part and the user part, with blanks around them that do not count. -/
def pattern : Pattern :=
  .chain [.word systemStart, .blanks, .group 1 (.lazy fun _ => true), .blanks, .word systemEnd,
    .blanks, .word userStart, .blanks, .group 2 (.lazy fun _ => true), .blanks, .word userEnd]

def parts? (s : String) : Option (String × String) :=
  (pattern.match? s).map fun m => (m.group 1, m.group 2)

/-- The two parts with no character between the tags and none of the parts longer than a line. -/
def linePattern : Pattern :=
  .chain [.word systemStart, .group 1 (.lazy Pattern.inLine), .word systemEnd, .word userStart,
    .group 2 (.lazy Pattern.inLine), .word userEnd]

def lineParts? (s : String) : Option (String × String) :=
  (linePattern.search? s).map fun m => (m.group 1, m.group 2)

end RepoWiki.Provider.TaggedPrompt
