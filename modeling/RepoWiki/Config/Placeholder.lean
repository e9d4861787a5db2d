import RepoWiki.Host
/-
Placeholders in a configuration: the name of an environment variable in braces behind a dollar
sign stands for the value of the variable. Values are not looked at again.
-/

namespace RepoWiki.Config

def isNameChar (c : Char) : Bool :=
  ('A' ≤ c && c ≤ 'Z') || ('0' ≤ c && c ≤ '9') || c = '_'

def placeholder? : List Char → Option (List Char × List Char)
  | '$' :: '\x7b' :: rest =>
      match rest.takeWhile isNameChar, rest.dropWhile isNameChar with
      | c :: name, '\x7d' :: after => some (c :: name, after)
      | _, _ => none
  | _ => none

theorem placeholder?_length {cs name after : List Char} (h : placeholder? cs = some (name, after)) :
    after.length < cs.length := by
  unfold placeholder? at h
  split at h
  next rest =>
    split at h
    next c name' after' hname hafter =>
      simp only [Option.some.injEq, Prod.mk.injEq] at h
      have hle : (rest.dropWhile isNameChar).length ≤ rest.length :=
        (List.dropWhile_suffix isNameChar).length_le
      rw [hafter, h.2] at hle
      simp only [List.length_cons] at hle ⊢
      omega
    next => simp at h
  next => simp at h

def writePlaceholder (name : List Char) : List Char :=
  '$' :: '\x7b' :: name ++ ['\x7d']

/-- A text with the values of its placeholders. A placeholder without a value stays. -/
def expandChars (value? : String → Option String) (cs : List Char) : List Char :=
  match _h : placeholder? cs with
  | some (name, after) =>
      let here := match value? (String.ofList name) with
        | some v => v.toList
        | none => writePlaceholder name
      here ++ expandChars value? after
  | none =>
      match cs with
      | [] => []
      | c :: rest => c :: expandChars value? rest
termination_by cs.length
decreasing_by
  · exact placeholder?_length _h
  · simp

mutual

def expand (value? : String → Option String) : Json → Json
  | .str s => .str (String.ofList (expandChars value? s.toList))
  | .arr items => .arr (expandItems value? items)
  | .obj fields => .obj (expandFields value? fields)
  | v => v

def expandItems (value? : String → Option String) : List Json → List Json
  | [] => []
  | v :: rest => expand value? v :: expandItems value? rest

def expandFields (value? : String → Option String) : List (String × Json) → List (String × Json)
  | [] => []
  | (k, v) :: rest => (k, expand value? v) :: expandFields value? rest

end

/-- A value with the variables of the environment. -/
def expandIn (env : List (String × String)) (v : Json) : Json :=
  expand (fun name => env.lookup name) v

end RepoWiki.Config
