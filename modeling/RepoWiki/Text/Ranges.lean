namespace RepoWiki.Text

def rangesFrom : Nat → List Nat → List (Nat × Nat)
  | last, gap :: extent :: rest =>
      (last + gap, last + gap + extent) :: rangesFrom (last + gap + extent) rest
  | _, _ => []

/-- Ranges by two numbers each: how far a range begins behind the last code point of the one before,
and how far its own last one is from its first. -/
def rangesOf (steps : List Nat) : Array (Nat × Nat) :=
  (rangesFrom 0 steps).toArray

def inRanges (ranges : Array (Nat × Nat)) (n : Nat) : Bool :=
  ranges.any fun r => r.1 ≤ n && n ≤ r.2

end RepoWiki.Text
