/-!
# Runs of code points

Tables of characters are kept as runs. A run of a mapping has a first and a last code point, the
step between its code points, and the distance that each of them is moved.
-/
namespace Reshape.Text

/-- A run of a mapping holds a code point. -/
def runHolds (n first last step : Nat) : Bool :=
  first ≤ n && n ≤ last && (n - first) % step == 0

/-- The image of a code point under runs of mappings, itself if no run holds it. -/
def mapRuns (runs : List (Nat × Nat × Nat × Int)) (n : Nat) : Nat :=
  match runs.find? fun (first, last, step, _) => runHolds n first last step with
  | some (_, _, _, distance) => (n + distance).toNat
  | none => n

def inRanges (ranges : List (Nat × Nat)) (c : Char) : Bool :=
  ranges.any fun (first, last) => first ≤ c.toNat && c.toNat ≤ last

end Reshape.Text
