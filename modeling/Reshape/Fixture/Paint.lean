/-!
# Coloured text

The control sequences that switch a colour or bold type on in front of a text and off behind it.
-/
namespace Reshape.Fixture

inductive Paint where
  | bold
  | red
  | green
  | boldRed
  | boldGreen
  deriving Repr, DecidableEq

namespace Paint

def code : Paint → String
  | bold => "1"
  | red => "31"
  | green => "32"
  | boldRed => "1;31"
  | boldGreen => "1;32"

/-- The text between the sequences. A line break at the end of the text comes before the reset. -/
def apply (p : Paint) (text : String) : String :=
  "\x1b[" ++ p.code ++ "m" ++ text ++ "\x1b[0m"

def applyIf (on : Bool) (p : Paint) (text : String) : String := if on then p.apply text else text

end Paint
end Reshape.Fixture
