import Reshape.Fixture.Compare
import Reshape.Number.Decimal
/-!
# Settings of a fixture run

Where the fixtures are, how results are compared, and how much is reported. The environment can
set them: the directory by `GOLDEN_CORPUS_DIR`, verbose reports by `GOLDEN_VERBOSE`, and colours
off by `NO_COLOR`, whatever its value.
-/
namespace Reshape.Fixture

structure Settings where
  corpusDirectory : String := "tests/corpus"
  compare : CompareOptions := {}
  verbose : Bool := false
  deriving Repr, Inhabited

namespace Settings

/-- A value that switches something on. -/
def isOn (value : String) : Bool :=
  value == "1" || String.ofList (value.toList.map Number.asciiLower) == "true"

/-- The settings for the variables of an environment. -/
def ofEnvironment (valueOf? : String → Option String) : Settings :=
  let standard : Settings := {}
  { corpusDirectory := (valueOf? "GOLDEN_CORPUS_DIR").getD standard.corpusDirectory
    compare := { standard.compare with
      colored := standard.compare.colored && (valueOf? "NO_COLOR").isNone }
    verbose := ((valueOf? "GOLDEN_VERBOSE").map isOn).getD standard.verbose }

end Settings
end Reshape.Fixture
