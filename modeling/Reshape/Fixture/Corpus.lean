import Reshape.Fixture.Run
import Reshape.Fixture.Settings
import Reshape.Json.Reader
/-!
# Fixture corpora

A corpus is a directory of fixture files, and its subdirectories are categories. It is held here as
the files' paths below the corpus root with their texts, so loading and running are functions of
what the files say.
-/
namespace Reshape.Fixture

/-- Why fixtures could not be loaded or did not pass. -/
inductive CorpusError where
  /-- There is no such file. -/
  | missing
  /-- A file that holds no fixture. -/
  | malformed (file : String)
  | noneMatching (pattern : String)
  | failed (message : String)
  deriving Repr, DecidableEq

/-- Files by their path below the root, given as directories and a file name. -/
structure Corpus where
  files : List (List String × String)

namespace Corpus

/-- The parts of a path between its slashes; empty parts and single dots say nothing. -/
def components (path : String) : List String :=
  (path.splitOn "/").filter fun part => !part.isEmpty && part != "."

def ofFiles (files : List (String × String)) : Corpus :=
  ⟨files.map fun (path, text) => (components path, text)⟩

/-- A file name without its extension. A dot at the start begins no extension. -/
def stem (file : String) : String :=
  match (file.toList.drop 1).reverse.span (· != '.') with
  | (_, []) => file
  | (_, _ :: rest) => String.ofList (file.toList.take 1 ++ rest.reverse)

def isFixtureFile (file : String) : Bool :=
  file.endsWith ".json" && file.length > ".json".length

/-- The category of a file in a directory, with forward slashes. -/
def categoryOf (directory : String) : String :=
  String.ofList (directory.toList.map fun c => if c == '\\' then '/' else c)

/-- The fixture of a file. One that does not name itself or its category has them from its path. -/
def load (directory file text : String) : Except CorpusError Fixture :=
  match (Json.membersOfText? text).bind Fixture.ofMembers? with
  | none => .error (.malformed file)
  | some f =>
    .ok { f with
      name := if f.name.isEmpty then stem file else f.name
      category := if f.category.isEmpty then categoryOf directory else f.category }

def directoryOf (path : List String) : String := "/".intercalate path.dropLast

/-- Every fixture file below the root, sorted by id; the first malformed one is the error. -/
def discover (c : Corpus) : Except CorpusError (List Fixture) := do
  let fixtures ← (c.files.filter fun file => (file.1.getLast?.map isFixtureFile).getD false).mapM
    fun (path, text) => load (directoryOf path) (path.getLastD "") text
  pure (sortBy (fun a b => compare a.id b.id) fixtures)

/-- Some file stands below the given directories. -/
def hasDirectory (c : Corpus) (directories : List String) : Bool :=
  c.files.any fun file => directories.isPrefixOf file.1.dropLast

/-- Follow the parts of a path, two dots leading back out of a directory that there is; nothing if
that would leave the root. -/
def follow? (c : Corpus) (at? : List String) : List String → Option (List String)
  | [] => some at?
  | ".." :: rest =>
    match at? with
    | [] => none
    | _ => if c.hasDirectory at? then follow? c at?.dropLast rest else none
  | part :: rest => follow? c (at? ++ [part]) rest

/-- Load a fixture by its id. -/
def loadById (c : Corpus) (id : String) : Except CorpusError Fixture :=
  let path := id ++ ".json"
  if path.startsWith "/" then .error .missing
  else
    match c.follow? [] (components path) with
    | none => .error .missing
    | some place =>
      match c.files.lookup place with
      | none => .error .missing
      | some text =>
        let silent (part : String) : Bool := part.isEmpty || part == "."
        let directories := (path.splitOn "/").dropLast
        let trimmed := ((directories.dropWhile silent).reverse.dropWhile silent).reverse
        load ("/".intercalate trimmed) (place.getLastD "") text

def ids (c : Corpus) : Except CorpusError (List String) :=
  c.discover.map fun fixtures => fixtures.map Fixture.id

/-- The fixtures whose id contains a text; a star selects all. -/
def filter (pattern : String) (fixtures : List Fixture) : List Fixture :=
  fixtures.filter fun f => pattern == "*" || containsText f.id pattern

/-- The fixtures that carry one of the tags; all of them if no tag is given. -/
def filterByTags (tags : List String) (fixtures : List Fixture) : List Fixture :=
  if tags.isEmpty then fixtures
  else fixtures.filter fun f => tags.any f.tags.contains

/-! ## Statistics -/

structure Statistics where
  total : Nat
  enabled : Nat
  byCategory : List (String × Nat)
  byOperation : List (String × Nat)
  deriving Repr, DecidableEq

/-- How often each text occurs, in the order of the texts. -/
def tally (texts : List String) : List (String × Nat) :=
  texts.foldl (fun counts text => Fields.insert text ((counts.lookup text).getD 0 + 1) counts) []

def statistics (c : Corpus) : Except CorpusError Statistics :=
  c.discover.map fun fixtures =>
    { total := fixtures.length
      enabled := (fixtures.filter Fixture.enabled).length
      byCategory := tally (fixtures.map Fixture.category)
      byOperation := tally (fixtures.map Fixture.operation) }

def Statistics.lines (s : Statistics) : List String :=
  let counts (group : List (String × Nat)) := group.map fun (name, count) => s!"  {name}: {count}"
  ["=== Corpus Statistics ===", s!"Total fixtures: {s.total}", s!"Enabled: {s.enabled}", "",
    "Fixtures by category:"] ++ counts s.byCategory ++ ["", "Fixtures by operation:"] ++
    counts s.byOperation

/-! ## Running -/

/-- Run one fixture: the lines reported, and the result if it passes. -/
def runOne (c : Corpus) (settings : Settings) (id : String) :
    List String × Except CorpusError Report :=
  match c.loadById id with
  | .error e => ([], .error e)
  | .ok f =>
    let r := f.run settings.compare
    let reported := if settings.verbose then r.lines true 0 else []
    if r.passed then (reported, .ok r)
    else
      let failure := r.failure.getD "unknown error"
      let difference := (r.difference.map ("\n" ++ ·)).getD ""
      (reported, .error (.failed s!"Fixture '{r.name}' failed: {failure}{difference}"))

/-- Run the fixtures whose id contains a text: the lines reported, and the results if all pass. -/
def runAll (c : Corpus) (settings : Settings) (pattern : String) :
    List String × Except CorpusError (List Report) :=
  match c.discover with
  | .error e => ([], .error e)
  | .ok all =>
    let fixtures := filter pattern all
    if fixtures.isEmpty then ([], .error (.noneMatching pattern))
    else
      let reports := fixtures.map (Fixture.run settings.compare)
      let failed := reports.filter fun r => !r.passed
      let passedCount := Paint.green.apply (toString (reports.length - failed.length))
      let failedCount := Paint.red.apply (toString failed.length)
      let results := Paint.bold.apply "Results"
      let reported := [s!"Running {fixtures.length} fixtures...", ""] ++
        reports.flatMap (fun r => r.lines settings.verbose 0) ++
        ["", Paint.bold.apply "=== Test Summary ===",
          s!"{results}: {passedCount} passed, {failedCount} failed"]
      if failed.isEmpty then (reported, .ok reports)
      else
        let names := ", ".intercalate (failed.map Report.name)
        (reported, .error (.failed s!"{failed.length} fixture(s) failed: {names}"))

end Corpus

/-- The text of an error; `root` is the corpus directory. -/
def CorpusError.message (root : String) : CorpusError → String
  | .missing => "IO error: no such file"
  | .malformed file => s!"Corpus error: {file}: malformed fixture"
  | .noneMatching pattern =>
    s!"Corpus error: No fixtures found matching pattern '{pattern}' in {root}"
  | .failed message => s!"Test failed: {message}"

end Reshape.Fixture
