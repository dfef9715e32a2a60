import Reshape.Regex.CharClass
/-!
# Regular expressions

A match is found without going back in the text. What may still have to be matched is kept as an
ordered list of rests, the preferred one first. When one of them is done, those after it are given
up, and of several ways to the same rest only the first counts.
-/
namespace Reshape.Regex

/-- Conditions on the characters before and after a position. -/
inductive Look where
  | textStart
  | textEnd
  | lineStart
  | lineEnd
  | lineStartCrlf
  | lineEndCrlf
  | wordBoundary (ascii : Bool)
  | notWordBoundary (ascii : Bool)
  | wordStart (ascii : Bool)
  | wordEnd (ascii : Bool)
  | wordStartHalf (ascii : Bool)
  | wordEndHalf (ascii : Bool)
  deriving Repr, DecidableEq

/-- There is a word character on one side. -/
def isWordSide (ascii : Bool) (c : Option Char) : Bool :=
  match c with
  | none => false
  | some c => if ascii then isAsciiWordChar c else isWordChar c

def Look.holds (before after : Option Char) : Look → Bool
  | textStart => before.isNone
  | textEnd => after.isNone
  | lineStart => before.isNone || before == some '\n'
  | lineEnd => after.isNone || after == some '\n'
  | lineStartCrlf =>
    before.isNone || before == some '\n' || (before == some '\r' && after != some '\n')
  | lineEndCrlf =>
    after.isNone || after == some '\r' || (after == some '\n' && before != some '\r')
  | wordBoundary ascii => isWordSide ascii before != isWordSide ascii after
  | notWordBoundary ascii => isWordSide ascii before == isWordSide ascii after
  | wordStart ascii => !isWordSide ascii before && isWordSide ascii after
  | wordEnd ascii => isWordSide ascii before && !isWordSide ascii after
  | wordStartHalf ascii => !isWordSide ascii before
  | wordEndHalf ascii => !isWordSide ascii after

inductive Expr where
  | empty
  | set (chars : CharClass)
  | look (condition : Look)
  | seq (first second : Expr)
  /-- The first alternative is preferred. -/
  | alt (first second : Expr)
  /-- A fixed number of rounds. -/
  | times (body : Expr) (count : Nat)
  /-- A number of rounds at most; another round is preferred to leaving if it is greedy. -/
  | upTo (body : Expr) (greedy : Bool) (count : Nat)
  /-- Any number of rounds. -/
  | loop (body : Expr) (greedy : Bool)
  /-- One round at least. -/
  | rounds (body : Expr) (greedy : Bool)
  deriving Repr, DecidableEq

namespace Expr

/-- The expression matches somewhere without taking a character. -/
def nullable : Expr → Bool
  | empty => true
  | set _ => false
  | look _ => true
  | seq a b => a.nullable && b.nullable
  | alt a b => a.nullable || b.nullable
  | times body count => count == 0 || body.nullable
  | upTo _ _ _ => true
  | loop _ _ => true
  | rounds body _ => body.nullable

/-- Try the expression, or do without it. -/
def optional (e : Expr) (greedy : Bool) : Expr := upTo e greedy 1

/-- Any number of rounds. Where a round may take no character, the first is tried apart. -/
def star (e : Expr) (greedy : Bool) : Expr :=
  if e.nullable then optional (rounds e greedy) greedy else loop e greedy

def atLeast (e : Expr) (greedy : Bool) : (least : Nat) → Expr
  | 0 => star e greedy
  | least + 1 => seq (times e least) (rounds e greedy)

/-- From `least` to `most` rounds. -/
def between (e : Expr) (greedy : Bool) (least most : Nat) : Expr :=
  seq (times e least) (upTo e greedy (most - least))

/-- The number of constructors, each round of a fixed number of rounds counted. -/
def size : Expr → Nat
  | empty => 1
  | set _ => 1
  | look _ => 1
  | seq a b => a.size + b.size + 1
  | alt a b => a.size + b.size + 1
  | times body count => count * (body.size + 1) + 1
  | upTo body _ count => count * (body.size + 1) + 1
  | loop body _ => body.size + 1
  | rounds body _ => body.size + 1

end Expr

/-- What still has to be matched, one expression after the other. -/
abbrev Rest := List Expr

/-- What a rest asks for at a position. -/
inductive Move where
  | done
  | take (chars : CharClass) (rest : Rest)
  /-- Go on with other rests at the same position, the preferred one first. -/
  | turn (rests : List Rest)

def move (before after : Option Char) : Rest → Move
  | [] => .done
  | .empty :: rest => .turn [rest]
  | .set chars :: rest => .take chars rest
  | .look condition :: rest => .turn (if condition.holds before after then [rest] else [])
  | .seq a b :: rest => .turn [a :: b :: rest]
  | .alt a b :: rest => .turn [a :: rest, b :: rest]
  | .times _ 0 :: rest => .turn [rest]
  | .times body (count + 1) :: rest => .turn [body :: .times body count :: rest]
  | .upTo _ _ 0 :: rest => .turn [rest]
  | .upTo body greedy (count + 1) :: rest =>
    let round := body :: .upTo body greedy count :: rest
    .turn (if greedy then [round, rest] else [rest, round])
  | .loop body greedy :: rest =>
    let round := body :: .loop body greedy :: rest
    .turn (if greedy then [round, rest] else [rest, round])
  | .rounds body greedy :: rest => .turn [body :: .loop body greedy :: rest]

/-- Go on with pending rests in order, up to one that is done: the rests behind the character
`after`, and whether a match ends here. A rest that was met before leads to nothing new. -/
def advance (before after : Option Char) :
    (fuel : Nat) → (pending met next : List Rest) → List Rest × Bool
  | 0, _, _, next => (next, false)
  | _, [], _, next => (next, false)
  | fuel + 1, rest :: pending, met, next =>
    if met.contains rest then advance before after fuel pending met next
    else match move before after rest with
      | .done => (next, true)
      | .take chars behind =>
        let taken := (after.map chars.contains).getD false
        advance before after fuel pending (rest :: met) (if taken then next ++ [behind] else next)
      | .turn rests => advance before after fuel (rests ++ pending) (rest :: met) next

/-- Enough fuel to go on with a rest. Each constructor of its expressions leads to two rests at
most that were not met before, and each of these to two others. -/
def effort (rest : Rest) : Nat := rest.foldl (fun n e => n + 4 * e.size) 4

def advanceAll (before after : Option Char) (rests : List Rest) : List Rest × Bool :=
  advance before after (rests.foldl (fun n rest => n + effort rest) 0) rests [] []

/-- The length of the match at a position, if there is one; `found` is the best so far. -/
def matchLength (before : Option Char) (rests : List Rest) (taken : Nat) (found : Option Nat) :
    List Char → Option Nat
  | [] => if (advanceAll before none rests).2 then some taken else found
  | c :: text =>
    let (next, done) := advanceAll before (some c) rests
    let found := if done then some taken else found
    if next.isEmpty then found else matchLength (some c) next (taken + 1) found text

/-- The length of the preferred match of an expression at a position. -/
def Expr.matchAt (e : Expr) (before : Option Char) (text : List Char) : Option Nat :=
  matchLength before [[e]] 0 none text

/-- The pieces of a text between matches. `piece` is the piece in progress, last character first;
an empty match right behind another match does not count. Every round takes a character or a match
that the next round cannot take, so twice the length of the text is enough `fuel`. -/
def splitFrom (e : Expr) : (fuel : Nat) → (before : Option Char) → (behindMatch : Bool) →
    (piece text : List Char) → List (List Char)
  | 0, _, _, piece, text => [piece.reverse ++ text]
  | fuel + 1, before, behindMatch, piece, text =>
    let here := (e.matchAt before text).filter fun length => !(behindMatch && length == 0)
    match here with
    | some length =>
      let passed := text.take length
      piece.reverse ::
        splitFrom e fuel (passed.getLast?.or before) true [] (text.drop length)
    | none =>
      match text with
      | [] => [piece.reverse]
      | c :: rest => splitFrom e fuel (some c) false (c :: piece) rest

/-- The pieces of a text between the matches of an expression, leftmost matches first. -/
def Expr.split (e : Expr) (text : List Char) : List (List Char) :=
  splitFrom e (2 * text.length + 2) none false [] text

end Reshape.Regex
