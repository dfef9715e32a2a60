import Reshape.Spec.Compile
/-!
# Walking an input

One depth-first pass matches an input against a compiled spec and lists the visits in order. What
is decided at a visit does not influence the walk.

A branch entered through a lookup, a `$`, a `#`, a constant or a scalar taken as a key is detached:
its visits have no location in the input.
-/
namespace Reshape

open Pattern (Element)

variable {τ : Type}

/-- Where a child sits relative to its level in the input. -/
inductive Slot where
  | key (name : String)
  | index (position : Nat)
  /-- At the level itself. -/
  | same
  /-- Nowhere in the input. -/
  | detached

/-- The state of a walk: the open levels and the steps to the innermost, both innermost first, the
number of open levels that are detached, and the visits so far. -/
structure Walk (τ : Type) where
  frames : Frames
  trail : List Step
  detached : Nat
  visits : Array (Visit τ)

/-- A key that is offered to the children of a level, with its value and its place. -/
structure Offer where
  key : String
  input : Option Json
  slot : Slot

namespace Walk

/-- The place in the input, if the walk is at one. -/
def location (w : Walk τ) : Option Address :=
  if w.detached = 0 then some w.trail.reverse else none

def enter (w : Walk τ) (slot : Slot) (key : MatchedKey) (input : Option Json) : Walk τ :=
  let w := { w with frames := w.frames.push key input }
  match slot with
  | .key name => { w with trail := .key name :: w.trail }
  | .index position => { w with trail := .index position :: w.trail }
  | .same => w
  | .detached => { w with detached := w.detached + 1 }

def leave (w : Walk τ) (slot : Slot) : Walk τ :=
  let w := { w with frames := w.frames.tail }
  match slot with
  | .key _ => { w with trail := w.trail.tail }
  | .index _ => { w with trail := w.trail.tail }
  | .same => w
  | .detached => { w with detached := w.detached - 1 }

/-- Count a match on the innermost level. -/
def count (w : Walk τ) : Walk τ := { w with frames := w.frames.increment }

/-- Visit a leaf whose level has been entered. -/
def visit (w : Walk τ) (element : Element) (target : τ) (key : String) (data : Option Json) :
    Walk τ :=
  let here : Visit τ := ⟨element, target, key, data, w.frames, w.location⟩
  { w with visits := w.visits.push here }

end Walk

/-- What a special element makes of its level: the key and the data of the visit, and the input and
the place of the level entered. -/
structure Described where
  key : String
  data : Option Json
  input : Option Json
  slot : Slot

/-- Text as the data of a detached level without input. -/
def Described.text (text : String) : Described := ⟨text, some (.str text), none, .detached⟩

/-- What a special element describes; nothing if it refers to something missing. -/
def Pattern.Element.describe? (e : Element) (frames : Frames) (input : Option Json) :
    Option Described :=
  frames.head?.bind fun parent =>
    match e with
    | .value => some ⟨parent.key.raw, input, input, .same⟩
    | .matchedKey r => (r.resolve? frames).map .text
    | .count up => frames[up]?.map fun frame => .text (toString frame.count)
    | .constant text => some (.text text)
    | .lookup l =>
      (l.find? frames).map fun v => ⟨v.scalarKey?.getD "", some v, some v, .detached⟩
    | _ => none

/-- Where a literal child sits whose key the input does not have. Nothing if the input has the key
or cannot have it. -/
def missingSlot? (isArray : Bool) (input : Option Json) (key : String) : Option Slot :=
  let absent := if isArray then (Text.word? key).map .index else some (.key key)
  match input with
  | some (.obj fields) => if Fields.contains key fields then none else absent
  | some (.arr elements) =>
    (Text.word? key).bind fun position =>
      if position < elements.length then none else some (.index position)
  | some .null => absent
  | none => absent
  | some _ => none

mutual
/-- Offer a key to a node. If its element matches, the node is walked and the match counted. -/
def Node.claim? (missing : Bool) : Node τ → Offer → Walk τ → Option (Walk τ)
  | .leaf element _ target, offer, w =>
    (element.match? offer.key w.frames).map fun m =>
      (((w.enter offer.slot m offer.input).visit element target offer.key offer.input).leave
        offer.slot).count
  | .composite level, offer, w =>
    (level.element.match? offer.key w.frames).map fun m =>
      ((processLevel missing level offer.input (w.enter offer.slot m offer.input)).leave
        offer.slot).count

/-- Apply a special node to the level that it describes, whose value is `input`. -/
def Node.describe (missing : Bool) : Node τ → Option Json → Walk τ → Walk τ
  | .leaf element _ target, input, w =>
    match element.describe? w.frames input with
    | none => w
    | some d =>
      ((w.enter d.slot (.plain d.key) d.input).visit element target d.key d.data).leave d.slot
  | .composite level, input, w =>
    match level.element.describe? w.frames input with
    | none => w
    | some d =>
      (processLevel missing level d.input (w.enter d.slot (.plain d.key) d.input)).leave d.slot

/-- The children of a level that has been entered, against its value. Special children come first,
then the keys, elements or scalar of the value, then the literal children it does not have. -/
def processLevel (missing : Bool) : Composite (Node τ) → Option Json → Walk τ → Walk τ
  | ⟨_, _, isArray, special, literal, computed, strategy⟩, input, w =>
    let w := describeAll missing special input w
    let keyed (offer : Offer) (w : Walk τ) : Walk τ :=
      match claimNamed? missing literal offer w with
      | some w => w
      | none => (claimFirst? missing computed offer w).getD w
    let w := match input with
      | some (.obj fields) =>
        match strategy with
        | .literalsOnly => claimEach missing literal fields w
        | .computedOnly =>
          fields.foldl (fun w (key, v) =>
            (claimFirst? missing computed ⟨key, some v, .key key⟩ w).getD w) w
        | .noConflict =>
          fields.foldl (fun w (key, v) =>
            let offer : Offer := ⟨key, some v, .key key⟩
            if Fields.contains key literal then (claimNamed? missing literal offer w).getD w
            else (claimFirst? missing computed offer w).getD w) w
        | .conflict => fields.foldl (fun w (key, v) => keyed ⟨key, some v, .key key⟩ w) w
      | some (.arr elements) =>
        elements.zipIdx.foldl (fun w (v, position) =>
          keyed ⟨toString position, some v, .index position⟩ w) w
      | some .null => w
      | none => w
      | some scalar =>
        match scalar.scalarKey? with
        | some key => keyed ⟨key, some .null, .detached⟩ w
        | none => w
    if missing then claimMissing missing isArray literal input w else w

/-- Apply each special node in turn. -/
def describeAll (missing : Bool) : List (Node τ) → Option Json → Walk τ → Walk τ
  | [], _, w => w
  | child :: rest, input, w => describeAll missing rest input (child.describe missing input w)

/-- Offer a key to the literal child of that name. -/
def claimNamed? (missing : Bool) : List (String × Node τ) → Offer → Walk τ → Option (Walk τ)
  | [], _, _ => none
  | (key, child) :: rest, offer, w =>
    if offer.key == key then child.claim? missing offer w else claimNamed? missing rest offer w

/-- Offer a key to each node until one claims it. -/
def claimFirst? (missing : Bool) : List (Node τ) → Offer → Walk τ → Option (Walk τ)
  | [], _, _ => none
  | child :: rest, offer, w =>
    match child.claim? missing offer w with
    | some w => some w
    | none => claimFirst? missing rest offer w

/-- Offer every literal child the field of its name. -/
def claimEach (missing : Bool) :
    List (String × Node τ) → List (String × Json) → Walk τ → Walk τ
  | [], _, w => w
  | (key, child) :: rest, fields, w =>
    let w := match fields.lookup key with
      | some v => (child.claim? missing ⟨key, some v, .key key⟩ w).getD w
      | none => w
    claimEach missing rest fields w

/-- Offer every literal child its own key, where the input does not have it. -/
def claimMissing (missing : Bool) (isArray : Bool) :
    List (String × Node τ) → Option Json → Walk τ → Walk τ
  | [], _, w => w
  | (key, child) :: rest, input, w =>
    let w := match missingSlot? isArray input key with
      | some slot => (child.claim? missing ⟨key, none, slot⟩ w).getD w
      | none => w
    claimMissing missing isArray rest input w
end

/-- The walk that has just entered the root level of an input. -/
def Walk.start (rootKey : String) (input : Json) : Walk τ :=
  ⟨Frames.push [] (.plain rootKey) (some input), [], 0, #[]⟩

/-- The visits of a walk over an input, in order. -/
def CompiledSpec.visits (spec : CompiledSpec τ) (input : Json) : List (Visit τ) :=
  (processLevel spec.policy.visitsMissing spec.root (some input)
    (Walk.start spec.rootKey input)).visits.toList

end Reshape
