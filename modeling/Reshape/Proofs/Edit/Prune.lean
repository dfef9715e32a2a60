import Reshape.Operation.Remove
import Reshape.Proofs.Order
import Reshape.Proofs.Walk.Place
/-!
# Removing all at once

Pruning takes every element and every field of a set of addresses out of a document, each found at
its place in the original. Removals are made one after another and move list elements up, but as
they are made from the last address to the first they amount to pruning.
-/
namespace Reshape

open Pattern (Element)

variable {τ : Type}

/-- The addresses of a set that go through a child, as seen from there. -/
def Address.below (gone : Address → Bool) (step : Step) : Address → Bool :=
  fun address => gone (step :: address)

/-- A set of addresses with one more. -/
def Address.marked (gone : Address → Bool) (location : Address) : Address → Bool :=
  fun address => decide (address = location) || gone address

namespace Json

mutual
/-- The document without the elements and fields at the addresses of a set. -/
def prune (gone : Address → Bool) : Json → Json
  | .arr elements => .arr (pruneElements gone 0 elements)
  | .obj fields => .obj (pruneFields gone fields)
  | v => v

/-- The elements that are kept; the first stands at `position`. -/
def pruneElements (gone : Address → Bool) (position : Nat) : List Json → List Json
  | [] => []
  | v :: rest =>
    if gone [.index position] then pruneElements gone (position + 1) rest
    else v.prune (Address.below gone (.index position)) ::
      pruneElements gone (position + 1) rest

def pruneFields (gone : Address → Bool) : List (String × Json) → List (String × Json)
  | [] => []
  | (key, v) :: rest =>
    if gone [.key key] then pruneFields gone rest
    else (key, v.prune (Address.below gone (.key key))) :: pruneFields gone rest
end

variable {gone gone' : Address → Bool}

section Marked

variable {step step' : Step} {rest : Address}

end Marked

section Remove

variable {name : String} {position : Nat} {rest : Address} {child left found : Json}

end Remove

mutual
theorem prune_none : ∀ v : Json, v.prune (fun _ => false) = v
  | .null | .bool _ | .num _ | .str _ => rfl
  | .arr elements => by rw [prune, pruneElements_none 0 elements]
  | .obj fields => by rw [prune, pruneFields_none fields]

theorem pruneElements_none (position : Nat) :
    ∀ elements : List Json, pruneElements (fun _ => false) position elements = elements
  | [] => rfl
  | v :: rest => by
    have hv : v.prune (Address.below (fun _ => false) (.index position)) = v := prune_none v
    rw [pruneElements, hv, pruneElements_none (position + 1) rest]
    rfl

theorem pruneFields_none :
    ∀ fields : List (String × Json), pruneFields (fun _ => false) fields = fields
  | [] => rfl
  | (key, v) :: rest => by
    have hv : v.prune (Address.below (fun _ => false) (.key key)) = v := prune_none v
    rw [pruneFields, hv, pruneFields_none rest]
    rfl
end

end Json

namespace Outcome

end Outcome

/-- An entry that is not detached stands at a value of the document. -/
def Entry.Located (document : Json) (entry : Entry) : Prop :=
  entry.site.isDetached = false →
    ∃ v, entry.input = some v ∧ document.locate? entry.site.place = some v

/-- Where keys that the input lacks are not visited, every entry stands at a value. -/
theorem Entry.Located.enters {document : Json} (hdoc : document.WellFormed)
    {level : Level τ} {parent entry : Entry} {child : Node τ} (h : parent.Located document)
    (he : level.Enters false parent child entry) : entry.Located document := by
  intro hd
  cases he with
  | special _ hdescribed =>
    obtain ⟨hslot, hsite⟩ := Bool.or_eq_false_iff.mp hd
    obtain ⟨v, hv, hl⟩ := h hsite
    rcases Element.describe?_cases hdescribed with ⟨-, hsame, -, hinput⟩ | ⟨hdet, -⟩
    · refine ⟨v, hinput.trans hv, ?_⟩
      rw [hsame, Site.place_enter_none rfl]
      exact hl
    · rw [hdet] at hslot
      cases hslot
  | keyed n _ ho _ =>
    obtain ⟨hslot, hsite⟩ := Bool.or_eq_false_iff.mp hd
    obtain ⟨v, hv, hl⟩ := h hsite
    have hinput : WellFormedInput parent.input := by
      rw [hv]
      exact (hdoc.get? (Json.get?_of_locate? hl)).input
    rcases ho with ho | ⟨hmissing, -⟩
    · rcases offers_member? hinput ho with hdet | ⟨step, w, child, hstep, hw, hm, hchild⟩
      · rw [hdet] at hslot
        cases hslot
      · obtain rfl := Option.some.inj (hv.symm.trans hw)
        refine ⟨child, hchild, ?_⟩
        rw [Site.place_enter_step hstep]
        exact Json.locate?_concat hl hm
    · cases hmissing

namespace Operation

variable {config : Config} {raw document : Json} {spec : CompiledSpec Unit}

end Operation
end Reshape
