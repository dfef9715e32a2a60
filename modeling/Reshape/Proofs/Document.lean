import Reshape.Proofs.Fields
import Reshape.Address.Basic
/-!
# Reading documents

Parts of a well-formed document are well-formed, and reading along one address and then along
another is reading along both.
-/
namespace Reshape.Json

theorem wellFormedElements_iff (elements : List Json) :
    WellFormedElements elements ↔ ∀ v ∈ elements, v.WellFormed := by
  induction elements with
  | nil => simp [WellFormedElements]
  | cons v rest ih => simp [WellFormedElements, ih]

theorem wellFormedFields_iff (fields : List (String × Json)) :
    WellFormedFields fields ↔ ∀ field ∈ fields, field.2.WellFormed := by
  induction fields with
  | nil => simp [WellFormedFields]
  | cons field rest ih => simp [WellFormedFields, ih]

theorem WellFormed.sorted {fields : List (String × Json)} (h : (obj fields).WellFormed) :
    Fields.Sorted fields := by
  rw [WellFormed] at h
  exact h.1

theorem WellFormed.field {fields : List (String × Json)} (h : (obj fields).WellFormed)
    {key : String} {v : Json} (hm : (key, v) ∈ fields) : v.WellFormed := by
  rw [WellFormed] at h
  exact (wellFormedFields_iff fields).mp h.2 (key, v) hm

theorem WellFormed.element {elements : List Json} (h : (arr elements).WellFormed) {v : Json}
    (hm : v ∈ elements) : v.WellFormed := by
  rw [WellFormed] at h
  exact (wellFormedElements_iff elements).mp h v hm

/-- One step into a well-formed document finds a well-formed document. -/
theorem WellFormed.child? {v child : Json} {step : Step} (h : v.WellFormed)
    (hc : v.child? step = some child) : child.WellFormed := by
  cases v with
  | obj fields =>
    cases step with
    | key name => exact h.field (Fields.mem_of_lookup hc)
    | index position => simp [Json.child?] at hc
    | append => simp [Json.child?] at hc
  | arr elements =>
    cases step with
    | key name =>
      obtain ⟨position, -, hp⟩ := Option.bind_eq_some_iff.mp hc
      exact h.element (List.mem_of_getElem? hp)
    | index position => exact h.element (List.mem_of_getElem? hc)
    | append => simp [Json.child?] at hc
  | _ => cases step <;> simp [Json.child?] at hc

theorem WellFormed.get? {v found : Json} {address : Address} (h : v.WellFormed)
    (hg : v.get? address = some found) : found.WellFormed := by
  induction address generalizing v with
  | nil =>
    obtain rfl := Option.some.inj hg
    exact h
  | cons step rest ih =>
    obtain ⟨child, hc, hg⟩ := Option.bind_eq_some_iff.mp hg
    exact ih (h.child? hc) hg

theorem get?_append (v : Json) (a b : Address) :
    v.get? (a ++ b) = (v.get? a).bind fun found => found.get? b := by
  induction a generalizing v with
  | nil => rfl
  | cons step rest ih =>
    rw [List.cons_append, Json.get?, Json.get?, Option.bind_assoc]
    exact congrArg (v.child? step).bind (funext ih)

theorem get?_concat (v : Json) (a : Address) (step : Step) :
    v.get? (a ++ [step]) = (v.get? a).bind fun found => found.child? step := by
  have hone (found : Json) : found.get? [step] = found.child? step := by
    rw [Json.get?]
    cases found.child? step <;> rfl
  rw [get?_append]
  exact congrArg (v.get? a).bind (funext hone)

/-- The child one step into a document by a key of an object or an index of a list. -/
def member? : Json → Step → Option Json
  | .obj fields, .key name => fields.lookup name
  | .arr elements, .index position => elements[position]?
  | _, _ => none

/-- The value that an address locates by keys of objects and indices of lists. -/
def locate? (v : Json) : Address → Option Json
  | [] => some v
  | step :: rest => (v.member? step).bind fun child => locate? child rest

theorem child?_of_member? {v child : Json} {step : Step} (h : v.member? step = some child) :
    v.child? step = some child := by
  cases v with
  | obj fields =>
    cases step with
    | key name => exact h
    | index _ | append => cases h
  | arr elements =>
    cases step with
    | index position => exact h
    | key _ | append => cases h
  | _ => cases h

theorem get?_of_locate? {v found : Json} {address : Address}
    (h : v.locate? address = some found) : v.get? address = some found := by
  induction address generalizing v with
  | nil => exact h
  | cons step rest ih =>
    obtain ⟨child, hc, h⟩ := Option.bind_eq_some_iff.mp h
    rw [Json.get?, child?_of_member? hc]
    exact ih h

theorem locate?_concat {v found child : Json} {address : Address} {step : Step}
    (h : v.locate? address = some found) (hc : found.member? step = some child) :
    v.locate? (address ++ [step]) = some child := by
  induction address generalizing v with
  | nil =>
    obtain rfl := Option.some.inj h
    rw [List.nil_append, locate?, hc]
    rfl
  | cons next rest ih =>
    obtain ⟨w, hw, h⟩ := Option.bind_eq_some_iff.mp h
    rw [List.cons_append, locate?, hw]
    exact ih h

end Reshape.Json
