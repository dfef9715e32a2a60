import Reshape.Proofs.Edit.Container
import Reshape.Proofs.Edit.Update
/-!
# Documents open along keys

Where the values on the way along some keys are null or objects, setting at the place that the keys
name reaches it. Setting elsewhere changes nothing there as long as the address leaves the way by
another key, however much it changes of the objects on the way.
-/
namespace Reshape

/-- The values on the way along the keys, as far as there are any, are null or objects. Nothing is
said about the value of the last key. -/
def Json.OpenAlong (v : Json) (keys : List String) : Prop :=
  ∀ above key below, keys = above ++ key :: below →
    ∀ w, v.get? (above.map Step.key) = some w → w = .null ∨ ∃ fields, w = .obj fields

/-- The address leaves the way along the keys by another key than the next one. -/
inductive Address.Departs : List String → Address → Prop
  | here {key other : String} (ne : other ≠ key) (keys : List String) (rest : Address) :
    Address.Departs (key :: keys) (.key other :: rest)
  | later (key : String) {keys : List String} {rest : Address}
    (departs : Address.Departs keys rest) : Address.Departs (key :: keys) (.key key :: rest)

theorem Address.Departs.ne_nil {keys : List String} {address : Address}
    (h : Address.Departs keys address) : keys ≠ [] := by
  cases h <;> exact List.cons_ne_nil _ _

namespace Json

variable {v : Json} {key : String} {keys : List String}

theorem openAlong_nil (v : Json) : v.OpenAlong [] := by
  intro above key below h
  cases above <;> cases h

theorem openAlong_cons : v.OpenAlong (key :: keys) ↔
    (v = .null ∨ ∃ fields, v = .obj fields) ∧
      ∀ child, v.child? (.key key) = some child → child.OpenAlong keys := by
  constructor
  · intro h
    refine ⟨h [] key keys rfl v rfl, ?_⟩
    rintro child hc above next below rfl w hw
    refine h (key :: above) next below rfl w ?_
    rw [List.map_cons, get?, hc]
    exact hw
  · rintro ⟨hv, hchild⟩ above next below he w hw
    cases above with
    | nil =>
      obtain rfl := Option.some.inj hw
      exact hv
    | cons first above =>
      obtain ⟨rfl, rfl⟩ := List.cons.inj he
      obtain ⟨child, hc, hw⟩ := Option.bind_eq_some_iff.mp hw
      exact hchild child hc above next below rfl w hw

theorem openAlong_null (keys : List String) : Json.null.OpenAlong keys := by
  cases keys with
  | nil => exact openAlong_nil .null
  | cons key keys => exact openAlong_cons.mpr ⟨.inl rfl, nofun⟩

/-- The value that a write goes on with is open along the rest of the keys. -/
theorem OpenAlong.child (h : v.OpenAlong (key :: keys)) :
    ((v.child? (.key key)).getD .null).OpenAlong keys := by
  cases hc : v.child? (.key key) with
  | none => exact openAlong_null keys
  | some child => exact (openAlong_cons.mp h).2 child hc

/-- Setting below a key puts the key into an object, which has nothing else than before. -/
theorem OpenAlong.set_key (h : v.OpenAlong (key :: keys)) (name : String) (rest : Address)
    (value : Json) :
    ∃ fields, (∀ other, v.child? (.key other) = fields.lookup other) ∧
      (v.set (.key name :: rest) value).1 = .obj
        (Fields.insert name (((v.child? (.key name)).getD .null).set rest value).1 fields) := by
  rcases (openAlong_cons.mp h).1 with rfl | ⟨fields, rfl⟩
  · exact ⟨[], fun _ => rfl, rfl⟩
  · exact ⟨fields, fun _ => rfl, rfl⟩

/-- Setting below the next key is setting in its value, and keeps the way open if that does. -/
theorem OpenAlong.set_below (h : v.OpenAlong (key :: keys)) {rest : Address} {value child : Json}
    (hc : (((v.child? (.key key)).getD .null).set rest value).1 = child)
    (hopen : child.OpenAlong keys) :
    (v.set (.key key :: rest) value).1.OpenAlong (key :: keys) ∧
      (v.set (.key key :: rest) value).1.child? (.key key) = some child := by
  obtain ⟨fields, -, hset⟩ := h.set_key key rest value
  have hchild : (v.set (.key key :: rest) value).1.child? (.key key) = some child := by
    rw [hset, hc]
    exact Fields.lookup_insert_self key child fields
  refine ⟨openAlong_cons.mpr ⟨.inr ⟨_, hset⟩, fun found hf => ?_⟩, hchild⟩
  rw [hchild] at hf
  exact Option.some.inj hf ▸ hopen

/-- Setting at an address that departs from the keys changes nothing along them. -/
theorem OpenAlong.set_departs {address : Address} (hd : Address.Departs keys address)
    (h : v.OpenAlong keys) (value : Json) :
    (v.set address value).1.OpenAlong keys ∧
      (v.set address value).1.get? (keys.map Step.key) = v.get? (keys.map Step.key) := by
  induction hd generalizing v with
  | @here key other ne keys rest =>
    obtain ⟨fields, hfields, hset⟩ := h.set_key other rest value
    have hsame : (v.set (.key other :: rest) value).1.child? (.key key) = v.child? (.key key) := by
      rw [hset]
      exact (Fields.lookup_insert_of_ne ne.symm _ fields).trans (hfields key).symm
    constructor
    · refine openAlong_cons.mpr ⟨.inr ⟨_, hset⟩, fun child hc => ?_⟩
      rw [hsame] at hc
      exact (openAlong_cons.mp h).2 child hc
    · rw [List.map_cons, get?, get?, hsame]
  | @later key keys rest departs ih =>
    obtain ⟨hopen, hread⟩ := ih h.child
    obtain ⟨hopen, hchild⟩ := h.set_below rfl hopen
    have hkeys : keys.map Step.key ≠ [] := mt List.map_eq_nil_iff.mp departs.ne_nil
    refine ⟨hopen, ?_⟩
    rw [List.map_cons, get?, hchild, Option.bind_some, hread, get?_cons_of_ne_nil hkeys]

/-- Setting at the place that the keys name reaches it. -/
theorem OpenAlong.set_along (h : v.OpenAlong keys) (value : Json) :
    (v.set (keys.map Step.key) value).1.OpenAlong keys ∧
      (v.set (keys.map Step.key) value).1.get? (keys.map Step.key) = some value := by
  induction keys generalizing v with
  | nil => exact ⟨openAlong_nil _, rfl⟩
  | cons key keys ih =>
    obtain ⟨hopen, hread⟩ := ih h.child
    obtain ⟨hopen, hchild⟩ := h.set_below rfl hopen
    refine ⟨hopen, ?_⟩
    rw [List.map_cons, get?, hchild, Option.bind_some, hread]

/-- What departs from the keys changes nothing at the place that they name. -/
theorem OpenAlong.setAll_departs {fills : List (Address × Json)} (h : v.OpenAlong keys)
    (hf : ∀ fill ∈ fills, Address.Departs keys fill.1) :
    (v.setAll fills).get? (keys.map Step.key) = v.get? (keys.map Step.key) := by
  induction fills generalizing v with
  | nil => rfl
  | cons fill rest ih =>
    obtain ⟨hfill, hrest⟩ := List.forall_mem_cons.mp hf
    obtain ⟨hopen, hread⟩ := h.set_departs hfill fill.2
    exact (ih hopen hrest).trans hread

/-- A value that is set at the place that the keys name is there in the end, if everything else
departs from the keys. -/
theorem OpenAlong.setAll_along {fills : List (Address × Json)} {value : Json}
    (h : v.OpenAlong keys)
    (hf : ∀ fill ∈ fills, Address.Departs keys fill.1 ∨ fill = (keys.map Step.key, value))
    (hm : (keys.map Step.key, value) ∈ fills ∨ v.get? (keys.map Step.key) = some value) :
    (v.setAll fills).get? (keys.map Step.key) = some value := by
  induction fills generalizing v with
  | nil => exact hm.resolve_left List.not_mem_nil
  | cons fill rest ih =>
    obtain ⟨hfill, hrest⟩ := List.forall_mem_cons.mp hf
    by_cases he : fill = (keys.map Step.key, value)
    · subst he
      obtain ⟨hopen, hread⟩ := h.set_along value
      exact ih hopen hrest (.inr hread)
    · obtain ⟨hopen, hread⟩ := h.set_departs (hfill.resolve_right he) fill.2
      refine ih hopen hrest (hm.imp ?_ fun hold => hread.trans hold)
      exact fun hmem => (List.mem_cons.mp hmem).resolve_left (Ne.symm he)

end Json
end Reshape
