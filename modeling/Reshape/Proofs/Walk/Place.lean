import Reshape.Operation.Default
import Reshape.Proofs.Document
import Reshape.Proofs.Walk.Entry
import Reshape.Proofs.Walk.Strategy
/-!
# Places and what is seen there

The steps to a leaf, the inputs of the levels above it and the data that it is visited with are
recorded separately. As long as no level is detached they agree: the data and the inputs are those
that the document has at the place of the leaf and at the places above it.
-/
namespace Reshape

open Pattern (Element Lookup readLevel? resolveSteps?)

variable {τ : Type}

namespace Site

/-- The site `n` openings further out. -/
def above (site : Site) (n : Nat) : Site := ⟨site.frames.drop n, site.openings.drop n⟩

/-- The steps to a site from the outermost; its address where nothing is detached. -/
def place (site : Site) : Address := site.steps.reverse

theorem location_eq_some {site : Site} {location : Address} :
    site.location = some location ↔ site.isDetached = false ∧ site.place = location := by
  rw [Site.location]
  cases hd : site.isDetached with
  | true => simp
  | false => simp [place]

variable {site : Site} {element : Element} {slot : Slot} {key : MatchedKey}
  {input : Option Json}

theorem place_enter_step {step : Step} (h : slot.step? = some step) :
    (site.enter element slot key input).place = site.place ++ [step] := by
  have hsteps : (site.enter element slot key input).steps = step :: site.steps :=
    List.filterMap_cons_some h
  rw [place, hsteps, List.reverse_cons]
  rfl

theorem place_enter_none (h : slot.step? = none) :
    (site.enter element slot key input).place = site.place := by
  have hsteps : (site.enter element slot key input).steps = site.steps :=
    List.filterMap_cons_none h
  rw [place, hsteps]
  rfl

@[simp] theorem counted_zero (site : Site) : site.counted 0 = site := by
  rw [counted, Frames.countBy_zero]

@[simp] theorem inputs_counted (n j : Nat) :
    ((site.counted n).frames[j]?).map Frame.input = (site.frames[j]?).map Frame.input := by
  rw [← List.getElem?_map, ← List.getElem?_map, counted, Frames.inputs_countBy]

@[simp] theorem bind_inputs_counted (n j : Nat) :
    ((site.counted n).frames[j]?).bind Frame.input = (site.frames[j]?).bind Frame.input := by
  obtain ⟨frames, openings⟩ := site
  cases frames with
  | nil => rfl
  | cons frame outer => cases j <;> rfl

@[simp] theorem drop_counted (n j : Nat) :
    (site.counted n).frames.drop (j + 1) = site.frames.drop (j + 1) := by
  rw [← List.drop_tail, ← List.drop_tail, counted, Frames.tail_countBy]

end Site

/-- Entering an element leaves the structure of the document: a special element other than the
value of its level does, and any other that takes a scalar as its key. -/
def Pattern.Element.detaches (e : Element) (above : Option Json) : Bool :=
  match e with
  | .value => false
  | e => e.isSpecial || (above.bind Json.scalarKey?).isSome

theorem Pattern.Element.detaches_of_ordinary {e : Element} (h : e.isSpecial = false)
    (above : Option Json) : e.detaches above = (above.bind Json.scalarKey?).isSome := by
  cases e with
  | value => cases h
  | _ => rw [detaches, h, Bool.false_or]; exact nofun

/-- A key that an input offers is that of a member of it, unless a scalar is taken as the key. -/
theorem offers_member? {input : Option Json} (hi : WellFormedInput input) {offer : Offer}
    (ho : offer ∈ offers input) : offer.slot = .detached ∨
      ∃ step v child, offer.slot.step? = some step ∧ input = some v ∧
        v.member? step = some child ∧ offer.input = some child := by
  cases input with
  | none => cases ho
  | some value =>
    cases value with
    | obj fields =>
      obtain ⟨⟨key, child⟩, hm, rfl⟩ := List.mem_map.mp ho
      have hl : fields.lookup key = some child := Fields.lookup_of_mem (hi _ rfl).sorted hm
      exact .inr ⟨.key key, .obj fields, child, rfl, rfl, hl, rfl⟩
    | arr elements =>
      obtain ⟨⟨child, position⟩, hm, rfl⟩ := List.mem_map.mp ho
      have hp : elements[position]? = some child := List.mem_zipIdx_iff_getElem?.mp hm
      exact .inr ⟨.index position, .arr elements, child, rfl, rfl, hp, rfl⟩
    | _ =>
      obtain ⟨key, -, rfl⟩ := List.mem_map.mp ho
      exact .inl rfl

/-- A key that the input lacks has a step that leads nowhere. -/
theorem missingSlot?_child? {isArray : Bool} {input : Option Json} {key : String} {slot : Slot}
    (h : missingSlot? isArray input key = some slot) :
    ∃ step, slot.step? = some step ∧ (input.bind fun v => v.child? step) = none := by
  have habsent : ∀ {slot : Slot},
      (if isArray then (Text.word? key).map Slot.index else some (.key key)) = some slot →
      (∃ position, isArray = true ∧ slot = .index position) ∨ slot = .key key := by
    intro slot hs
    cases isArray with
    | true =>
      obtain ⟨position, -, rfl⟩ := Option.map_eq_some_iff.mp hs
      exact .inl ⟨position, rfl, rfl⟩
    | false => exact .inr (Option.some.inj hs).symm
  cases input with
  | none =>
    rcases habsent h with ⟨position, -, rfl⟩ | rfl
    · exact ⟨.index position, rfl, rfl⟩
    · exact ⟨.key key, rfl, rfl⟩
  | some value =>
    cases value with
    | obj fields =>
      rw [missingSlot?] at h
      split at h
      · cases h
      · rename_i hc
        rcases habsent h with ⟨position, -, rfl⟩ | rfl
        · exact ⟨.index position, rfl, rfl⟩
        · have hl : fields.lookup key = none := by
            rw [← Fields.contains_eq_false]
            simpa using hc
          exact ⟨.key key, rfl, hl⟩
    | arr elements =>
      obtain ⟨position, -, h⟩ := Option.bind_eq_some_iff.mp h
      split at h
      · cases h
      · rename_i hlen
        obtain rfl := Option.some.inj h
        have hnone : elements[position]? = none := List.getElem?_eq_none (not_lt.mp hlen)
        exact ⟨.index position, rfl, hnone⟩
    | null =>
      rcases habsent h with ⟨position, -, rfl⟩ | rfl
      · exact ⟨.index position, rfl, rfl⟩
      · exact ⟨.key key, rfl, rfl⟩
    | _ => cases h

/-- A key with a step leads to the child that the step leads to. -/
theorem Offered.child? {missing isArray : Bool} {input : Option Json} {offer : Offer}
    (hi : WellFormedInput input) (ho : Offered missing isArray input offer) :
    offer.slot = .detached ∨ ∃ step, offer.slot.step? = some step ∧
      offer.input = input.bind fun v => v.child? step := by
  rcases ho with ho | ⟨-, hnone, hs⟩
  · rcases offers_member? hi ho with hd | ⟨step, v, child, hstep, rfl, hm, hinput⟩
    · exact .inl hd
    · exact .inr ⟨step, hstep, hinput.trans (Json.child?_of_member? hm).symm⟩
  · obtain ⟨step, hstep, hc⟩ := missingSlot?_child? hs
    exact .inr ⟨step, hstep, hnone.trans hc.symm⟩

/-- A level offers well-formed values. -/
theorem Offered.wellFormed {missing isArray : Bool} {input : Option Json} {offer : Offer}
    (ho : Offered missing isArray input offer) (hi : WellFormedInput input) :
    WellFormedInput offer.input := by
  rcases ho with ho | ⟨-, hnone, -⟩
  · exact offers_wellFormed hi ho
  · rw [hnone]
    exact nofun

/-- Only a scalar that is taken as a key leads out of the document. -/
theorem Offered.isDetached_slot {missing isArray : Bool} {input : Option Json} {offer : Offer}
    (ho : Offered missing isArray input offer) :
    offer.slot.isDetached = (input.bind Json.scalarKey?).isSome := by
  rcases ho with ho | ⟨-, -, hslot⟩
  · cases input with
    | none => cases ho
    | some value =>
      cases value <;>
      · obtain ⟨_, hm, rfl⟩ := List.mem_map.mp ho
        first | rfl | cases hm
  · obtain ⟨step, hstep, -⟩ := missingSlot?_child? hslot
    have hattached : offer.slot.isDetached = false := by
      cases hs : offer.slot with
      | detached => rw [hs] at hstep; cases hstep
      | _ => rfl
    rw [hattached]
    cases input with
    | none => rfl
    | some value =>
      cases value with
      | null | arr _ | obj _ => rfl
      | _ => cases hslot

theorem Offered.slot_ne_same {missing isArray : Bool} {input : Option Json} {offer : Offer}
    (ho : Offered missing isArray input offer) : offer.slot ≠ .same := by
  intro hs
  rcases ho with ho | ⟨-, -, hslot⟩
  · cases input with
    | none => cases ho
    | some value =>
      cases value <;>
      · obtain ⟨_, -, rfl⟩ := List.mem_map.mp ho
        cases hs
  · obtain ⟨step, hstep, -⟩ := missingSlot?_child? hslot
    rw [hs] at hstep
    cases hstep

/-- A special element stands at its level, with the level's value, or is detached. -/
theorem Pattern.Element.describe?_cases {e : Element} {frames : Frames} {input : Option Json}
    {d : Described} (h : e.describe? frames input = some d) :
    (e = .value ∧ d.slot = .same ∧ d.data = input ∧ d.input = input) ∨
      (d.slot = .detached ∧ e.detaches input = true ∧
        ∀ l, e = .lookup l → d.data = l.find? frames ∧ d.input = l.find? frames) := by
  obtain ⟨parent, -, h⟩ := Option.bind_eq_some_iff.mp h
  cases e with
  | value =>
    obtain rfl := Option.some.inj h
    exact .inl ⟨rfl, rfl, rfl, rfl⟩
  | lookup l =>
    obtain ⟨v, hv, rfl⟩ := Option.map_eq_some_iff.mp h
    refine .inr ⟨rfl, rfl, ?_⟩
    rintro _ ⟨⟩
    exact ⟨hv.symm, hv.symm⟩
  | matchedKey r =>
    obtain ⟨text, -, rfl⟩ := Option.map_eq_some_iff.mp h
    exact .inr ⟨rfl, rfl, nofun⟩
  | count up =>
    obtain ⟨frame, -, rfl⟩ := Option.map_eq_some_iff.mp h
    exact .inr ⟨rfl, rfl, nofun⟩
  | constant text =>
    obtain rfl := Option.some.inj h
    exact .inr ⟨rfl, rfl, nofun⟩
  | _ => cases h

/-- The frames of an entry that is not detached, and of every level above it that is not, record
what the document has at their places; a level entered through a lookup has what it finds. -/
structure Entry.Sees (document : Json) (entry : Entry) : Prop where
  depth : entry.site.frames.length = entry.site.openings.length + 1
  here : (entry.site.frames[0]?).map Frame.input = some entry.input
  levels : ∀ j ≤ entry.site.openings.length, (entry.site.above j).isDetached = false →
    (entry.site.frames[j]?).map Frame.input = some (document.get? (entry.site.above j).place)
  data : entry.site.isDetached = false → entry.data = entry.input
  detached : ∀ (j : Nat) (opening : Opening), entry.site.openings[j]? = some opening →
    opening.slot.isDetached =
      opening.element.detaches ((entry.site.frames[j + 1]?).bind Frame.input)
  same : ∀ opening ∈ entry.site.openings, opening.slot = .same → opening.element = .value
  found : ∀ (opening : Opening) (l : Lookup), entry.site.openings[0]? = some opening →
    opening.element = .lookup l → entry.data = l.find? (entry.site.above 1).frames
  lookups : ∀ (j : Nat) (opening : Opening) (l : Lookup),
    entry.site.openings[j]? = some opening → opening.element = .lookup l →
    (entry.site.frames[j]?).map Frame.input = some (l.find? (entry.site.above (j + 1)).frames)

namespace Entry.Sees

variable {document : Json} {parent entry : Entry}

theorem root (rootKey : String) : (Entry.root rootKey document).Sees document where
  depth := rfl
  here := rfl
  levels := by
    intro j hj _
    obtain rfl : j = 0 := Nat.le_zero.mp hj
    rfl
  data := fun _ => rfl
  detached := nofun
  same := nofun
  found := nofun
  lookups := nofun

/-- The input of an entry that is not detached is what the document has at its place. -/
theorem input_eq (h : entry.Sees document) (hd : entry.site.isDetached = false) :
    entry.input = document.get? entry.site.place := by
  have hlevel := h.levels 0 (Nat.zero_le _) hd
  rw [h.here] at hlevel
  exact Option.some.inj hlevel

theorem input_wellFormed (h : entry.Sees document) (hdoc : document.WellFormed)
    (hd : entry.site.isDetached = false) : WellFormedInput entry.input := by
  intro v hv
  rw [h.input_eq hd] at hv
  exact hdoc.get? hv

/-- Entering keeps the agreement where the new level agrees with the document. -/
theorem enter (h : parent.Sees document) (n : Nat) {element : Element} {slot : Slot}
    {matched : MatchedKey} {key : String} {data input : Option Json}
    (hinput : slot.isDetached = false → parent.site.isDetached = false →
      input = document.get? (parent.site.enter element slot matched input).place)
    (hdata : slot.isDetached = false → data = input)
    (hdetaches : slot.isDetached = element.detaches parent.input)
    (hsame : slot = .same → element = .value)
    (hlookup : ∀ l, element = .lookup l → data = l.find? (parent.site.counted n).frames ∧
      input = l.find? (parent.site.counted n).frames) :
    (Entry.mk key data input ((parent.site.counted n).enter element slot matched input)).Sees
      document := by
  have hdetached : ∀ {b c : Bool}, (b || c) = false → b = false ∧ c = false :=
    Bool.or_eq_false_iff.mp
  -- Every statement about openings is one about the new opening and one about the old site.
  constructor
  · have hlen := congrArg List.length (Frames.inputs_countBy n parent.site.frames)
    rw [List.length_map, List.length_map] at hlen
    show (parent.site.frames.countBy n).length + 1 = parent.site.openings.length + 1 + 1
    rw [hlen, h.depth]
  · rfl
  · intro j hj hd
    cases j with
    | zero =>
      obtain ⟨hslot, hsite⟩ := hdetached hd
      exact congrArg some (hinput hslot hsite)
    | succ j =>
      have hj : j ≤ parent.site.openings.length := Nat.le_of_succ_le_succ hj
      have hlevel := h.levels j hj hd
      rw [← Site.inputs_counted n] at hlevel
      exact hlevel
  · exact fun hd => hdata (hdetached hd).1
  · intro j opening ho
    cases j with
    | zero =>
      obtain rfl := Option.some.inj ho
      have habove := h.here
      rw [← Site.inputs_counted n] at habove
      obtain ⟨frame, hframe, hinput⟩ := Option.map_eq_some_iff.mp habove
      show slot.isDetached = element.detaches (((parent.site.counted n).frames[0]?).bind _)
      rw [hframe, Option.bind_some, hinput]
      exact hdetaches
    | succ j =>
      have houter := h.detached j opening ho
      rw [← Site.bind_inputs_counted n] at houter
      exact houter
  · exact List.forall_mem_cons.mpr ⟨hsame, h.same⟩
  · intro opening l ho hl
    obtain rfl := Option.some.inj ho
    exact (hlookup l hl).1
  · intro j opening l ho hl
    cases j with
    | zero =>
      obtain rfl := Option.some.inj ho
      exact congrArg some (hlookup l hl).2
    | succ j =>
      have hfound := h.lookups j opening l ho hl
      rw [← Site.inputs_counted n, Site.above, ← Site.drop_counted n] at hfound
      exact hfound

/-- Every way into a child of a level keeps the agreement. -/
theorem enters {missing : Bool} {level : Level τ} {child : Node τ}
    (hdoc : document.WellFormed) (h : parent.Sees document)
    (he : level.Enters missing parent child entry) : entry.Sees document := by
  cases he with
  | special _ hd =>
    rw [← parent.site.counted_zero]
    rcases Element.describe?_cases hd with
      ⟨hvalue, hslot, hdata, hinput⟩ | ⟨hslot, hdetaches, hlookup⟩
    · refine h.enter 0 ?_ ?_ ?_ (fun _ => hvalue) ?_
      · intro _ hsite
        rw [hslot, Site.place_enter_none rfl, hinput, h.input_eq hsite]
      · exact fun _ => hdata.trans hinput.symm
      · rw [hvalue, hslot]
        rfl
      · intro l hl
        rw [hvalue] at hl
        cases hl
    · rw [hslot]
      refine h.enter 0 nofun nofun hdetaches.symm nofun ?_
      rw [Site.counted_zero]
      exact hlookup
  | keyed n _ ho hm =>
    have hordinary : child.element.isSpecial = false := Element.isSpecial_of_match? hm
    refine h.enter n ?_ (fun _ => rfl) ?_ ?_ ?_
    · intro hslot hsite
      rcases ho.child? (h.input_wellFormed hdoc hsite) with hdet | ⟨step, hstep, hchild⟩
      · rw [hdet] at hslot
        cases hslot
      · rw [Site.place_enter_step hstep, Json.get?_concat, ← h.input_eq hsite]
        exact hchild
    · rw [Element.detaches_of_ordinary hordinary]
      exact ho.isDetached_slot
    · intro hsame
      exact absurd hsame ho.slot_ne_same
    · intro l hl
      rw [hl] at hordinary
      cases hordinary

end Entry.Sees
/-- Dropping commutes with a map that keeps every element. -/
theorem filterMap_drop {α β : Type} {f : α → Option β} {xs : List α}
    (h : ∀ x ∈ xs, (f x).isSome = true) (n : Nat) :
    (xs.drop n).filterMap f = (xs.filterMap f).drop n := by
  induction xs generalizing n with
  | nil => simp
  | cons x xs ih =>
    cases n with
    | zero => rfl
    | succ n =>
      obtain ⟨y, hy⟩ := Option.isSome_iff_exists.mp (h x List.mem_cons_self)
      rw [List.drop_succ_cons, List.filterMap_cons_some hy, List.drop_succ_cons]
      exact ih (fun z hz => h z (List.mem_cons_of_mem x hz)) n

namespace Site

variable {site : Site}

theorem above_not_detached (hd : site.isDetached = false) (n : Nat) :
    (site.above n).isDetached = false := by
  rw [isDetached, List.any_eq_false] at hd ⊢
  exact fun opening ho => hd opening (List.mem_of_mem_drop ho)

/-- Where every opening has a step, the place of a level starts the places below it. -/
theorem place_above (h : ∀ opening ∈ site.openings, opening.slot.step?.isSome = true) (n : Nat) :
    (site.above n).place = site.place.take (site.place.length - n) := by
  have hsteps : (site.above n).steps = site.steps.drop n := filterMap_drop h n
  rw [place, hsteps, List.reverse_drop, place, List.length_reverse]

theorem place_length (h : ∀ opening ∈ site.openings, opening.slot.step?.isSome = true) :
    site.place.length = site.openings.length := by
  rw [place, List.length_reverse]
  exact List.filterMap_length_eq_length.mpr h

end Site

theorem Slot.step?_isSome {slot : Slot} (hd : slot.isDetached = false) (hs : slot ≠ .same) :
    slot.step?.isSome = true := by
  cases slot with
  | key _ | index _ => rfl
  | same => exact absurd rfl hs
  | detached => cases hd

/-- What a leaf is visited with, and what its frames record, is what the document has. -/
structure Arrival.SeesDocument (document : Json) (a : Arrival τ) : Prop where
  /-- A level or the leaf is detached by its element and the input of the level above. -/
  detached : ∀ (n : Nat) (opening : Opening), a.site.openings[n]? = some opening →
    opening.slot.isDetached =
      opening.element.detaches ((a.visit.frames[n + 1]?).bind Frame.input)
  /-- A leaf that is not detached has a location, and its data is what is there. -/
  data : a.site.isDetached = false → a.element.isSpecial = false ∨ a.element = .value →
    ∃ location, a.visit.location = some location ∧ a.visit.data = document.get? location
  /-- The frame `j` levels above an ordinary leaf has the input at the location without its last
  `j` steps. -/
  levels : a.element.isSpecial = false → ∀ location, a.visit.location = some location →
    a.visit.frames.length = location.length + 1 ∧ ∀ j ≤ location.length,
      ∃ frame, a.visit.frames[j]? = some frame ∧
        frame.input = document.get? (location.take (location.length - j))
  /-- From a leaf or a level above it that is not detached, a lookup reads the document. -/
  lookup : ∀ (n : Nat) (l : Lookup), (a.site.above n).isDetached = false →
    n + l.up ≤ a.site.openings.length → l.find? (a.site.above n).frames =
      (resolveSteps? (a.site.above n).frames l.steps).bind fun address =>
        document.get? ((a.site.above (n + l.up)).place ++ address)
  /-- A leaf that is a lookup is visited with what it finds from its level. -/
  found : ∀ l, a.element = .lookup l → a.visit.data = l.find? (a.site.above 1).frames
  /-- A level that is a lookup has the input that it finds from the level above. -/
  entered : ∀ (n : Nat) (opening : Opening) (l : Lookup), a.site.openings[n]? = some opening →
    opening.element = .lookup l → (a.visit.frames[n]?).map Frame.input =
      some (l.find? (a.site.above (n + 1)).frames)

namespace Entry.Reaches

variable {p : Policy τ} {document : Json} {leaf : Entry} {a : Arrival τ}

theorem site_eq (h : leaf.Reaches p a) : a.site = leaf.site := congrArg Arrival.site h.2.1

theorem data_eq (h : leaf.Reaches p a) : a.data = leaf.data := congrArg Arrival.data h.2.1

/-- Every opening above an ordinary leaf that is not detached has a step. -/
theorem steps (h : leaf.Reaches p a) (hs : leaf.Sees document)
    (hd : a.site.isDetached = false) (ho : a.element.isSpecial = false) :
    ∀ opening ∈ a.site.openings, opening.slot.step?.isSome = true := by
  have hsite := h.site_eq
  obtain ⟨-, -, slot, outer, hopen, houter⟩ := h
  intro opening hm
  have hslot : opening.slot.isDetached = false := by
    rw [Site.isDetached, List.any_eq_false] at hd
    simpa using hd opening hm
  refine Slot.step?_isSome hslot fun hsame => ?_
  have hvalue : opening.element = .value := by
    rw [hsite] at hm
    exact hs.same opening hm hsame
  rw [hopen] at hm
  rcases List.mem_cons.mp hm with rfl | hm
  · have hvalue : a.element = .value := hvalue
    rw [hvalue] at ho
    cases ho
  · have haccepts := houter opening hm
    rw [hvalue] at haccepts
    cases haccepts

/-- Away from detached levels, the data of a leaf is what the document has at its place. -/
theorem data_eq_get? (h : leaf.Reaches p a) (hs : leaf.Sees document)
    (hd : a.site.isDetached = false) : a.data = document.get? a.site.place := by
  rw [h.site_eq] at hd
  rw [h.data_eq, h.site_eq, hs.data hd, hs.input_eq hd]

theorem seesDocument (h : leaf.Reaches p a) (hs : leaf.Sees document) :
    a.SeesDocument document := by
  have hsite := h.site_eq
  constructor
  · intro n opening ho
    have hdetached := hs.detached n opening (hsite ▸ ho)
    rw [← hsite] at hdetached
    exact hdetached
  · intro hd _
    exact ⟨a.site.place, Site.location_eq_some.mpr ⟨hd, rfl⟩, h.data_eq_get? hs hd⟩
  · intro ho location hl
    obtain ⟨hd, rfl⟩ := Site.location_eq_some.mp hl
    have hsteps := h.steps hs hd ho
    have hlength := Site.place_length hsteps
    have hdepth : a.site.frames.length = a.site.openings.length + 1 := by
      rw [hsite]
      exact hs.depth
    refine ⟨by rw [hlength]; exact hdepth, ?_⟩
    intro j hj
    rw [hlength] at hj
    have hlevel := hs.levels j (hsite ▸ hj) (Site.above_not_detached (hsite ▸ hd) j)
    rw [← hsite, Site.place_above hsteps] at hlevel
    obtain ⟨frame, hframe, hinput⟩ := Option.map_eq_some_iff.mp hlevel
    exact ⟨frame, hframe, hinput⟩
  · intro n l hd hn
    have habove : ((a.site.above n).above l.up).isDetached = false :=
      Site.above_not_detached hd l.up
    have hdrop : (a.site.above n).above l.up = a.site.above (n + l.up) := by
      rw [Site.above, Site.above, Site.above, List.drop_drop, List.drop_drop]
    rw [hdrop] at habove
    have hlevel := hs.levels (n + l.up) (hsite ▸ hn) (hsite ▸ habove)
    rw [← hsite] at hlevel
    obtain ⟨frame, hframe, hinput⟩ := Option.map_eq_some_iff.mp hlevel
    refine congrArg _ (funext fun address => ?_)
    rw [readLevel?, Site.above, List.getElem?_drop, hframe, Option.bind_some, hinput,
      Json.get?_append]
  · intro l hl
    have hdata := h.data_eq
    obtain ⟨-, -, slot, outer, hopen, -⟩ := h
    rw [hsite] at hopen ⊢
    have hfound := hs.found ⟨a.element, slot⟩ l (by rw [hopen]; rfl) hl
    exact hdata.trans hfound
  · intro n opening l hn hl
    have hentered := hs.lookups n opening l (hsite ▸ hn) hl
    rw [← hsite] at hentered
    exact hentered

end Entry.Reaches

theorem Outcome.location_of_edit? {v : Visit τ} {decision : Decision} {e : Edit}
    (h : edit? v decision = some e) : v.location = some e.location := by
  cases decision with
  | replace _ | remove =>
    obtain ⟨location, hl, rfl⟩ := Option.map_eq_some_iff.mp h
    exact hl
  | skip | write _ _ => cases h

namespace CompiledSpec

variable {policy : Policy τ} {config : Config} {raw document : Json} {spec : CompiledSpec τ}

/-- Every leaf of a compiled spec is reached by entries that see the document. -/
theorem sees_of_mem_arrivals (h : compile policy raw config = .ok spec)
    (hdoc : document.WellFormed) {a : Arrival τ} (ha : a ∈ spec.arrivals document) :
    ∃ leaf : Entry, leaf.Sees document ∧ leaf.Reaches policy a := by
  obtain ⟨-, leaf, hleaf⟩ := reaches_of_mem_arrivals (K := fun _ entry => entry.Sees document) h
    (Entry.Sees.root spec.rootKey) (fun henters hsees => hsees.enters hdoc henters) ha
  exact ⟨leaf, hleaf⟩

/-- A visit with a location is that of a leaf there, away from detached levels. -/
theorem arrival_of_mem_visits (h : compile policy raw config = .ok spec)
    (hdoc : document.WellFormed) {v : Visit τ} (hv : v ∈ spec.visits document)
    {location : Address} (hl : v.location = some location) :
    ∃ a ∈ spec.arrivals document, v = a.visit ∧ a.site.isDetached = false ∧
      a.site.place = location := by
  rw [visits_eq h hdoc] at hv
  obtain ⟨a, ha, rfl⟩ := List.mem_map.mp hv
  obtain ⟨hd, hplace⟩ := Site.location_eq_some.mp hl
  exact ⟨a, ha, rfl, hd, hplace⟩

/-- A visit at a place of the document is one with the value there. -/
theorem data_eq_of_mem_visits (h : compile policy raw config = .ok spec)
    (hdoc : document.WellFormed) {v : Visit τ} (hv : v ∈ spec.visits document)
    {location : Address} (hl : v.location = some location) :
    v.data = document.get? location := by
  obtain ⟨a, ha, rfl, hd, rfl⟩ := arrival_of_mem_visits h hdoc hv hl
  obtain ⟨leaf, hsees, hreaches⟩ := sees_of_mem_arrivals h hdoc ha
  exact hreaches.data_eq_get? hsees hd

/-- An edit is made at the location of a visit. -/
theorem visit_of_mem_edits {e : Edit} (he : e ∈ (spec.walk document).edits) :
    ∃ v ∈ spec.visits document, v.location = some e.location := by
  obtain ⟨v, hv, he⟩ := List.mem_filterMap.mp he
  exact ⟨v, hv, Outcome.location_of_edit? he⟩

/-- **A walk sees the document.** Its visits are those of leaves whose data, frames and lookups are
what the document has at their places, and its edits are made at places where a leaf was visited
with the value there. -/
theorem walk_sees_document (h : compile policy raw config = .ok spec)
    (hdoc : document.WellFormed) :
    spec.visits document = (spec.arrivals document).map Arrival.visit ∧
      (∀ a ∈ spec.arrivals document, a.SeesDocument document) ∧
      ∀ e ∈ (spec.walk document).edits, ∃ v ∈ spec.visits document,
        v.location = some e.location ∧ v.data = document.get? e.location := by
  refine ⟨visits_eq h hdoc, ?_, ?_⟩
  · intro a ha
    obtain ⟨leaf, hsees, hreaches⟩ := sees_of_mem_arrivals h hdoc ha
    exact hreaches.seesDocument hsees
  · intro e he
    obtain ⟨v, hv, hl⟩ := visit_of_mem_edits he
    exact ⟨v, hv, hl, data_eq_of_mem_visits h hdoc hv hl⟩

/-- Defaults for an element of a list and for a key that the document lacks. -/
theorem walk_sees_document_list :
    ∃ spec : CompiledSpec Json,
      compile Operation.default (.obj [("a[]", .obj [("0", .bool true)]), ("b", .null)]) {} =
        .ok spec ∧
      (Json.obj [("a", .arr [.null])]).WellFormed ∧
      spec.visits (.obj [("a", .arr [.null])]) =
        (spec.arrivals (.obj [("a", .arr [.null])])).map Arrival.visit ∧
      (∀ a ∈ spec.arrivals (.obj [("a", .arr [.null])]),
        a.SeesDocument (.obj [("a", .arr [.null])])) ∧
      ∀ e ∈ (spec.walk (.obj [("a", .arr [.null])])).edits,
        ∃ v ∈ spec.visits (.obj [("a", .arr [.null])]),
          v.location = some e.location ∧
            v.data = (Json.obj [("a", .arr [.null])]).get? e.location := by
  have hwell : (Json.obj [("a", .arr [.null])]).WellFormed :=
    ⟨by decide, ⟨trivial, trivial⟩, trivial⟩
  have hcompiles : (compile Operation.default
      (.obj [("a[]", .obj [("0", .bool true)]), ("b", .null)]) {}).toOption.isSome = true := by
    decide +kernel
  obtain ⟨spec, hspec⟩ := exists_of_isSome hcompiles
  exact ⟨spec, hspec, hwell, walk_sees_document hspec hwell⟩

end CompiledSpec
end Reshape
