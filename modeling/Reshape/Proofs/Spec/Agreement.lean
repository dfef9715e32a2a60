import Mathlib.Data.List.Forall2
import Reshape.Proofs.Spec.Levels
/-!
# Specs compiled side by side

Two compilations agree if both fail, or both succeed with related results and the same counts. The
errors of two that fail may differ. If the nodes of two objects agree key by key, so do the levels
that are put together from them.
-/
namespace Reshape

open Pattern (Element)

variable {τ : Type}

/-- Two results are both errors or both there and related. -/
inductive Both {ε ζ α β : Type} (R : α → β → Prop) : Except ε α → Except ζ β → Prop
  | ok {a : α} {b : β} (related : R a b) : Both R (.ok a) (.ok b)
  | error {e : ε} {e' : ζ} : Both R (.error e) (.error e')

namespace Both

variable {ε ζ α β γ δ : Type} {R : α → β → Prop} {Q : γ → δ → Prop} {x : Except ε α}
  {y : Except ζ β}

theorem bind {f : α → Except ε γ} {g : β → Except ζ δ} (h : Both R x y)
    (hf : ∀ a b, R a b → Both Q (f a) (g b)) : Both Q (x >>= f) (y >>= g) := by
  cases h with
  | ok related => exact hf _ _ related
  | error => exact .error

theorem imp {S : α → β → Prop} (h : Both R x y) (hRS : ∀ a b, R a b → S a b) : Both S x y := by
  cases h with
  | ok related => exact .ok (hRS _ _ related)
  | error => exact .error

/-- Results may be replaced by equal ones. -/
theorem of_eq {x' : Except ε α} {y' : Except ζ β} (hx : Both (· = ·) x x') (h : Both R x' y')
    (hy : Both (· = ·) y y') : Both R x y := by
  cases hx with
  | ok he =>
    cases hy with
    | ok he' => rwa [he, he']
    | error => cases h
  | error =>
    cases hy with
    | ok he => cases h
    | error => exact .error

theorem trans {η κ : Type} {z : Except η κ} {S : β → κ → Prop} {T : α → κ → Prop}
    (h : Both R x y) (h' : Both S y z) (hRS : ∀ a b c, R a b → S b c → T a c) : Both T x z := by
  cases h with
  | ok hab =>
    cases h' with
    | ok hbc => exact .ok (hRS _ _ _ hab hbc)
  | error =>
    cases h' with
    | error => exact .error

theorem of_ok (h : Both R x y) {a : α} (hx : x = .ok a) : ∃ b, y = .ok b ∧ R a b := by
  cases h with
  | ok related =>
    obtain rfl := Except.ok.inj hx
    exact ⟨_, rfl, related⟩
  | error => cases hx

end Both

/-- Two levels that are alike but for their children, which are related one by one. -/
structure Composite.Rel {α β : Type} (R : α → β → Prop) (a : Composite α) (b : Composite β) :
    Prop where
  element_eq : a.element = b.element
  rawKey_eq : a.rawKey = b.rawKey
  isArray_eq : a.isArray = b.isArray
  strategy_eq : a.strategy = b.strategy
  special : List.Forall₂ R a.special b.special
  literal : List.Forall₂ (fun x y => x.1 = y.1 ∧ R x.2 y.2) a.literal b.literal
  computed : List.Forall₂ R a.computed b.computed

namespace Fields

variable {α β : Type} {R : α → β → Prop}

theorem insert_rel (key : String) {a : α} {b : β} (hab : R a b) {as : List (String × α)}
    {bs : List (String × β)} (h : List.Forall₂ (fun x y => x.1 = y.1 ∧ R x.2 y.2) as bs) :
    List.Forall₂ (fun x y => x.1 = y.1 ∧ R x.2 y.2) (insert key a as) (insert key b bs) := by
  induction h with
  | nil => exact .cons ⟨rfl, hab⟩ .nil
  | @cons x y _ _ hxy hrest ih =>
    obtain ⟨k, v⟩ := x
    obtain ⟨k', w⟩ := y
    obtain ⟨rfl, hvw⟩ := hxy
    rw [insert, insert]
    split
    · exact .cons ⟨rfl, hab⟩ (.cons ⟨rfl, hvw⟩ hrest)
    · split
      · exact .cons ⟨rfl, hab⟩ hrest
      · exact .cons ⟨rfl, hvw⟩ ih

end Fields

namespace Build

theorem locate_ok_bind {α β : Type} (location : String) (a : α) (f : α → Build β) :
    locate location (.ok a) >>= f = f a := rfl

section

variable {α β γ δ : Type} {R : α → β → Prop} {Q : γ → δ → Prop}

/-- Whatever was compiled before, both steps fail, or both succeed with related results and the
same counts. -/
def Agree (R : α → β → Prop) (x : Build α) (y : Build β) : Prop :=
  ∀ s, Both (fun a b => R a.1 b.1 ∧ a.2 = b.2) (x.run s) (y.run s)

namespace Agree

theorem pure {a : α} {b : β} (h : R a b) : Agree R (Pure.pure a) (Pure.pure b) :=
  fun _ => .ok ⟨h, rfl⟩

theorem of_refuses {x : Build α} {y : Build β} (h : Refuses x) (h' : Refuses y) :
    Agree R x y := by
  intro s
  obtain ⟨e, he⟩ := h s
  obtain ⟨e', he'⟩ := h' s
  rw [he, he']
  exact .error

theorem refl (x : Build α) : Agree (· = ·) x x := by
  intro s
  cases x.run s with
  | ok r => exact .ok ⟨rfl, rfl⟩
  | error e => exact .error

theorem bind {x : Build α} {y : Build β} {f : α → Build γ} {g : β → Build δ} (h : Agree R x y)
    (hf : ∀ a b, R a b → Agree Q (f a) (g b)) : Agree Q (x >>= f) (y >>= g) := by
  intro s
  rw [StateT.run_bind, StateT.run_bind]
  refine (h s).bind ?_
  rintro ⟨a, t⟩ ⟨b, u⟩ ⟨hab, rfl⟩
  exact hf a b hab t

/-- The same step is taken first. -/
theorem bind_same (x : Build α) {f : α → Build γ} {g : α → Build δ}
    (hf : ∀ a, Agree Q (f a) (g a)) : Agree Q (x >>= f) (x >>= g) :=
  (refl x).bind fun a _ hab => hab ▸ hf a

theorem locate {r : Except SpecError α} {r' : Except SpecError β} (h : Both R r r')
    (location : String) : Agree R (Build.locate location r) (Build.locate location r') := by
  cases h with
  | ok related => exact pure related
  | error => exact fun _ => .error

theorem guard {c : Prop} [Decidable c] {e e' : SpecError} {f : Unit → Build γ}
    {g : Unit → Build δ} (h : Agree Q (f ()) (g ())) :
    Agree Q (if c then Build.fail e >>= f else f ()) (if c then Build.fail e' >>= g else g ()) := by
  split
  · exact fun _ => .error
  · exact h

theorem imp {x : Build α} {y : Build β} {S : α → β → Prop} (h : Agree R x y)
    (hRS : ∀ a b, R a b → S a b) : Agree S x y :=
  fun s => (h s).imp fun a b hab => ⟨hRS a.1 b.1 hab.1, hab.2⟩

theorem trans {y : Build β} {z : Build γ} {x : Build α} {S : β → γ → Prop} {T : α → γ → Prop}
    (h : Agree R x y) (h' : Agree S y z) (hRS : ∀ a b c, R a b → S b c → T a c) : Agree T x z := by
  intro s
  refine (h s).trans (h' s) ?_
  rintro a b c ⟨hab, hs⟩ ⟨hbc, ht⟩
  exact ⟨hRS a.1 b.1 c.1 hab hbc, hs.trans ht⟩

/-- What two steps give that agree is related and is given by them. -/
theorem gives {x : Build α} {y : Build β} (h : Agree R x y) :
    Agree (fun a b => R a b ∧ Gives x a ∧ Gives y b) x y := by
  intro s
  have hs := h s
  generalize hx : x.run s = rx at hs ⊢
  generalize hy : y.run s = ry at hs ⊢
  cases hs with
  | @ok a b hab => exact .ok ⟨⟨hab.1, ⟨s, a.2, hx⟩, ⟨s, b.2, hy⟩⟩, hab.2⟩
  | error => exact .error

theorem foldlM {ξ υ : Type} {E : ξ → υ → Prop} {f : α → ξ → Build α} {g : β → υ → Build β}
    (hstep : ∀ a b x y, R a b → E x y → Agree R (f a x) (g b y)) {xs : List ξ} {ys : List υ}
    (h : List.Forall₂ E xs ys) {a : α} {b : β} (hab : R a b) :
    Agree R (xs.foldlM f a) (ys.foldlM g b) := by
  induction h generalizing a b with
  | nil => exact pure hab
  | cons hxy _ ih =>
    rw [List.foldlM_cons, List.foldlM_cons]
    exact (hstep a b _ _ hab hxy).bind fun _ _ hcd => ih hcd

end Agree
end

section

variable {R : Node τ → Node τ → Prop}

/-- The children of two drafts are related one by one, and have the same canonical forms. -/
structure Draft.Rel (R : Node τ → Node τ → Prop) (d d' : Draft τ) : Prop where
  special : List.Forall₂ R d.special d'.special
  literal : List.Forall₂ (fun x y => x.1 = y.1 ∧ R x.2 y.2) d.literal d'.literal
  computed : List.Forall₂ R d.computed d'.computed
  seen_eq : d.seen = d'.seen

theorem Draft.Rel.empty : Draft.Rel R {} {} := ⟨.nil, .nil, .nil, rfl⟩

theorem Draft.Rel.put (hR : ∀ a b, R a b → a.element = b.element) {d d' : Draft τ}
    (h : d.Rel R d') {n n' : Node τ} (hn : R n n') (key : String) :
    (d.put key n).Rel R (d'.put key n') := by
  have he := hR n n' hn
  have hseen : (n.element.canonical, key) :: d.seen = (n'.element.canonical, key) :: d'.seen := by
    rw [he, h.seen_eq]
  rcases n.element.role_cases with ⟨text, hl⟩ | hs | hc
  · rw [Draft.put_literal hl, Draft.put_literal (he ▸ hl)]
    exact ⟨h.special, Fields.insert_rel text hn h.literal, h.computed, hseen⟩
  · rw [Draft.put_special hs, Draft.put_special (he ▸ hs)]
    exact ⟨List.rel_append h.special (.cons hn .nil), h.literal, h.computed, hseen⟩
  · rw [Draft.put_computed hc, Draft.put_computed (he ▸ hc)]
    exact ⟨h.special, h.literal, List.rel_append h.computed (.cons hn .nil), hseen⟩

theorem addChild_agree (hR : ∀ a b, R a b → a.element = b.element) {d d' : Draft τ}
    (h : d.Rel R d') {n n' : Node τ} (hn : R n n') (isArray : Bool) (location key : String) :
    Agree (Draft.Rel R) (addChild isArray location key d n)
      (addChild isArray location key d' n') := by
  have he := hR n n' hn
  by_cases hadmits : d.Admits isArray n.element
  · have hadmits' : d'.Admits isArray n'.element := by
      rw [Draft.Admits, ← he, ← h.seen_eq]
      exact hadmits
    rw [addChild_of_admits hadmits, addChild_of_admits hadmits', he]
    exact Agree.bind_same _ fun _ => .pure (h.put hR hn key)
  · have hadmits' : ¬ d'.Admits isArray n'.element := by
      rw [Draft.Admits, ← he, ← h.seen_eq]
      exact hadmits
    exact .of_refuses (addChild_of_not_admits hadmits location key)
      (addChild_of_not_admits hadmits' location key)

theorem chooseStrategy_rel (hR : ∀ a b, R a b → a.element = b.element)
    {literal literal' : List (String × Node τ)} {computed computed' : List (Node τ)}
    (hl : List.Forall₂ (fun x y => x.1 = y.1 ∧ R x.2 y.2) literal literal')
    (hc : List.Forall₂ R computed computed') :
    chooseStrategy literal computed = chooseStrategy literal' computed' := by
  have hkeys : literal.map Prod.fst = literal'.map Prod.fst := by
    rw [← List.forall₂_eq_eq_eq, List.forall₂_map_left_iff, List.forall₂_map_right_iff]
    exact hl.imp fun _ _ h => h.1
  have helements : computed.map Node.element = computed'.map Node.element := by
    rw [← List.forall₂_eq_eq_eq, List.forall₂_map_left_iff, List.forall₂_map_right_iff]
    exact hc.imp hR
  have hstrategy (literal : List (String × Node τ)) (computed : List (Node τ)) :
      chooseStrategy literal computed =
        if (computed.map Node.element).isEmpty then .literalsOnly
        else if (literal.map Prod.fst).isEmpty then .computedOnly
        else if (computed.map Node.element).any fun e => (literal.map Prod.fst).any e.couldMatch
          then .conflict
        else .noConflict := by
    simp only [chooseStrategy, List.isEmpty_map, List.any_map]
    rfl
  rw [hstrategy, hstrategy, hkeys, helements]

theorem Draft.Rel.level (hR : ∀ a b, R a b → a.element = b.element) {d d' : Draft τ}
    (h : d.Rel R d') (element : Element) (rawKey : String) (isArray : Bool) :
    (d.level element rawKey isArray).Rel R (d'.level element rawKey isArray) := by
  let cmp := fun a b : Node τ => a.element.comparePrecedence b.element
  have hcmp (a b c d : Node τ) (hab : R a b) (hcd : R c d) : cmp a c = cmp b d := by
    simp only [cmp, hR a b hab, hR c d hcd]
  have hcomputed : List.Forall₂ R (sortBy cmp d.computed) (sortBy cmp d'.computed) :=
    sortBy_rel hcmp h.computed
  exact ⟨rfl, rfl, rfl, chooseStrategy_rel hR h.literal hcomputed, h.special, h.literal,
    hcomputed⟩

theorem closeLevel_eq (element : Element) (rawKey : String) (isArray : Bool) (draft : Draft τ) :
    closeLevel element rawKey isArray draft =
      (do
        modify fun s => s.addStrategy (draft.level element rawKey isArray).strategy
        pure (draft.level element rawKey isArray)) := rfl

theorem closeLevel_agree {L : Level τ → Level τ → Prop} {d d' : Draft τ} {element : Element}
    {rawKey : String} {isArray : Bool}
    (hs : (d.level element rawKey isArray).strategy = (d'.level element rawKey isArray).strategy)
    (h : L (d.level element rawKey isArray) (d'.level element rawKey isArray)) :
    Agree L (closeLevel element rawKey isArray d) (closeLevel element rawKey isArray d') := by
  rw [closeLevel_eq, closeLevel_eq, hs]
  exact Agree.bind_same _ fun _ => .pure h

end

section

variable {p : Policy τ} {config : Config} {fields fields' : List (String × Json)}
  {D : Draft τ → Draft τ → Prop} {L : Level τ → Level τ → Prop}

/-- Two nodes are composites whose levels are related. -/
inductive Node.OnLevels (L : Level τ → Level τ → Prop) : Node τ → Node τ → Prop
  | intro {a b : Level τ} (related : L a b) : Node.OnLevels L (.composite a) (.composite b)

/-- The composites of two objects agree if their children and what is made of them do. -/
theorem node_agree {rawKey location : String} {depth : Nat}
    (hempty : fields.isEmpty = fields'.isEmpty)
    (hlevel : ∀ element, keyElement rawKey (.obj fields) = .ok element → ∀ isArray, Agree L
      (children p config isArray location (depth + 1) {} fields >>=
        closeLevel element rawKey isArray)
      (children p config isArray location (depth + 1) {} fields' >>=
        closeLevel element rawKey isArray)) :
    Agree (Node.OnLevels L) (node p config rawKey location depth (.obj fields))
      (node p config rawKey location depth (.obj fields')) := by
  rw [node, node, hempty]
  rcases hstrip : Pattern.stripArrayMarker rawKey with ⟨key, isArray⟩
  rw [keyElement, hstrip] at hlevel
  dsimp only
  cases hparse : Pattern.parseKey key with
  | error e => exact fun _ => .error
  | ok element =>
    rw [locate_ok_bind, locate_ok_bind]
    refine Agree.guard ?_
    refine Agree.guard ?_
    refine Agree.bind_same _ fun _ => ?_
    refine Agree.bind_same _ fun _ => ?_
    have h := hlevel element hparse isArray
    have hnode := h.bind (Q := Node.OnLevels L) (f := fun level => pure (.composite level))
      (g := fun level => pure (.composite level)) fun _ _ hab => .pure (.intro hab)
    simpa only [bind_assoc] using hnode

/-- A node fails if its key is not understood. -/
theorem node_refuses {rawKey : String} {v : Json} {e : SpecError}
    (h : keyElement rawKey v = .error e) (p : Policy τ) (config : Config) (location : String)
    (depth : Nat) : Refuses (node p config rawKey location depth v) := by
  by_cases hplain : ∀ fields, v = .obj fields → False
  · rw [keyElement_of_plain hplain] at h
    rw [node.eq_2 _ _ _ _ _ _ hplain, h]
    exact fun _ => ⟨_, rfl⟩
  · obtain ⟨fields, hv⟩ := not_forall.mp hplain
    obtain rfl := not_not.mp hv
    rw [node]
    rcases hstrip : Pattern.stripArrayMarker rawKey with ⟨key, isArray⟩
    rw [keyElement, hstrip] at h
    dsimp only at h ⊢
    rw [h]
    exact fun _ => ⟨_, rfl⟩

/-- The root levels of two objects agree if their children and what is made of them do. -/
theorem root_agree (hempty : fields.isEmpty = fields'.isEmpty)
    (hlevel : Agree L
      (children p config false "" 0 {} fields >>=
        closeLevel (.literal config.rootKey) config.rootKey false)
      (children p config false "" 0 {} fields' >>=
        closeLevel (.literal config.rootKey) config.rootKey false)) :
    Agree L (root p config (.obj fields)) (root p config (.obj fields')) := by
  rw [root, root, hempty]
  refine Agree.guard ?_
  exact Agree.bind_same _ fun _ => hlevel

end

section

variable {p : Policy τ} {config : Config} {R : Node τ → Node τ → Prop}

/-- The nodes that two values become under every alternative of a key agree. -/
def FieldAgree (p : Policy τ) (config : Config) (R : Node τ → Node τ → Prop)
    (field field' : String × Json) : Prop :=
  field.1 = field'.1 ∧ ∀ keys, Pattern.splitAlternatives field.1 = .ok keys → ∀ key ∈ keys,
    ∀ location depth, Agree R (node p config key location depth field.2)
      (node p config key location depth field'.2)

/-- The children of two objects agree if their nodes do, key by key. -/
theorem children_agree (hR : ∀ a b, R a b → a.element = b.element) {isArray : Bool}
    {location : String} {depth : Nat} {fields fields' : List (String × Json)}
    (h : List.Forall₂ (FieldAgree p config R) fields fields') {d d' : Draft τ} (hd : d.Rel R d') :
    Agree (Draft.Rel R) (children p config isArray location depth d fields)
      (children p config isArray location depth d' fields') := by
  induction h generalizing d d' with
  | nil =>
    rw [children, children]
    exact .pure hd
  | @cons x y _ _ hxy _ ih =>
    obtain ⟨rawKey, v⟩ := x
    obtain ⟨rawKey', w⟩ := y
    obtain ⟨rfl, hnodes⟩ := hxy
    rw [children, children]
    cases hsplit : Pattern.splitAlternatives rawKey with
    | error e => exact fun _ => .error
    | ok keys =>
      rw [locate_ok_bind, locate_ok_bind]
      refine Agree.bind (R := Draft.Rel R) ?_ fun _ _ hnext => ih hnext
      have hkeys : List.Forall₂ (fun x y => x = y ∧ x ∈ keys) keys keys :=
        List.forall₂_same.mpr fun key hk => ⟨rfl, hk⟩
      refine Agree.foldlM ?_ hkeys hd
      rintro a b key _ hab ⟨rfl, hk⟩
      exact (hnodes keys hsplit key hk _ depth).bind fun n n' hn =>
        addChild_agree hR hab hn isArray location key

theorem isEmpty_eq_of_forall₂ {α β : Type} {E : α → β → Prop} {xs : List α} {ys : List β}
    (h : List.Forall₂ E xs ys) : xs.isEmpty = ys.isEmpty := by
  cases h <;> rfl

/-- The levels of two objects agree if their nodes do, key by key. -/
theorem level_agree (hR : ∀ a b, R a b → a.element = b.element)
    {fields fields' : List (String × Json)}
    (h : List.Forall₂ (FieldAgree p config R) fields fields') (isArray : Bool)
    (location : String) (depth : Nat) (element : Element) (rawKey : String) :
    Agree (fun a b => a.element = element ∧ a.Rel R b)
      (children p config isArray location depth {} fields >>= closeLevel element rawKey isArray)
      (children p config isArray location depth {} fields' >>=
        closeLevel element rawKey isArray) :=
  (children_agree hR h .empty).bind fun _ _ hd =>
    have hlevel := hd.level hR element rawKey isArray
    closeLevel_agree hlevel.strategy_eq ⟨rfl, hlevel⟩

end
end Build

namespace CompiledSpec

variable {p : Policy τ} {config : Config} {raw raw' : Json} {L : Level τ → Level τ → Prop}

/-- What is known of two compiled specs whose root levels are related. -/
structure Rel (L : Level τ → Level τ → Prop) (a b : CompiledSpec τ) : Prop where
  policy_eq : a.policy = b.policy
  root : L a.root b.root
  rootKey_eq : a.rootKey = b.rootKey
  stats_eq : a.stats = b.stats

/-- Two specs whose root levels agree both fail to compile, or both compile to related specs. -/
theorem compile_agree (h : Build.Agree L (Build.root p config raw) (Build.root p config raw')) :
    Both (Rel L) (compile p raw config) (compile p raw' config) :=
  (h {}).bind fun _ _ hr => .ok ⟨rfl, hr.1, rfl, hr.2⟩

end CompiledSpec
end Reshape
