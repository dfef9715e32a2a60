import Reshape.Proofs.Spec.Agreement
import Reshape.Proofs.Spec.Sums
/-!
# The order of keys in a spec

Compiling a key does the same whatever was compiled before it, and adds the same counts. So the
keys of an object may be compiled in any order: either all orders fail, or all give one level, up to
the order of its special children.
-/
namespace Reshape

open Pattern (Element)

variable {τ : Type}

namespace Build

variable {α β γ δ : Type}

/-- The step gives one result and adds one count whatever was compiled before, or it always
fails. -/
inductive Steady (x : Build α) : Prop
  | gives (a : α) (counts : SpecStats) (runs : ∀ s, x.run s = .ok (a, s.plus counts))
  | fails (refuses : Refuses x)

namespace Steady

theorem pure (a : α) : Steady (Pure.pure a) :=
  .gives a {} fun s => by
    rw [SpecStats.plus_empty]
    rfl

theorem modify {f : SpecStats → SpecStats} (counts : SpecStats) (h : ∀ s, f s = s.plus counts) :
    Steady (modify f) :=
  .gives () counts fun s => by
    rw [← h s]
    rfl

theorem bind {x : Build α} {f : α → Build β} (hx : Steady x) (hf : ∀ a, Steady (f a)) :
    Steady (x >>= f) := by
  cases hx with
  | fails refuses => exact .fails (refuses.bind f)
  | gives a counts runs =>
    cases hf a with
    | fails refuses =>
      refine .fails fun s => ?_
      rw [run_bind_of_ok (runs s)]
      exact refuses _
    | gives b more hb =>
      refine .gives b (counts.plus more) fun s => ?_
      rw [run_bind_of_ok (runs s), hb, SpecStats.plus_assoc]

theorem locate (location : String) (r : Except SpecError α) : Steady (Build.locate location r) := by
  cases r with
  | ok a => exact .pure a
  | error e => exact .fails fun _ => ⟨_, rfl⟩

theorem guard {c : Prop} [Decidable c] {e : SpecError} {f : Unit → Build β} (h : Steady (f ())) :
    Steady (if c then Build.fail e >>= f else f ()) := by
  split
  · exact .fails fun _ => ⟨_, rfl⟩
  · exact h

theorem foldlM {f : β → α → Build β} (h : ∀ b a, Steady (f b a)) (xs : List α) (b : β) :
    Steady (xs.foldlM f b) := by
  induction xs generalizing b with
  | nil => exact .pure b
  | cons x xs ih =>
    rw [List.foldlM_cons]
    exact (h b x).bind ih

/-- Two steps may be taken in either order. -/
theorem comm {x : Build α} {y : Build β} (hx : Steady x) (hy : Steady y) {Q : γ → δ → Prop}
    {f : α → β → Build γ} {g : α → β → Build δ} (h : ∀ a b, Agree Q (f a b) (g a b)) :
    Agree Q (x >>= fun a => y >>= fun b => f a b) (y >>= fun b => x >>= fun a => g a b) := by
  cases hx with
  | fails refuses => exact .of_refuses (refuses.bind _) (.after y fun b => refuses.bind _)
  | gives a counts runs =>
    cases hy with
    | fails refuses => exact .of_refuses (.after x fun a => refuses.bind _) (refuses.bind _)
    | gives b more runs' =>
      intro s
      rw [run_bind_of_ok (runs s), run_bind_of_ok (runs' _), run_bind_of_ok (runs' s),
        run_bind_of_ok (runs _), SpecStats.plus_right_comm]
      exact h a b _

end Steady

section Nodes

variable {p : Policy τ} {config : Config} {isArray : Bool} {location : String} {depth : Nat}

theorem addChild_steady (isArray : Bool) (location key : String) (draft : Draft τ) (node : Node τ) :
    Steady (addChild isArray location key draft node) := by
  by_cases h : draft.Admits isArray node.element
  · rw [addChild_of_admits h]
    exact Steady.bind (.modify _ (bucket_eq _)) fun _ => .pure _
  · exact .fails (addChild_of_not_admits h location key)

theorem leaf_steady {key : String} {value : Json} (h : ∀ fields, value = .obj fields → False) :
    Steady (Build.node p config key location depth value) := by
  rw [Build.node.eq_2 _ _ _ _ _ _ h]
  refine Steady.bind (.locate _ _) fun _ => ?_
  refine Steady.bind (.locate _ _) fun _ => ?_
  refine Steady.bind (.locate _ _) fun _ => ?_
  exact Steady.bind (.modify _ SpecStats.addLeaf_eq) fun _ => .pure _

theorem openLevel_steady (config : Config) (location : String) (depth : Nat) :
    Steady (openLevel config location depth) := by
  rw [openLevel]
  split
  · exact .fails fun _ => ⟨_, rfl⟩
  · exact .modify _ fun s => s.addComposite_eq depth

theorem closeLevel_steady (element : Element) (rawKey : String) (isArray : Bool)
    (draft : Draft τ) : Steady (closeLevel element rawKey isArray draft) := by
  rw [closeLevel_eq]
  exact Steady.bind (.modify _ fun s => s.addStrategy_eq _) fun _ => .pure _

mutual
theorem node_steady {key location : String} {depth : Nat} :
    ∀ value : Json, Steady (Build.node p config key location depth value)
  | .obj fields => by
    rw [Build.node]
    refine Steady.bind (.locate _ _) fun _ => ?_
    refine Steady.guard ?_
    refine Steady.guard ?_
    refine Steady.bind (.locate _ _) fun _ => ?_
    refine Steady.bind (openLevel_steady _ _ _) fun _ => ?_
    refine Steady.bind (children_steady fields) fun _ => ?_
    exact Steady.bind (closeLevel_steady _ _ _ _) fun _ => .pure _
  | .null => leaf_steady nofun
  | .bool _ => leaf_steady nofun
  | .num _ => leaf_steady nofun
  | .str _ => leaf_steady nofun
  | .arr _ => leaf_steady nofun

theorem children_steady {isArray : Bool} {location : String} {depth : Nat} {draft : Draft τ} :
    ∀ fields : List (String × Json),
      Steady (children p config isArray location depth draft fields)
  | [] => by
    rw [children]
    exact .pure draft
  | (rawChild, value) :: rest => by
    rw [children]
    refine Steady.bind (.locate _ _) fun keys => ?_
    refine Steady.bind (.foldlM (fun draft key => ?_) keys draft) fun _ => children_steady rest
    exact Steady.bind (node_steady value) fun _ => addChild_steady _ _ _ _ _
end

end Nodes

/-! ## Drafts up to the order of their children -/

namespace Draft

theorem special_put (draft : Draft τ) (key : String) (node : Node τ) :
    (draft.put key node).special =
      draft.special ++ [node].filter fun node => node.element.isSpecial := by
  rcases node.element.role_cases with ⟨text, he⟩ | hs | hc
  · rw [put_literal he, List.filter_cons, he]
    exact (List.append_nil _).symm
  · rw [put_special hs, List.filter_cons, if_pos hs]
    rfl
  · rw [put_computed hc, List.filter_cons, Element.isSpecial_of_isComputed hc]
    exact (List.append_nil _).symm

theorem computed_put (draft : Draft τ) (key : String) (node : Node τ) :
    (draft.put key node).computed =
      draft.computed ++ [node].filter fun node => node.element.isComputed := by
  rcases node.element.role_cases with ⟨text, he⟩ | hs | hc
  · rw [put_literal he, List.filter_cons, he]
    exact (List.append_nil _).symm
  · have hc : ¬ node.element.isComputed = true := fun hc => by
      rw [Element.isSpecial_of_isComputed hc] at hs
      cases hs
    rw [put_special hs, List.filter_cons, if_neg hc]
    exact (List.append_nil _).symm
  · rw [put_computed hc, List.filter_cons, if_pos hc]
    rfl

/-- A child is put under its text if it is literal. -/
theorem literal_put (draft : Draft τ) (key : String) (node : Node τ) :
    (draft.put key node).literal = match node.element with
      | .literal text => Fields.insert text node draft.literal
      | _ => draft.literal := by
  rcases node.element.role_cases with ⟨text, he⟩ | hs | hc
  · rw [put_literal he, he]
  · rw [put_special hs]
    split
    · rename_i he
      rw [he] at hs
      cases hs
    · rfl
  · rw [put_computed hc]
    split
    · rename_i he
      rw [he] at hc
      cases hc
    · rfl

/-- Two drafts with the same children, in any order but in their literal ones. -/
structure Same (d d' : Draft τ) : Prop where
  special : d.special.Perm d'.special
  literal_eq : d.literal = d'.literal
  computed : d.computed.Perm d'.computed
  seen : d.seen.Perm d'.seen

namespace Same

variable {d d' : Draft τ}

theorem refl (d : Draft τ) : d.Same d := ⟨.refl _, rfl, .refl _, .refl _⟩

theorem trans {d'' : Draft τ} (h : d.Same d') (h' : d'.Same d'') : d.Same d'' :=
  ⟨h.special.trans h'.special, h.literal_eq.trans h'.literal_eq, h.computed.trans h'.computed,
    h.seen.trans h'.seen⟩

theorem admits_iff (h : d.Same d') (isArray : Bool) (e : Element) :
    d.Admits isArray e ↔ d'.Admits isArray e := by
  simp only [Admits, List.lookup_eq_none_iff, h.seen.mem_iff]

theorem put (h : d.Same d') (key : String) (node : Node τ) :
    (d.put key node).Same (d'.put key node) := by
  constructor
  · rw [special_put, special_put]
    exact h.special.append_right _
  · rw [literal_put, literal_put, h.literal_eq]
  · rw [computed_put, computed_put]
    exact h.computed.append_right _
  · rw [seen_put, seen_put]
    exact h.seen.cons _

/-- Two children with different canonical forms may be put in either order. -/
theorem put_put (h : d.Same d') {n m : Node τ} (hne : n.element.canonical ≠ m.element.canonical)
    (key other : String) :
    ((d.put key n).put other m).Same ((d'.put other m).put key n) := by
  constructor
  · rw [special_put, special_put, special_put, special_put, List.append_assoc, List.append_assoc]
    exact h.special.append List.perm_append_comm
  · rw [literal_put, literal_put, literal_put, literal_put, h.literal_eq]
    cases hn : n.element with
    | literal text =>
      cases hm : m.element with
      | literal text' =>
        have htext : text ≠ text' := by
          rintro rfl
          rw [hn, hm] at hne
          exact hne rfl
        exact Fields.insert_comm htext.symm m n d'.literal
      | _ => rfl
    | _ => rfl
  · rw [computed_put, computed_put, computed_put, computed_put, List.append_assoc,
      List.append_assoc]
    exact h.computed.append List.perm_append_comm
  · simp only [seen_put]
    exact ((h.seen.cons _).cons _).trans (.swap _ _ _)

end Same

theorem admits_put (draft : Draft τ) (isArray : Bool) (key : String) (node : Node τ) (e : Element) :
    (draft.put key node).Admits isArray e ↔
      draft.Admits isArray e ∧ node.element.canonical ≠ e.canonical := by
  have hlookup : ((node.element.canonical, key) :: draft.seen).lookup e.canonical = none ↔
      node.element.canonical ≠ e.canonical ∧ draft.seen.lookup e.canonical = none := by
    rw [List.lookup_cons]
    by_cases he : e.canonical = node.element.canonical
    · simp [he]
    · simp [beq_false_of_ne he, Ne.symm he]
  rw [Admits, Admits, seen_put, hlookup]
  constructor
  · rintro ⟨ha, hne, hs⟩
    exact ⟨⟨ha, hs⟩, hne⟩
  · rintro ⟨⟨ha, hs⟩, hne⟩
    exact ⟨ha, hne, hs⟩

end Draft

section Order

variable {p : Policy τ} {config : Config} {isArray : Bool} {location : String} {depth : Nat}
  {d d' : Draft τ}

theorem addChild_same (h : d.Same d') (isArray : Bool) (location key : String) (node : Node τ) :
    Agree Draft.Same (addChild isArray location key d node)
      (addChild isArray location key d' node) := by
  by_cases hadmits : d.Admits isArray node.element
  · rw [addChild_of_admits hadmits, addChild_of_admits ((h.admits_iff isArray _).mp hadmits)]
    exact Agree.bind_same _ fun _ => .pure (h.put key node)
  · have hadmits' := mt (h.admits_iff isArray node.element).mpr hadmits
    exact .of_refuses (addChild_of_not_admits hadmits location key)
      (addChild_of_not_admits hadmits' location key)

/-- Of two children one is refused, if there is no room for one of them or they are the same. -/
theorem addChild_twice_refuses {n m : Node τ}
    (h : ¬ (d.Admits isArray n.element ∧ d.Admits isArray m.element ∧
      n.element.canonical ≠ m.element.canonical)) (location key other : String) :
    Refuses (addChild isArray location key d n >>= fun draft =>
      addChild isArray location other draft m) := by
  by_cases hn : d.Admits isArray n.element
  · have hm : ¬ (d.put key n).Admits isArray m.element := by
      rw [Draft.admits_put]
      exact fun hm => h ⟨hn, hm⟩
    simp only [addChild_of_admits hn, bind_assoc, pure_bind]
    exact Refuses.after _ fun _ => addChild_of_not_admits hm location other
  · exact Refuses.bind (addChild_of_not_admits hn location key) _

theorem addChild_swap (h : d.Same d') (isArray : Bool) (location key other : String)
    (n m : Node τ) :
    Agree Draft.Same
      (addChild isArray location key d n >>= fun draft => addChild isArray location other draft m)
      (addChild isArray location other d' m >>= fun draft =>
        addChild isArray location key draft n) := by
  by_cases hroom : d.Admits isArray n.element ∧ d.Admits isArray m.element ∧
      n.element.canonical ≠ m.element.canonical
  · obtain ⟨hn, hm, hne⟩ := hroom
    have hn' := (h.admits_iff isArray _).mp hn
    have hm' := (h.admits_iff isArray _).mp hm
    have hnm := (Draft.admits_put d isArray key n m.element).mpr ⟨hm, hne⟩
    have hmn := (Draft.admits_put d' isArray other m n.element).mpr ⟨hn', hne.symm⟩
    simp only [addChild_of_admits hn, addChild_of_admits hm', bind_assoc, pure_bind,
      addChild_of_admits hnm, addChild_of_admits hmn]
    exact Steady.comm (.modify _ (bucket_eq _)) (.modify _ (bucket_eq _)) fun _ _ =>
      .pure (h.put_put hne key other)
  · have hroom' : ¬ (d'.Admits isArray m.element ∧ d'.Admits isArray n.element ∧
        m.element.canonical ≠ n.element.canonical) := by
      rw [← h.admits_iff, ← h.admits_iff]
      exact fun ⟨hm, hn, hne⟩ => hroom ⟨hn, hm, hne.symm⟩
    exact .of_refuses (addChild_twice_refuses hroom location key other)
      (addChild_twice_refuses hroom' location other key)

/-- Compile one alternative of a key and add it to its level. -/
def addAlternative (p : Policy τ) (config : Config) (isArray : Bool) (location : String)
    (depth : Nat) (draft : Draft τ) (alternative : String × Json) : Build (Draft τ) := do
  let child ← node p config alternative.1 (childLocation location alternative.1) depth alternative.2
  addChild isArray location alternative.1 draft child

theorem addAlternative_same (h : d.Same d') (alternative : String × Json) :
    Agree Draft.Same (addAlternative p config isArray location depth d alternative)
      (addAlternative p config isArray location depth d' alternative) :=
  Agree.bind_same _ fun child => addChild_same h isArray location alternative.1 child

/-- Two alternatives may be compiled in either order. -/
theorem addAlternative_swap (h : d.Same d') (a b : String × Json) :
    Agree Draft.Same
      (addAlternative p config isArray location depth d a >>= fun draft =>
        addAlternative p config isArray location depth draft b)
      (addAlternative p config isArray location depth d' b >>= fun draft =>
        addAlternative p config isArray location depth draft a) := by
  let nodeOf (x : String × Json) : Build (Node τ) :=
    node p config x.1 (childLocation location x.1) depth x.2
  let add (x : String × Json) (draft : Draft τ) (child : Node τ) : Build (Draft τ) :=
    addChild isArray location x.1 draft child
  have hadd (x : String × Json) (draft : Draft τ) (child : Node τ) : Steady (add x draft child) :=
    addChild_steady isArray location x.1 draft child
  have hnode (x : String × Json) : Steady (nodeOf x) := node_steady x.2
  have hleft : Agree (· = ·)
      ((nodeOf a >>= fun n => add a d n) >>= fun draft => nodeOf b >>= fun m => add b draft m)
      (nodeOf b >>= fun m => (nodeOf a >>= fun n => add a d n) >>= fun draft => add b draft m) :=
    Steady.comm ((hnode a).bind fun n => hadd a d n) (hnode b) fun _ _ => .refl _
  have hmiddle : Agree Draft.Same
      (nodeOf b >>= fun m => (nodeOf a >>= fun n => add a d n) >>= fun draft => add b draft m)
      (nodeOf b >>= fun m => nodeOf a >>= fun n => add b d' m >>= fun draft => add a draft n) := by
    refine Agree.bind_same _ fun m => ?_
    rw [bind_assoc]
    exact Agree.bind_same _ fun n => addChild_swap h isArray location a.1 b.1 n m
  have hright : Agree (· = ·)
      (nodeOf b >>= fun m => nodeOf a >>= fun n => add b d' m >>= fun draft => add a draft n)
      ((nodeOf b >>= fun m => add b d' m) >>= fun draft =>
        nodeOf a >>= fun n => add a draft n) := by
    rw [bind_assoc]
    exact Agree.bind_same _ fun m => Steady.comm (hnode a) (hadd b d' m) fun _ _ => .refl _
  refine hleft.trans hmiddle (T := Draft.Same) ?_ |>.trans hright ?_
  · rintro _ _ _ rfl hs
    exact hs
  · rintro _ _ _ hs rfl
    exact hs

/-- The alternatives of a level may be compiled in any order. -/
theorem foldlM_perm {as bs : List (String × Json)} (hperm : as.Perm bs) (h : d.Same d') :
    Agree Draft.Same (as.foldlM (addAlternative p config isArray location depth) d)
      (bs.foldlM (addAlternative p config isArray location depth) d') := by
  induction hperm generalizing d d' with
  | nil => exact .pure h
  | cons a _ ih =>
    rw [List.foldlM_cons, List.foldlM_cons]
    exact (addAlternative_same h a).bind fun _ _ hnext => ih hnext
  | swap a b rest =>
    simp only [List.foldlM_cons, ← bind_assoc]
    refine (addAlternative_swap h b a).bind fun _ _ hnext => ?_
    refine Agree.foldlM (E := (· = ·)) ?_ (List.forall₂_refl rest) hnext
    rintro _ _ x _ hsame rfl
    exact addAlternative_same hsame x
  | trans _ _ ih ih' => exact (ih h).trans (ih' (.refl d')) fun _ _ _ hs hs' => hs.trans hs'

/-- The children of a level are those of the alternatives of its keys. -/
theorem children_eq_foldlM {fields alternatives : List (String × Json)}
    (h : expand fields = .ok alternatives) (d : Draft τ) :
    children p config isArray location depth d fields =
      alternatives.foldlM (addAlternative p config isArray location depth) d := by
  induction fields generalizing d alternatives with
  | nil =>
    obtain rfl := Except.ok.inj h
    rw [children]
    rfl
  | cons field rest ih =>
    obtain ⟨rawKey, value⟩ := field
    rw [expand] at h
    cases hsplit : Pattern.splitAlternatives rawKey with
    | error e =>
      rw [hsplit] at h
      cases h
    | ok keys =>
      cases hmore : expand rest with
      | error e =>
        rw [hsplit, hmore] at h
        cases h
      | ok more =>
        rw [hsplit, hmore] at h
        obtain rfl := Except.ok.inj h
        rw [children, hsplit, locate_ok_bind, List.foldlM_append, List.foldlM_map]
        exact congrArg (_ >>= ·) (funext fun draft => ih hmore draft)

/-- A level is refused if one of its keys has no alternatives. -/
theorem children_refuses {fields : List (String × Json)} {e : SpecError}
    (h : expand fields = .error e) (d : Draft τ) :
    Refuses (children p config isArray location depth d fields) := by
  induction fields generalizing d with
  | nil => cases h
  | cons field rest ih =>
    obtain ⟨rawKey, value⟩ := field
    rw [children]
    rw [expand] at h
    cases hsplit : Pattern.splitAlternatives rawKey with
    | error e => exact fun _ => ⟨_, rfl⟩
    | ok keys =>
      cases hmore : expand rest with
      | error e' =>
        obtain rfl : e' = e := by
          rw [hsplit, hmore] at h
          exact Except.error.inj h
        rw [locate_ok_bind]
        exact Refuses.after _ fun draft => ih hmore draft
      | ok more =>
        rw [hsplit, hmore] at h
        cases h

/-- The keys of an object may be compiled in any order. -/
theorem children_permuted {fields fields' : List (String × Json)}
    (hexpand : Both List.Perm (expand fields) (expand fields')) (h : d.Same d') :
    Agree Draft.Same (children p config isArray location depth d fields)
      (children p config isArray location depth d' fields') := by
  cases has : expand fields with
  | error e =>
    cases hbs : expand fields' with
    | error e' => exact .of_refuses (children_refuses has d) (children_refuses hbs d')
    | ok bs =>
      rw [has, hbs] at hexpand
      cases hexpand
  | ok as =>
    cases hbs : expand fields' with
    | error e' =>
      rw [has, hbs] at hexpand
      cases hexpand
    | ok bs =>
      rw [has, hbs] at hexpand
      cases hexpand with
      | ok hperm =>
        rw [children_eq_foldlM has, children_eq_foldlM hbs]
        exact foldlM_perm hperm h

end Order

/-! ## Levels up to the order of their special children -/

end Build

/-- The second level is the first one with its special children in another order. -/
structure Composite.Reordered (a b : Level τ) : Prop where
  special : a.special.Perm b.special
  others_eq : b = { a with special := b.special }

namespace Build

variable {p : Policy τ} {config : Config} {isArray : Bool} {location : String} {depth : Nat}

/-- Two drafts with the same children become one level, if they were made by compiling. -/
theorem level_reordered {d d' : Draft τ} (h : d.Same d') {fields fields' : List (String × Json)}
    (hd : Gives (children p config isArray location depth {} fields) d)
    (hd' : Gives (children p config isArray location depth {} fields') d') (element : Element)
    (rawKey : String) :
    (d.level element rawKey isArray).Reordered (d'.level element rawKey isArray) := by
  have hincreasing {d : Draft τ} {fields : List (String × Json)}
      (hd : Gives (children p config isArray location depth {} fields) d) :
      (d.level element rawKey isArray).computed.Pairwise fun a b =>
        a.element.comparePrecedence b.element = .lt := by
    obtain ⟨entries, -, hkeeps⟩ := children_keeps .empty .empty hd
    exact (hkeeps.level (children_ordered .empty hd) element rawKey isArray).2.increasing
  have hcomputed : (d.level element rawKey isArray).computed =
      (d'.level element rawKey isArray).computed := by
    have hperm : (d.level element rawKey isArray).computed.Perm
        (d'.level element rawKey isArray).computed :=
      (sortBy_perm _ d.computed).trans (h.computed.trans (sortBy_perm _ d'.computed).symm)
    refine hperm.eq_of_pairwise ?_ (hincreasing hd) (hincreasing hd')
    intro a b _ _ hab hba
    have hswap : b.element.comparePrecedence a.element =
        (a.element.comparePrecedence b.element).swap := Std.OrientedCmp.eq_swap
    rw [hab, hba] at hswap
    cases hswap
  refine ⟨h.special, ?_⟩
  simp only [Draft.level] at hcomputed ⊢
  rw [h.literal_eq, hcomputed]

/-- Objects whose keys have the same alternatives in any order compile to one level. -/
theorem level_permuted {fields fields' : List (String × Json)}
    (hexpand : Both List.Perm (expand fields) (expand fields')) (isArray : Bool)
    (location : String) (depth : Nat) (element : Element) (rawKey : String) :
    Agree Composite.Reordered
      (children p config isArray location depth {} fields >>= closeLevel element rawKey isArray)
      (children p config isArray location depth {} fields' >>=
        closeLevel element rawKey isArray) := by
  refine (children_permuted hexpand (.refl {})).gives.bind fun d d' => ?_
  rintro ⟨hsame, hd, hd'⟩
  have hlevel := level_reordered hsame hd hd' element rawKey
  refine closeLevel_agree ?_ hlevel
  rw [hlevel.others_eq]

end Build
end Reshape
