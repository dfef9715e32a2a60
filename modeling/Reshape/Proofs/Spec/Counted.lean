import Reshape.Operation.Shift
import Reshape.Proofs.Spec.Levels
import Reshape.Proofs.Spec.Sums
/-!
# The counts of a compiled spec

Compiling counts as it goes: a level when it is opened, its children when they are added to their
buckets, its strategy when it is closed. In the end the counts are those of the tree. They are added
up over its nodes, each with its depth below the root.
-/
namespace Reshape

open Pattern (Element)

variable {τ : Type}

/-! ## The nodes of a tree -/

mutual
/-- The node and all nodes below it, each with its depth. -/
def Node.nodes (depth : Nat) : Node τ → List (Nat × Node τ)
  | .leaf element rawKey target => [(depth, .leaf element rawKey target)]
  | .composite level => (depth, .composite level) :: nodesBelow (depth + 1) level

/-- The nodes below a level, the children of which are at the depth given. -/
def nodesBelow (depth : Nat) : Composite (Node τ) → List (Nat × Node τ)
  | ⟨_, _, _, special, literal, computed, _⟩ =>
    nodesAmong depth special ++ nodesNamed depth literal ++ nodesAmong depth computed

def nodesAmong (depth : Nat) : List (Node τ) → List (Nat × Node τ)
  | [] => []
  | node :: rest => node.nodes depth ++ nodesAmong depth rest

def nodesNamed (depth : Nat) : List (String × Node τ) → List (Nat × Node τ)
  | [] => []
  | (_, node) :: rest => node.nodes depth ++ nodesNamed depth rest
end

theorem nodesAmong_eq (depth : Nat) (nodes : List (Node τ)) :
    nodesAmong depth nodes = nodes.flatMap (Node.nodes depth) := by
  induction nodes with
  | nil => rfl
  | cons node rest ih => rw [nodesAmong, ih, List.flatMap_cons]

theorem nodesNamed_eq (depth : Nat) (nodes : List (String × Node τ)) :
    nodesNamed depth nodes = (nodes.map Prod.snd).flatMap (Node.nodes depth) := by
  induction nodes with
  | nil => rfl
  | cons field rest ih => rw [nodesNamed, ih, List.map_cons, List.flatMap_cons]

/-- Below a node are its children and what is below them. -/
theorem Node.nodes_composite (depth : Nat) (level : Level τ) :
    (Node.composite level).nodes depth =
      (depth, .composite level) :: level.children.flatMap (Node.nodes (depth + 1)) := by
  obtain ⟨element, rawKey, isArray, special, literal, computed, strategy⟩ := level
  rw [nodes, nodesBelow, nodesAmong_eq, nodesAmong_eq, nodesNamed_eq, Composite.children,
    List.flatMap_append, List.flatMap_append]

/-- What a level counts by itself. -/
def Composite.own (depth : Nat) (level : Level τ) : SpecStats :=
  SpecStats.addStrategy
    { composites := 1
      special := level.special.length
      literal := level.literal.length
      computed := level.computed.length
      maxDepth := depth } level.strategy

def Node.own (depth : Nat) : Node τ → SpecStats
  | .leaf _ _ _ => { leaves := 1 }
  | .composite level => level.own depth

/-- The counts of a tree, added up over its nodes. -/
def Node.stats (depth : Nat) (node : Node τ) : SpecStats :=
  ((node.nodes depth).map fun numbered => numbered.2.own numbered.1).sum

theorem Node.stats_leaf (depth : Nat) (element : Element) (rawKey : String) (target : τ) :
    (Node.leaf element rawKey target).stats depth = { leaves := 1 } := by
  rw [stats, nodes, List.map_singleton, List.sum_singleton, own]

theorem Node.stats_composite (depth : Nat) (level : Level τ) :
    (Node.composite level).stats depth =
      level.own depth + (level.children.map (Node.stats (depth + 1))).sum := by
  rw [stats, nodes_composite, List.map_cons, List.sum_cons, List.map_flatMap, List.flatMap_def,
    List.sum_flatten, List.map_map]
  rfl

def Node.level? : Node τ → Option (Level τ)
  | .leaf _ _ _ => none
  | .composite level => some level

/-- The levels among some nodes, each with its depth. -/
def levelsOf (nodes : List (Nat × Node τ)) : List (Nat × Level τ) :=
  nodes.filterMap fun numbered => numbered.2.level?.map (numbered.1, ·)

/-- The counts are those of the nodes, one by one. -/
structure SpecStats.Counts (stats : SpecStats) (nodes : List (Nat × Node τ)) : Prop where
  composites : stats.composites = (levelsOf nodes).length
  leaves : stats.leaves = nodes.countP fun numbered => numbered.2.level?.isNone
  special : stats.special = ((levelsOf nodes).map fun numbered => numbered.2.special.length).sum
  literal : stats.literal = ((levelsOf nodes).map fun numbered => numbered.2.literal.length).sum
  computed : stats.computed = ((levelsOf nodes).map fun numbered => numbered.2.computed.length).sum
  literalsOnly : stats.literalsOnly =
    (levelsOf nodes).countP fun numbered => numbered.2.strategy = .literalsOnly
  computedOnly : stats.computedOnly =
    (levelsOf nodes).countP fun numbered => numbered.2.strategy = .computedOnly
  noConflict : stats.noConflict =
    (levelsOf nodes).countP fun numbered => numbered.2.strategy = .noConflict
  conflict : stats.conflict =
    (levelsOf nodes).countP fun numbered => numbered.2.strategy = .conflict

@[simp] theorem levelsOf_append (nodes more : List (Nat × Node τ)) :
    levelsOf (nodes ++ more) = levelsOf nodes ++ levelsOf more := List.filterMap_append

/-- Counts of some nodes and of others add up to those of all of them. -/
theorem SpecStats.Counts.append {a b : SpecStats} {nodes more : List (Nat × Node τ)}
    (ha : a.Counts nodes) (hb : b.Counts more) : (a + b).Counts (nodes ++ more) := by
  constructor <;>
    simp only [SpecStats.add_def, SpecStats.plus, levelsOf_append, List.length_append,
      List.countP_append, List.map_append, List.sum_append, ha.composites, ha.leaves, ha.special,
      ha.literal, ha.computed, ha.literalsOnly, ha.computedOnly, ha.noConflict, ha.conflict,
      hb.composites, hb.leaves, hb.special, hb.literal, hb.computed, hb.literalsOnly,
      hb.computedOnly, hb.noConflict, hb.conflict]

theorem Node.own_counts (depth : Nat) (node : Node τ) :
    (node.own depth).Counts [(depth, node)] := by
  cases node with
  | leaf element rawKey target => constructor <;> rfl
  | composite level =>
    obtain ⟨element, rawKey, isArray, special, literal, computed, strategy⟩ := level
    cases strategy <;> constructor <;> rfl

/-- What each node counts by itself adds up to the counts of all of them. -/
theorem counts_sum (nodes : List (Nat × Node τ)) :
    SpecStats.Counts (nodes.map fun numbered => numbered.2.own numbered.1).sum nodes := by
  induction nodes with
  | nil => constructor <;> rfl
  | cons numbered rest ih =>
    rw [List.map_cons, List.sum_cons, ← List.singleton_append]
    exact (numbered.2.own_counts numbered.1).append ih

/-- The depth that is counted is that of the deepest level. -/
theorem maxDepth_sum (nodes : List (Nat × Node τ)) :
    ((levelsOf nodes).map Prod.fst).max?.getD 0 =
      SpecStats.maxDepth (nodes.map fun numbered => numbered.2.own numbered.1).sum := by
  induction nodes with
  | nil => rfl
  | cons numbered rest ih =>
    obtain ⟨depth, node⟩ := numbered
    rw [List.map_cons, List.sum_cons, SpecStats.add_def, SpecStats.plus]
    dsimp only
    rw [← ih]
    cases node with
    | leaf element rawKey target => exact (Nat.zero_max _).symm
    | composite level =>
      have hown : (level.own depth).maxDepth = depth := by
        rw [Composite.own]
        cases level.strategy <;> rfl
      have hlevels : levelsOf ((depth, .composite level) :: rest) =
          (depth, level) :: levelsOf rest := rfl
      rw [hlevels, List.map_cons, List.max?_cons, Option.getD_some, Node.own, hown]
      cases ((levelsOf rest).map Prod.fst).max? with
      | none => exact (Nat.max_zero depth).symm
      | some deepest => rfl

/-- There is one node more than there are places in buckets. -/
def SpecStats.Balanced (stats : SpecStats) : Prop :=
  stats.composites + stats.leaves = 1 + (stats.special + stats.literal + stats.computed)

/-- Balanced trees have, taken together, as many more nodes as there are trees. -/
theorem SpecStats.balanced_sum {trees : List SpecStats} (h : ∀ tree ∈ trees, tree.Balanced) :
    trees.sum.composites + trees.sum.leaves =
      trees.length + (trees.sum.special + trees.sum.literal + trees.sum.computed) := by
  induction trees with
  | nil => rfl
  | cons tree rest ih =>
    obtain ⟨htree, hrest⟩ := List.forall_mem_cons.mp h
    have hsum := ih hrest
    rw [Balanced] at htree
    rw [List.sum_cons, add_def, plus, List.length_cons]
    dsimp only
    omega

/-- Every node of a level but the level itself is in one bucket, if that holds of its children. -/
theorem Composite.balanced {level : Level τ} {depth : Nat}
    (h : ∀ child ∈ level.children, (child.stats (depth + 1)).Balanced) :
    ((Node.composite level).stats depth).Balanced := by
  have hchildren := SpecStats.balanced_sum (List.forall_mem_map.mpr h)
  have hlength : (level.children.map (Node.stats (depth + 1))).length =
      level.special.length + level.literal.length + level.computed.length := by
    rw [List.length_map, ← level.childCount_eq, Composite.childCount]
  have hown : (level.own depth).composites = 1 ∧ (level.own depth).leaves = 0 ∧
      (level.own depth).special = level.special.length ∧
      (level.own depth).literal = level.literal.length ∧
      (level.own depth).computed = level.computed.length := by
    rw [Composite.own]
    cases level.strategy <;> exact ⟨rfl, rfl, rfl, rfl, rfl⟩
  obtain ⟨hcomposites, hleaves, hspecial, hliteral, hcomputed⟩ := hown
  rw [SpecStats.Balanced, Node.stats_composite, SpecStats.add_def, SpecStats.plus]
  dsimp only
  omega

theorem Node.balanced (node : Node τ) (depth : Nat) : (node.stats depth).Balanced := by
  induction node using Node.of_children generalizing depth with
  | leaf element rawKey target =>
    rw [Node.stats_leaf]
    rfl
  | composite level ih => exact Composite.balanced fun child hc => ih child hc (depth + 1)

namespace Build

namespace Draft

/-- The children that each bucket holds. -/
def sizes (draft : Draft τ) : SpecStats where
  special := draft.special.length
  literal := draft.literal.length
  computed := draft.computed.length

/-- What is counted of a level in progress: the children in its buckets, and all below them. -/
def stats (depth : Nat) (draft : Draft τ) : SpecStats :=
  draft.sizes + (draft.children.map (Node.stats depth)).sum

@[simp] theorem stats_empty (depth : Nat) : ({} : Draft τ).stats depth = 0 := rfl

variable {p : Policy τ} {draft : Draft τ} {node : Node τ}

/-- A child under a new key is one more in its bucket. -/
theorem sizes_put (ho : draft.Ordered p)
    (hnew : ∀ child ∈ draft.children, child.element.canonical ≠ node.element.canonical)
    (key : String) : (draft.put key node).sizes = draft.sizes + bucket node.element 0 := by
  rw [SpecStats.zero_def, SpecStats.add_def, ← bucket_eq]
  rcases node.element.role_cases with ⟨text, he⟩ | hs | hc
  · have hlength := (insert_perm_of_literal ho hnew he).length_eq
    rw [put_literal he, bucket, he]
    simp only [sizes, hlength]
    rfl
  · have hrole : node.element.role = .special := by simpa [Element.isSpecial] using hs
    rw [put_special hs, bucket, hrole]
    simp only [sizes, List.length_append]
    rfl
  · have hrole : node.element.role = .computed := by simpa [Element.isComputed] using hc
    rw [put_computed hc, bucket, hrole]
    simp only [sizes, List.length_append]
    rfl

/-- A child that is put under a new key counts in its bucket, and all below it counts. -/
theorem stats_put (ho : draft.Ordered p)
    (hnew : ∀ child ∈ draft.children, child.element.canonical ≠ node.element.canonical)
    (key : String) (depth : Nat) :
    (draft.put key node).stats depth =
      draft.stats depth + (node.stats depth + bucket node.element 0) := by
  have hchildren := ((children_put ho hnew key).map (Node.stats depth)).sum_eq
  rw [stats, hchildren, sizes_put ho hnew, List.map_cons, List.sum_cons, stats]
  ac_rfl

/-- Closing a level counts its strategy, and leaves all below it as it is. -/
theorem stats_level (draft : Draft τ) (element : Element) (rawKey : String) (isArray : Bool)
    (depth : Nat) :
    (Node.composite (draft.level element rawKey isArray)).stats depth =
      { composites := 1, maxDepth := depth } + draft.stats (depth + 1) +
        SpecStats.addStrategy 0 (draft.level element rawKey isArray).strategy := by
  have hperm := sortBy_perm (fun a b : Node τ => a.element.comparePrecedence b.element)
    draft.computed
  have hchildren : ((draft.level element rawKey isArray).children.map
      (Node.stats (depth + 1))).sum = (draft.children.map (Node.stats (depth + 1))).sum :=
    ((hperm.append_left _).map _).sum_eq
  have hown : (draft.level element rawKey isArray).own depth =
      { composites := 1, maxDepth := depth } + draft.sizes +
        SpecStats.addStrategy 0 (draft.level element rawKey isArray).strategy := by
    rw [Composite.own, SpecStats.addStrategy_eq]
    congr 1
    simp [level, sizes, hperm.length_eq, SpecStats.add_def, SpecStats.plus]
  rw [Node.stats_composite, hchildren, hown, stats]
  ac_rfl

end Draft

/-! ## Counting while compiling -/

section Runs

variable {α β : Type} {s s' : SpecStats}

theorem run_bind_eq_ok {x : Build α} {f : α → Build β} {b : β}
    (h : (x >>= f).run s = .ok (b, s')) :
    ∃ a t, x.run s = .ok (a, t) ∧ (f a).run t = .ok (b, s') := by
  rw [StateT.run_bind] at h
  cases hx : x.run s with
  | error e => rw [hx] at h; cases h
  | ok r =>
    rw [hx] at h
    exact ⟨r.1, r.2, rfl, h⟩

theorem run_locate_eq_ok {location : String} {r : Except SpecError α} {a : α}
    (h : (locate location r).run s = .ok (a, s')) : r = .ok a ∧ s' = s := by
  cases r with
  | error e => cases h
  | ok b =>
    cases h
    exact ⟨rfl, rfl⟩

theorem run_guard_eq_ok {c : Prop} [Decidable c] {e : SpecError} {f : Unit → Build β} {b : β}
    (h : (if c then fail e >>= f else f ()).run s = .ok (b, s')) :
    ¬ c ∧ (f ()).run s = .ok (b, s') := by
  by_cases hc : c
  · rw [if_pos hc] at h
    cases h
  · rw [if_neg hc] at h
    exact ⟨hc, h⟩

theorem run_openLevel_eq_ok {config : Config} {location : String} {depth : Nat} {u : Unit}
    (h : (openLevel config location depth).run s = .ok (u, s')) :
    depth ≤ config.maxSpecDepth ∧ s' = s + { composites := 1, maxDepth := depth } := by
  rw [openLevel] at h
  split at h
  · cases h
  · rename_i hdepth
    cases h
    exact ⟨Nat.not_lt.mp hdepth, s.addComposite_eq depth⟩

theorem run_addChild_eq_ok {isArray : Bool} {location key : String} {draft draft' : Draft τ}
    {node : Node τ} (h : (addChild isArray location key draft node).run s = .ok (draft', s')) :
    draft.seen.lookup node.element.canonical = none ∧ draft' = draft.put key node ∧
      s' = s + bucket node.element 0 := by
  obtain ⟨harray, hseen, -⟩ := gives_addChild ⟨s, s', h⟩
  rw [addChild_of_admits ⟨harray, hseen⟩] at h
  cases h
  exact ⟨hseen, rfl, bucket_eq node.element s⟩

theorem run_closeLevel_eq_ok {element : Element} {rawKey : String} {isArray : Bool}
    {draft : Draft τ} {level : Level τ}
    (h : (closeLevel element rawKey isArray draft).run s = .ok (level, s')) :
    level = draft.level element rawKey isArray ∧
      s' = s + SpecStats.addStrategy 0 level.strategy := by
  cases h
  exact ⟨rfl, SpecStats.addStrategy_eq _ _⟩

end Runs

/-- What is counted while a draft grows: all that it gains, and no level that is too deep. -/
def Draft.Counted (config : Config) (depth : Nat) (draft draft' : Draft τ) (s s' : SpecStats) :
    Prop :=
  ∃ more : SpecStats, s' = s + more ∧ draft'.stats depth = draft.stats depth + more ∧
    more.maxDepth ≤ config.maxSpecDepth

namespace Draft.Counted

variable {config : Config} {depth : Nat} {draft draft' draft'' : Draft τ} {s s' s'' : SpecStats}

theorem refl (config : Config) (depth : Nat) (draft : Draft τ) (s : SpecStats) :
    Draft.Counted config depth draft draft s s :=
  ⟨0, (add_zero s).symm, (add_zero _).symm, Nat.zero_le _⟩

theorem trans (h : Draft.Counted config depth draft draft' s s')
    (h' : Draft.Counted config depth draft' draft'' s' s'') :
    Draft.Counted config depth draft draft'' s s'' := by
  obtain ⟨more, rfl, hdraft, hmore⟩ := h
  obtain ⟨more', rfl, hdraft', hmore'⟩ := h'
  refine ⟨more + more', add_assoc s more more', ?_, Nat.max_le.mpr ⟨hmore, hmore'⟩⟩
  rw [hdraft', hdraft, add_assoc]

end Draft.Counted

/-- A node counts what is in its tree, none of which is too deep. -/
def CountsNode (p : Policy τ) (config : Config) (depth : Nat) (value : Json) : Prop :=
  ∀ ⦃rawKey location : String⦄ ⦃node : Node τ⦄ ⦃s s' : SpecStats⦄,
    (Build.node p config rawKey location depth value).run s = .ok (node, s') →
      s' = s + node.stats (depth + 1) ∧ (node.stats (depth + 1)).maxDepth ≤ config.maxSpecDepth

section Steps

variable {p : Policy τ} {config : Config} {depth : Nat} {value : Json}

@[simp] theorem bucket_maxDepth (e : Element) : (bucket e 0).maxDepth = 0 := by
  rw [bucket]
  cases e.role <;> rfl

/-- One more alternative of a key is counted with its node and its bucket. -/
theorem alternative_counted {isArray : Bool} {location key : String} {draft draft' : Draft τ}
    {done : List (Alternative τ)} (hvalue : CountsNode p config depth value)
    (ho : draft.Ordered p) (hd : draft.Keeps done) {s s' : SpecStats}
    (h : (do
      let child ← Build.node p config key (childLocation location key) depth value
      addChild isArray location key draft child).run s = .ok (draft', s')) :
    draft.Counted config (depth + 1) draft' s s' := by
  obtain ⟨child, t, hchild, hadd⟩ := run_bind_eq_ok h
  obtain ⟨rfl, hdepth⟩ := hvalue hchild
  obtain ⟨hseen, rfl, rfl⟩ := run_addChild_eq_ok hadd
  refine ⟨_, add_assoc _ _ _, Draft.stats_put ho (hd.children_ne hseen) key (depth + 1), ?_⟩
  refine Nat.max_le.mpr ⟨hdepth, ?_⟩
  rw [bucket_maxDepth]
  exact Nat.zero_le _

/-- The alternatives of a key are counted one after the other. -/
theorem alternatives_counted {isArray : Bool} {location : String} {done : List (Alternative τ)}
    (hvalue : CountsNode p config depth value) {keys earlier : List String}
    {draft draft' : Draft τ} {s s' : SpecStats} (hd : draft.Extends p done value earlier)
    (h : (keys.foldlM (fun draft key => do
      let child ← Build.node p config key (childLocation location key) depth value
      addChild isArray location key draft child) draft).run s = .ok (draft', s')) :
    draft'.Extends p done value (earlier ++ keys) ∧
      draft.Counted config (depth + 1) draft' s s' := by
  induction keys generalizing earlier draft s with
  | nil =>
    cases h
    exact ⟨(List.append_nil earlier).symm ▸ hd, .refl _ _ _ _⟩
  | cons key keys ih =>
    rw [List.foldlM_cons] at h
    obtain ⟨next, t, hfirst, hrest⟩ := run_bind_eq_ok h
    obtain ⟨entries, -, hkeeps⟩ := hd.keeps
    have hnext : next.Extends p done value (earlier ++ [key]) :=
      hd.step (fun hchild => node_from hchild) ⟨s, t, hfirst⟩
    obtain ⟨hall, hcounted⟩ := ih hnext hrest
    rw [List.append_assoc] at hall
    exact ⟨hall, (alternative_counted hvalue hd.ordered hkeeps hfirst).trans hcounted⟩

theorem leaf_counts (hvalue : ∀ fields, value = .obj fields → False) :
    CountsNode p config depth value := by
  intro rawKey location node s s' h
  rw [Build.node.eq_2 _ _ _ _ _ _ hvalue] at h
  obtain ⟨element, t, helement, hrest⟩ := run_bind_eq_ok h
  obtain ⟨⟨⟩, t', hvalidate, hrest'⟩ := run_bind_eq_ok hrest
  obtain ⟨target, t'', htarget, hleaf⟩ := run_bind_eq_ok hrest'
  obtain ⟨-, rfl⟩ := run_locate_eq_ok helement
  obtain ⟨-, rfl⟩ := run_locate_eq_ok hvalidate
  obtain ⟨-, rfl⟩ := run_locate_eq_ok htarget
  cases hleaf
  rw [Node.stats_leaf]
  exact ⟨SpecStats.addLeaf_eq _, Nat.zero_le _⟩

/-- What a level counts when it is opened, its children are gone through and it is closed. -/
theorem level_counts {isArray : Bool} {location rawKey : String}
    {element : Element} {draft : Draft τ} {level : Level τ} {s t t' s' : SpecStats}
    (hopen : (openLevel config location depth).run s = .ok ((), t))
    (hdraft : Draft.Counted config (depth + 1) {} draft t t')
    (hclose : (closeLevel element rawKey isArray draft).run t' = .ok (level, s')) :
    s' = s + (Node.composite level).stats depth ∧
      ((Node.composite level).stats depth).maxDepth ≤ config.maxSpecDepth := by
  obtain ⟨hdepth, rfl⟩ := run_openLevel_eq_ok hopen
  obtain ⟨more, rfl, hmore, hbelow⟩ := hdraft
  obtain ⟨rfl, rfl⟩ := run_closeLevel_eq_ok hclose
  rw [Draft.stats_empty, zero_add] at hmore
  rw [Draft.stats_level, hmore]
  refine ⟨by ac_rfl, ?_⟩
  have hstrategy (strategy : Strategy) : (SpecStats.addStrategy 0 strategy).maxDepth = 0 := by
    cases strategy <;> rfl
  refine Nat.max_le.mpr ⟨Nat.max_le.mpr ⟨hdepth, hbelow⟩, ?_⟩
  rw [hstrategy]
  exact Nat.zero_le _

end Steps

mutual
/-- The recursion is that of the compiler over the spec. -/
theorem node_counts (p : Policy τ) (config : Config) (depth : Nat) :
    ∀ value : Json, CountsNode p config depth value
  | .obj fields => by
    intro rawKey location node s s' h
    rw [Build.node] at h
    rcases hstrip : Pattern.stripArrayMarker rawKey with ⟨key, isArray⟩
    rw [hstrip] at h
    obtain ⟨element, t₁, helement, h₁⟩ := run_bind_eq_ok h
    obtain ⟨-, rfl⟩ := run_locate_eq_ok helement
    obtain ⟨-, h₂⟩ := run_guard_eq_ok h₁
    obtain ⟨-, h₃⟩ := run_guard_eq_ok h₂
    obtain ⟨⟨⟩, t₂, hvalidate, h₄⟩ := run_bind_eq_ok h₃
    obtain ⟨-, rfl⟩ := run_locate_eq_ok hvalidate
    obtain ⟨⟨⟩, t₃, hopen, h₅⟩ := run_bind_eq_ok h₄
    obtain ⟨draft, t₄, hdraft, h₆⟩ := run_bind_eq_ok h₅
    obtain ⟨level, t₅, hclose, h₇⟩ := run_bind_eq_ok h₆
    cases h₇
    exact level_counts hopen (children_counted p config (depth + 1) fields .empty .empty hdraft)
      hclose
  | .null => leaf_counts nofun
  | .bool _ => leaf_counts nofun
  | .num _ => leaf_counts nofun
  | .str _ => leaf_counts nofun
  | .arr _ => leaf_counts nofun

theorem children_counted (p : Policy τ) (config : Config) (depth : Nat) :
    ∀ (fields : List (String × Json)) {isArray : Bool} {location : String}
      {draft draft' : Draft τ} {done : List (Alternative τ)} {s s' : SpecStats},
      draft.Ordered p → draft.Keeps done →
      (children p config isArray location depth draft fields).run s = .ok (draft', s') →
      draft.Counted config (depth + 1) draft' s s'
  | [], isArray, location, draft, draft', done, s, s', _, _, h => by
    rw [children] at h
    cases h
    exact .refl _ _ _ _
  | (rawChild, value) :: rest, isArray, location, draft, draft', done, s, s', ho, hd, h => by
    rw [children] at h
    obtain ⟨keys, t₁, hkeys, h₁⟩ := run_bind_eq_ok h
    obtain ⟨-, rfl⟩ := run_locate_eq_ok hkeys
    obtain ⟨next, t₂, hnext, hrest⟩ := run_bind_eq_ok h₁
    obtain ⟨⟨hordered, entries, -, hkeeps⟩, hcounted⟩ :=
      alternatives_counted (node_counts p config depth value) (.start ho hd value) hnext
    exact hcounted.trans (children_counted p config depth rest hordered hkeeps hrest)
end

/-- The counts of a root level that compiles are those of its tree. -/
theorem root_counts {p : Policy τ} {config : Config} {spec : Json} {level : Level τ}
    {stats : SpecStats} (h : (root p config spec).run {} = .ok (level, stats)) :
    stats = (Node.composite level).stats 0 ∧ stats.maxDepth ≤ config.maxSpecDepth := by
  cases spec with
  | obj fields =>
    rw [root] at h
    obtain ⟨-, h₁⟩ := run_guard_eq_ok h
    obtain ⟨⟨⟩, t₁, hopen, h₂⟩ := run_bind_eq_ok h₁
    obtain ⟨draft, t₂, hdraft, hclose⟩ := run_bind_eq_ok h₂
    obtain ⟨hstats, hdepth⟩ :=
      level_counts hopen (children_counted p config 0 fields .empty .empty hdraft) hclose
    have hall : stats = (Node.composite level).stats 0 := hstats.trans (zero_add _)
    exact ⟨hall, hall ▸ hdepth⟩
  | _ => cases h

/-- **The counts describe the compiled tree.** They are the numbers of its levels and of its leaves,
the sizes of the buckets of all levels, the numbers of levels with each strategy, and the depth of
the deepest level, which is not too deep. All nodes but the root are in buckets. -/
theorem counts_describe {p : Policy τ} {config : Config} {spec : Json} {root : Level τ}
    {stats : SpecStats} (h : (Build.root p config spec).run {} = .ok (root, stats)) :
    stats.Counts ((Node.composite root).nodes 0) ∧
      stats.composites + stats.leaves = 1 + (stats.special + stats.literal + stats.computed) ∧
      ((levelsOf ((Node.composite root).nodes 0)).map Prod.fst).max? = some stats.maxDepth ∧
      stats.maxDepth ≤ config.maxSpecDepth := by
  obtain ⟨rfl, hdepth⟩ := root_counts h
  have hlevels : levelsOf ((Node.composite root).nodes 0) =
      (0, root) :: levelsOf (root.children.flatMap (Node.nodes 1)) := by
    rw [Node.nodes_composite]
    rfl
  have hdeepest := maxDepth_sum ((Node.composite root).nodes 0)
  refine ⟨counts_sum _, Node.balanced _ 0, ?_, hdepth⟩
  rw [Node.stats, ← hdeepest, hlevels, List.map_cons, List.max?_cons, Option.getD_some]

/-- An or-group above a nested level, whose children are in all three buckets. -/
theorem counts_describe_groups :
    let spec : Json := .obj [("@", .str "w"), ("a|b*", .obj [("*", .str "y"), ("c", .str "x")])]
    ∃ root : Level (List Pattern.WritePath), ∃ stats : SpecStats,
      (Build.root Operation.shift {} spec).run {} = .ok (root, stats) ∧
      stats = { composites := 3, leaves := 5, special := 1, literal := 3, computed := 3,
                maxDepth := 1, noConflict := 1, conflict := 2 } ∧
      stats.Counts ((Node.composite root).nodes 0) ∧
      ((levelsOf ((Node.composite root).nodes 0)).map Prod.fst).max? = some stats.maxDepth := by
  intro spec
  have hstats : ((Build.root Operation.shift {} spec).run {}).toOption.map Prod.snd =
      some { composites := 3, leaves := 5, special := 1, literal := 3, computed := 3,
             maxDepth := 1, noConflict := 1, conflict := 2 } := by
    decide +kernel
  cases hrun : (Build.root Operation.shift {} spec).run {} with
  | error e =>
    rw [hrun] at hstats
    cases hstats
  | ok r =>
    rw [hrun] at hstats
    obtain ⟨hcounts, -, hdeepest, -⟩ := counts_describe hrun
    exact ⟨r.1, r.2, rfl, Option.some.inj hstats, hcounts, hdeepest⟩

end Build

end Reshape
