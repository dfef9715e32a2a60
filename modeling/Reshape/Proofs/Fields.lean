import Reshape.Json.Fields
import Mathlib.Data.String.Basic
/-!
# Lookups in sorted fields

Where keys strictly increase, a field is found exactly if it is there. Two field lists in key
order can be joined from either side with the same result in the same order.
-/
namespace Reshape.Fields

variable {α β γ : Type}

instance (fields : List (String × α)) : Decidable (Sorted fields) :=
  inferInstanceAs (Decidable (fields.Pairwise fun a b => a.1 < b.1))

theorem mem_of_lookup {key : String} {value : α} {fields : List (String × α)}
    (h : fields.lookup key = some value) : (key, value) ∈ fields := by
  obtain ⟨before, after, rfl, -⟩ := List.lookup_eq_some_iff.mp h
  exact List.mem_append_right before List.mem_cons_self

theorem lookup_eq_none {key : String} {fields : List (String × α)}
    (h : ∀ field ∈ fields, field.1 ≠ key) : fields.lookup key = none := by
  rw [List.lookup_eq_none_iff]
  intro field hf
  have hne := (h field hf).symm
  simpa using hne

theorem lookup_cons_of_ne {key other : String} (h : other ≠ key) (value : α)
    (fields : List (String × α)) :
    ((key, value) :: fields).lookup other = fields.lookup other := by
  have hb : (other == key) = false := by simpa using h
  rw [List.lookup_cons, hb]

@[simp] theorem lookup_map (f : α → β) (key : String) (fields : List (String × α)) :
    (fields.map fun field => (field.1, f field.2)).lookup key = (fields.lookup key).map f := by
  induction fields with
  | nil => rfl
  | cons field rest ih =>
    obtain ⟨k, v⟩ := field
    rw [List.map_cons, List.lookup_cons, List.lookup_cons, ih]
    cases key == k <;> rfl

theorem lookup_of_mem {key : String} {value : α} {fields : List (String × α)}
    (hs : Sorted fields) (hm : (key, value) ∈ fields) : fields.lookup key = some value := by
  induction fields with
  | nil => cases hm
  | cons field rest ih =>
    obtain ⟨k, v⟩ := field
    obtain ⟨hk, hrest⟩ := List.pairwise_cons.mp hs
    rcases List.mem_cons.mp hm with he | hm
    · cases he
      rw [List.lookup_cons_self]
    · have hlt : k < key := hk _ hm
      rw [lookup_cons_of_ne (String.ne_of_lt hlt).symm, ih hrest hm]

@[simp] theorem contains_eq_false {key : String} {fields : List (String × α)} :
    contains key fields = false ↔ fields.lookup key = none := by
  rw [contains, Option.isSome_eq_false_iff, Option.isNone_iff_eq_none]

theorem mem_insert {key : String} {value : α} {fields : List (String × α)}
    {field : String × α} (h : field ∈ insert key value fields) :
    field = (key, value) ∨ field ∈ fields := by
  induction fields with
  | nil => exact .inl (List.mem_singleton.mp h)
  | cons head rest ih =>
    obtain ⟨k, v⟩ := head
    rw [insert] at h
    split at h
    · exact List.mem_cons.mp h
    · split at h
      · rcases List.mem_cons.mp h with h | h
        · exact .inl h
        · exact .inr (List.mem_cons_of_mem _ h)
      · rcases List.mem_cons.mp h with rfl | h
        · exact .inr List.mem_cons_self
        · rcases ih h with h | h
          · exact .inl h
          · exact .inr (List.mem_cons_of_mem _ h)

/-- Inserting keeps the keys in order. -/
theorem insert_sorted (key : String) (value : α) {fields : List (String × α)}
    (h : Sorted fields) : Sorted (insert key value fields) := by
  induction fields with
  | nil => exact List.pairwise_singleton _ _
  | cons head rest ih =>
    obtain ⟨k, v⟩ := head
    obtain ⟨hk, hrest⟩ := List.pairwise_cons.mp h
    rw [insert]
    split
    · rename_i hlt
      refine List.pairwise_cons.mpr ⟨?_, h⟩
      intro field hf
      rcases List.mem_cons.mp hf with rfl | hf
      · exact hlt
      · exact String.lt_trans hlt (hk field hf)
    · rename_i hnlt
      split
      · rename_i he
        subst he
        exact List.pairwise_cons.mpr ⟨hk, hrest⟩
      · rename_i hne
        refine List.pairwise_cons.mpr ⟨?_, ih hrest⟩
        intro field hf
        rcases mem_insert hf with rfl | hf
        · have hle : k ≤ key := String.not_lt.mp hnlt
          exact lt_of_le_of_ne hle (Ne.symm hne)
        · exact hk field hf

@[simp] theorem insert_insert (key : String) (first second : α) (fields : List (String × α)) :
    insert key second (insert key first fields) = insert key second fields := by
  induction fields with
  | nil => simp [insert]
  | cons field rest ih =>
    obtain ⟨k, v⟩ := field
    rw [insert, insert]
    split
    · simp [insert]
    · rename_i hlt
      split
      · simp [insert]
      · rename_i hne
        rw [insert, if_neg hlt, if_neg hne, ih]

section Insert

variable {key other k : String} {v w u : α} {rest : List (String × α)}

theorem insert_cons_of_lt (h : key < k) :
    insert key v ((k, u) :: rest) = (key, v) :: (k, u) :: rest := by
  rw [insert, if_pos h]

@[simp] theorem insert_cons_self : insert k v ((k, u) :: rest) = (k, v) :: rest := by
  rw [insert, if_neg (lt_irrefl k), if_pos rfl]

theorem insert_cons_of_gt (h : k < key) :
    insert key v ((k, u) :: rest) = (k, u) :: insert key v rest := by
  rw [insert, if_neg (lt_asymm h), if_neg (String.ne_of_lt h).symm]

theorem insert_comm_of_lt (h : key < other) (v w : α) (fields : List (String × α)) :
    insert key v (insert other w fields) = insert other w (insert key v fields) := by
  induction fields with
  | nil =>
    have hright : insert other w [(key, v)] = (key, v) :: insert other w [] := insert_cons_of_gt h
    exact (insert_cons_of_lt h).trans hright.symm
  | cons field rest ih =>
    obtain ⟨k, u⟩ := field
    rcases lt_trichotomy key k with hk | rfl | hk
    · rw [insert_cons_of_lt hk, insert_cons_of_gt h]
      rcases lt_trichotomy other k with ho | rfl | ho
      · rw [insert_cons_of_lt ho, insert_cons_of_lt h]
      · rw [insert_cons_self, insert_cons_of_lt h]
      · rw [insert_cons_of_gt ho, insert_cons_of_lt hk]
    · rw [insert_cons_of_gt h, insert_cons_self, insert_cons_self, insert_cons_of_gt h]
    · have ho : k < other := lt_trans hk h
      rw [insert_cons_of_gt ho, insert_cons_of_gt hk, insert_cons_of_gt hk, insert_cons_of_gt ho,
        ih]

/-- Two fields of different keys may be put in either order. -/
theorem insert_comm (h : key ≠ other) (v w : α) (fields : List (String × α)) :
    insert key v (insert other w fields) = insert other w (insert key v fields) := by
  rcases lt_trichotomy key other with hlt | he | hgt
  · exact insert_comm_of_lt hlt v w fields
  · exact absurd he h
  · exact (insert_comm_of_lt hgt w v fields).symm

end Insert

section Split

variable {before after : List (String × α)} {name : String}

theorem lookup_split (h : ∀ field ∈ before, field.1 < name) (value : α) :
    (before ++ (name, value) :: after).lookup name = some value := by
  refine List.lookup_eq_some_iff.mpr ⟨before, after, rfl, ?_⟩
  intro field hf
  simpa using (String.ne_of_lt (h field hf)).symm

theorem insert_split (h : ∀ field ∈ before, field.1 < name) (old value : α) :
    insert name value (before ++ (name, old) :: after) = before ++ (name, value) :: after := by
  induction before with
  | nil => exact insert_cons_self
  | cons field rest ih =>
    obtain ⟨key, v⟩ := field
    rw [List.cons_append, insert_cons_of_gt (h _ List.mem_cons_self),
      ih fun field hf => h field (List.mem_cons_of_mem _ hf)]
    rfl

theorem insert_between (hb : ∀ field ∈ before, field.1 < name)
    (ha : ∀ field ∈ after, name < field.1) (value : α) :
    insert name value (before ++ after) = before ++ (name, value) :: after := by
  induction before with
  | nil =>
    cases after with
    | nil => rfl
    | cons field rest => exact insert_cons_of_lt (ha field List.mem_cons_self)
  | cons field rest ih =>
    obtain ⟨key, v⟩ := field
    rw [List.cons_append, insert_cons_of_gt (hb _ List.mem_cons_self),
      ih fun field hf => hb field (List.mem_cons_of_mem _ hf)]
    rfl

theorem insert_last (h : ∀ field ∈ before, field.1 < name) (value : α) :
    insert name value before = before ++ [(name, value)] := by
  have hnone : ∀ field ∈ ([] : List (String × α)), name < field.1 := nofun
  have hbetween := insert_between h hnone value
  rwa [List.append_nil] at hbetween

theorem erase_split (hb : ∀ field ∈ before, field.1 < name)
    (ha : ∀ field ∈ after, name < field.1) (value : α) :
    erase name (before ++ (name, value) :: after) = before ++ after := by
  have hkeep : ∀ {fields : List (String × α)}, (∀ field ∈ fields, field.1 ≠ name) →
      erase name fields = fields := by
    intro fields h
    exact List.filter_eq_self.mpr fun field hf => by simpa using h field hf
  have hbefore := hkeep fun field hf => String.ne_of_lt (hb field hf)
  have hafter := hkeep fun field hf => (String.ne_of_lt (ha field hf)).symm
  have hself : ((name, value).1 != name) = false := by simp
  rw [erase] at hbefore hafter ⊢
  rw [List.filter_append, List.filter_cons, hself, hbefore, hafter]
  rfl

end Split

/-- A field that was taken out is put back in its place. -/
theorem insert_erase {key : String} {value : α} {fields : List (String × α)} (hs : Sorted fields)
    (h : fields.lookup key = some value) : insert key value (erase key fields) = fields := by
  obtain ⟨before, after, rfl, -⟩ := List.lookup_eq_some_iff.mp h
  obtain ⟨-, hafter, hacross⟩ := List.pairwise_append.mp hs
  have hb : ∀ field ∈ before, field.1 < key := fun field hf =>
    hacross field hf _ List.mem_cons_self
  have ha := (List.pairwise_cons.mp hafter).1
  rw [erase_split hb ha, insert_between hb ha]

/-- A field of a sorted list is taken out of it. -/
theorem perm_erase {key : String} {value : α} {fields : List (String × α)} (hs : Sorted fields)
    (h : fields.lookup key = some value) : fields.Perm ((key, value) :: erase key fields) := by
  obtain ⟨before, after, rfl, -⟩ := List.lookup_eq_some_iff.mp h
  obtain ⟨-, hafter, hacross⟩ := List.pairwise_append.mp hs
  rw [erase_split (fun field hf => hacross field hf _ List.mem_cons_self)
    (List.pairwise_cons.mp hafter).1]
  exact List.perm_middle

theorem insert_perm {key : String} {fields : List (String × α)}
    (h : ∀ field ∈ fields, field.1 ≠ key) (value : α) :
    (insert key value fields).Perm ((key, value) :: fields) := by
  induction fields with
  | nil => exact .refl _
  | cons field rest ih =>
    obtain ⟨k, v⟩ := field
    obtain ⟨hk, hrest⟩ := List.forall_mem_cons.mp h
    rw [insert]
    split
    · exact .refl _
    · rw [if_neg (Ne.symm hk)]
      exact ((ih hrest).cons (k, v)).trans (.swap (key, value) (k, v) rest)

/-- Fields of new keys are put into a list one after the other. -/
theorem foldl_insert_perm {keys : List String} {fields : List (String × α)} (hkeys : keys.Nodup)
    (h : ∀ key ∈ keys, fields.lookup key = none) (value : α) :
    (keys.foldl (fun fields key => insert key value fields) fields).Perm
      (keys.map (·, value) ++ fields) := by
  induction keys generalizing fields with
  | nil => exact .refl _
  | cons key rest ih =>
    obtain ⟨hkey, hrest⟩ := List.nodup_cons.mp hkeys
    obtain ⟨hnew, hothers⟩ := List.forall_mem_cons.mp h
    have hnext : ∀ other ∈ rest, (insert key value fields).lookup other = none := by
      intro other ho
      rw [lookup_insert_of_ne (ne_of_mem_of_not_mem ho hkey)]
      exact hothers other ho
    have hinsert : (insert key value fields).Perm ((key, value) :: fields) := by
      refine insert_perm (fun field hf => ?_) value
      have hne : key ≠ field.1 := by simpa using List.lookup_eq_none_iff.mp hnew field hf
      exact hne.symm
    exact (ih hrest hnext).trans ((hinsert.append_left _).trans List.perm_middle)

/-- Inserting the value that a key has changes nothing. -/
theorem insert_of_lookup {key : String} {value : α} {fields : List (String × α)}
    (hs : Sorted fields) (h : fields.lookup key = some value) :
    insert key value fields = fields := by
  obtain ⟨before, after, rfl, -⟩ := List.lookup_eq_some_iff.mp h
  obtain ⟨-, -, hacross⟩ := List.pairwise_append.mp hs
  exact insert_split (fun field hf => hacross field hf _ List.mem_cons_self) value value

/-- A key before the first one of a sorted list is none of its keys. -/
theorem ne_of_lt_head {key first : String} {value : α} {fields : List (String × α)}
    (hs : Sorted ((first, value) :: fields)) (h : key < first) :
    ∀ field ∈ (first, value) :: fields, field.1 ≠ key := by
  intro field hf
  rcases List.mem_cons.mp hf with rfl | hf
  · exact (String.ne_of_lt h).symm
  · have hlt : first < field.1 := (List.pairwise_cons.mp hs).1 field hf
    exact (String.ne_of_lt (String.lt_trans h hlt)).symm

/-- Joining two sorted field lists along their keys does not depend on which of them is gone
through. -/
theorem filterMap_join {as : List (String × α)} {bs : List (String × β)} (ha : Sorted as)
    (hb : Sorted bs) (f : String → α → β → Option γ) :
    (as.filterMap fun field => (bs.lookup field.1).bind (f field.1 field.2)) =
      bs.filterMap fun field => (as.lookup field.1).bind fun a => f field.1 a field.2 := by
  induction as generalizing bs with
  | nil => simp
  | cons head as iha =>
    obtain ⟨k, a⟩ := head
    obtain ⟨hk, has⟩ := List.pairwise_cons.mp ha
    induction bs with
    | nil => simp
    | cons head bs ihb =>
      obtain ⟨l, b⟩ := head
      obtain ⟨hl, hbs⟩ := List.pairwise_cons.mp hb
      rcases lt_trichotomy k l with hlt | rfl | hgt
      · -- The left head has no partner.
        have hne := ne_of_lt_head hb hlt
        rw [List.filterMap_cons, lookup_eq_none hne, Option.bind_none, iha has hb]
        apply List.filterMap_congr
        intro field hf
        rw [lookup_cons_of_ne (hne field hf)]
      · have hright : ∀ field ∈ as, ((k, b) :: bs).lookup field.1 = bs.lookup field.1 :=
          fun field hf => lookup_cons_of_ne (String.ne_of_lt (hk field hf)).symm b bs
        have hleft : ∀ field ∈ bs, ((k, a) :: as).lookup field.1 = as.lookup field.1 :=
          fun field hf => lookup_cons_of_ne (String.ne_of_lt (hl field hf)).symm a as
        have hrest : (as.filterMap fun field =>
              (((k, b) :: bs).lookup field.1).bind (f field.1 field.2)) =
            bs.filterMap fun field =>
              (((k, a) :: as).lookup field.1).bind fun a => f field.1 a field.2 := by
          rw [List.filterMap_congr fun field hf => by rw [hright field hf],
            List.filterMap_congr (l := bs) fun field hf => by rw [hleft field hf]]
          exact iha has hbs
        rw [List.filterMap_cons, List.filterMap_cons, List.lookup_cons_self,
          List.lookup_cons_self, Option.bind_some, Option.bind_some, hrest]
      · -- The right head has no partner.
        have hne := ne_of_lt_head ha hgt
        rw [List.filterMap_cons (l := bs), lookup_eq_none hne, Option.bind_none, ← ihb hbs]
        apply List.filterMap_congr
        intro field hf
        rw [lookup_cons_of_ne (hne field hf)]

/-- Fields in key order are known by what they give for each key. -/
theorem eq_of_lookup_eq {as bs : List (String × α)} (ha : Sorted as) (hb : Sorted bs)
    (h : ∀ key, as.lookup key = bs.lookup key) : as = bs := by
  have hnodup {fields : List (String × α)} (hs : Sorted fields) : fields.Nodup :=
    hs.imp fun hlt he => String.ne_of_lt hlt (congrArg Prod.fst he)
  have hperm : as.Perm bs := by
    refine (List.perm_ext_iff_of_nodup (hnodup ha) (hnodup hb)).mpr ?_
    rintro ⟨key, value⟩
    constructor
    · exact fun hm => mem_of_lookup ((h key).symm.trans (lookup_of_mem ha hm))
    · exact fun hm => mem_of_lookup ((h key).trans (lookup_of_mem hb hm))
  refine hperm.eq_of_pairwise ?_ ha hb
  intro a b _ _ hlt hgt
  exact absurd (String.lt_trans hlt hgt) (String.lt_irrefl _)

end Reshape.Fields
