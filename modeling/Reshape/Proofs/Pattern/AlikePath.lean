import Reshape.Proofs.Pattern.Alike
/-!
# Runs of paths and lookups

Paths and lookups are read alike wherever they start, and to whatever depth their lookups may nest,
as long as the depth is no less than the length of the text. The path of a lookup is where the
offset slips.
-/
namespace Reshape.Pattern

open Scan

theorem AlikeExcept.map {α β : Type} {text : List Char} {p : Nat} {r r' : Except ScanError α}
    (f : α → β) (h : AlikeExcept text p r r') : AlikeExcept text p (r.map f) (r'.map f) := by
  cases h with
  | ok a => exact .ok (f a)
  | error points => exact .error points

theorem AlikeExcept.bind {α β : Type} {text : List Char} {p : Nat} {r r' : Except ScanError α}
    {f g : α → Except ScanError β} (h : AlikeExcept text p r r')
    (hf : ∀ a, AlikeExcept text p (f a) (g a)) : AlikeExcept text p (r >>= f) (r' >>= g) := by
  cases h with
  | ok a => exact hf a
  | error points => exact .error points

/-- A reading of a part is a reading of the text that it is part of. -/
theorem AlikeExcept.of_part {α : Type} {before mid after : List Char} {p : Nat}
    {r r' : Except ScanError α} (h : AlikeExcept mid (p + before.length) r r') :
    AlikeExcept (before ++ mid ++ after) p r r' := by
  cases h with
  | ok a => exact .ok a
  | error points => exact .error points.of_part

theorem Scan.AlikeOn.runOn {α : Type} {x y : Scan α} {text : List Char} (h : AlikeOn x y text)
    (p q : Nat) : AlikeExcept text p (x.runOn text p) (y.runOn text q) := by
  have hrun := h p q
  rw [Scan.runOn, Scan.runOn, EStateM.run, EStateM.run]
  generalize x ⟨p, text⟩ = r at hrun
  generalize y ⟨q, text⟩ = r' at hrun
  cases hrun with
  | ok a split => exact .ok a
  | error points => exact .error points

section Paths

variable {lookup lookup' : Scan Lookup}

theorem Scan.AlikeUpTo.mono {α : Type} {x y : Scan α} {limit limit' : Nat}
    (h : AlikeUpTo limit x y) (hle : limit' ≤ limit) : AlikeUpTo limit' x y :=
  fun text ht => h text (Nat.le_trans ht hle)

theorem length_le_of_split {text taken rest : List Char} (h : text = taken ++ rest) :
    rest.length ≤ text.length := by
  rw [h, List.length_append]
  exact Nat.le_add_left _ _

theorem indexWith_alike {limit : Nat} (hl : AlikeUpTo limit lookup lookup') :
    AlikeUpTo limit (indexWith lookup) (indexWith lookup') := by
  intro text ht
  have hclose (step : PathStep) (rest : List Char) :
      Steady (do Scan.expect ']'; pure step) rest :=
    (steady_expect ']' rest).bind fun _ rest => .pure step rest
  refine AlikeOn.bind (steady_expect '[' text) fun _ taken rest hrest => ?_
  refine AlikeOn.peek ?_
  split
  · exact hclose _ rest
  · -- A reference.
    exact (steady_advance rest).bind fun _ rest => (steady_referenceTail rest).bind fun r rest =>
      hclose _ rest
  · -- A count.
    refine (steady_advance rest).bind fun _ rest => ?_
    refine (steady_referenceTail rest).bind fun r rest => ?_
    split
    · exact .fail (α := PathStep) nofun
    · exact hclose _ rest
  · -- A lookup.
    have hlength := length_le_of_split hrest
    exact (hl rest (by omega)).bind fun l _ rest _ => hclose _ rest
  · rename_i c _ _ _ _ hc
    split
    · -- A position.
      refine AlikeOn.position fun p q => ?_
      refine Alike.bind (steady_number rest p q) fun n taken' rest' h => ?_
      by_cases hn : n > Address.maxIndex
      · rw [if_pos hn, if_pos hn]
        exact AlikeOn.failAt (α := PathStep) (k := 0) (Nat.zero_le _) rfl
      · rw [if_neg hn, if_neg hn]
        exact (hclose _ rest' _ _).after h
    · exact Steady.fail (α := PathStep) fun d hd => by cases hd; exact hc
  · exact Steady.fail (α := PathStep) nofun

theorem indicesWith_alike {limit : Nat} (hl : AlikeUpTo limit lookup lookup') (fuel : Nat) :
    AlikeUpTo limit (indicesWith lookup fuel) (indicesWith lookup' fuel) := by
  induction fuel with
  | zero => exact fun text _ => Steady.pure [] text
  | succ fuel ih =>
    intro text ht
    refine AlikeOn.peek ?_
    split
    · exact Steady.pure [] text
    · refine (indexWith_alike hl text ht).bind fun step _ rest hrest => ?_
      have hlength := length_le_of_split hrest
      exact (ih rest (by omega)).bind fun more _ rest _ => Steady.pure (step :: more) rest
    · rename_i c _ hc
      exact Steady.fail fun d hd => by cases hd; exact hc

theorem segmentWith_alike {limit : Nat} (hl : AlikeUpTo limit lookup lookup') :
    AlikeUpTo limit (segmentWith lookup) (segmentWith lookup') := by
  intro text ht
  have hindices (head : List PathStep) {rest : List Char} (hrest : rest.length ≤ limit) :
      AlikeOn (do
        let text ← Scan.rest
        let indices ← indicesWith lookup text.length
        pure (head ++ indices)) (do
        let text ← Scan.rest
        let indices ← indicesWith lookup' text.length
        pure (head ++ indices)) rest :=
    AlikeOn.rest ((indicesWith_alike hl rest.length rest hrest).bind fun indices _ rest _ =>
      Steady.pure (head ++ indices) rest)
  refine AlikeOn.peek ?_
  split
  · refine (hl text ht).bind fun l _ rest hrest => hindices _ ?_
    exact Nat.le_trans (length_le_of_split hrest) ht
  · exact hindices [] ht
  · refine AlikeOn.bind (steady_pieces false _ text) fun read _ rest hrest => hindices _ ?_
    exact Nat.le_trans (length_le_of_split hrest) ht

theorem PartOf.length_le {whole : List Char} {part : List Char × Nat} (h : PartOf whole part) :
    part.1.length ≤ whole.length := by
  obtain ⟨before, after, hwhole, -⟩ := h
  rw [hwhole, List.length_append, List.length_append]
  omega

theorem segmentsWith_alike {text : List Char} (hl : AlikeUpTo text.length lookup lookup')
    (p q : Nat) {parts : List (List Char × Nat)} (hp : ∀ part ∈ parts, PartOf text part) :
    AlikeExcept text p (segmentsWith lookup p parts) (segmentsWith lookup' q parts) := by
  induction parts with
  | nil => exact .ok []
  | cons part parts ih =>
    have hpart := hp part List.mem_cons_self
    have hlength := hpart.length_le
    obtain ⟨segment, start⟩ := part
    obtain ⟨before, after, hwhole, hstart⟩ := hpart
    rw [segmentsWith, segmentsWith]
    split
    · refine .error (Points.of_nameless ?_ rfl)
      rw [hwhole, List.length_append, List.length_append]
      dsimp only at hstart
      omega
    · refine AlikeExcept.bind ?_ fun steps => ?_
      · have hrun := (segmentWith_alike hl segment hlength).runOn (p + start) (q + start)
        dsimp only at hwhole hstart
        rw [hwhole]
        subst hstart
        exact hrun.of_part
      · exact (ih fun part hm => hp part (List.mem_cons_of_mem _ hm)).map (steps ++ ·)

theorem stepsWith_alike {text : List Char} (hl : AlikeUpTo text.length lookup lookup')
    (p q : Nat) : AlikeExcept text p (stepsWith lookup text p) (stepsWith lookup' text q) := by
  have hsplit := splitTopLevel_splitOf '.' text
  rw [stepsWith, stepsWith]
  split
  · exact .ok []
  · cases hparts : splitTopLevel text '.' with
    | error e =>
      rw [hparts] at hsplit
      dsimp only
      refine .error ?_
      rw [Nat.add_comm]
      exact Points.of_nameless hsplit.2 hsplit.1
    | ok parts =>
      rw [hparts] at hsplit
      exact segmentsWith_alike hl p q hsplit

/-- The path of a lookup in parentheses, whose offset may be wrong by the two slips. -/
theorem lookupAtLevel_alike {before path rest : List Char} {p offset : Nat}
    (hl : AlikeUpTo (before ++ path).length lookup lookup')
    (hshort : p + 2 + before.length + leadingBlanks path ≤
      offset + blanksBeforePath (before ++ path))
    (hexcess : offset ≤ p + 2 + before.length + extraBytes (before ++ path)) (up offset' : Nat) :
    AlikeExcept ('@' :: '(' :: (before ++ path ++ rest)) p (lookupAtLevel lookup up path offset)
      (lookupAtLevel lookup' up path offset') := by
  refine AlikeExcept.map (Lookup.mk up) ?_
  have hlength := Text.trim_length_le path
  have hmono : AlikeUpTo (Text.trim path).length lookup lookup' := by
    refine hl.mono ?_
    rw [List.length_append]
    omega
  have hsteps := stepsWith_alike hmono offset offset'
  generalize stepsWith lookup (Text.trim path) offset = r at hsteps ⊢
  generalize stepsWith lookup' (Text.trim path) offset' = r' at hsteps ⊢
  cases hsteps with
  | ok steps => exact .ok steps
  | error points =>
    obtain ⟨trailing, hpath⟩ := Text.exists_trim path
    have hinner : before ++ path =
        before ++ path.takeWhile Text.isBlank ++ Text.trim path ++ trailing := by
      conv_lhs => rw [hpath]
      simp
    have hgroup {amount : List Char → Nat}
        (hamount : ∀ inner more, amount inner ≤ amount (inner ++ more)) :=
      le_overLookups_group hamount (before ++ path.takeWhile Text.isBlank) (Text.trim path)
        trailing rest
    have hs := hgroup blanksBeforePath_append
    have he := hgroup extraBytes_append
    rw [← hinner] at hs he
    rw [← shortfall, ← shortfall] at hs
    rw [← excess, ← excess] at he
    have hwhole : '@' :: '(' :: (before ++ path ++ rest) =
        ('@' :: '(' :: (before ++ path.takeWhile Text.isBlank)) ++ Text.trim path ++
          (trailing ++ rest) := by
      rw [hinner]
      simp
    have hbefore : ('@' :: '(' :: (before ++ path.takeWhile Text.isBlank)).length =
        before.length + leadingBlanks path + 2 := by
      simp [leadingBlanks]
    rw [hwhole] at hs he ⊢
    refine .error (points.widen ?_ ?_)
    · rw [hbefore]
      omega
    · rw [hbefore]
      omega

theorem lookupInside_alike {inner : List Char} (hl : AlikeUpTo inner.length lookup lookup')
    (rest : List Char) (p q : Nat) :
    AlikeExcept ('@' :: '(' :: (inner ++ rest)) p (lookupInside lookup inner (p + 2))
      (lookupInside lookup' inner (q + 2)) := by
  have hdigits {level path : List Char} {offset offset' : Nat}
      (h : AlikeExcept ('@' :: '(' :: (inner ++ rest)) p
        (lookupAtLevel lookup (Text.digitsValue level) path offset)
        (lookupAtLevel lookup' (Text.digitsValue level) path offset')) :
      AlikeExcept ('@' :: '(' :: (inner ++ rest)) p
        (lookupAtDigits lookup level path (p + 2) offset)
        (lookupAtDigits lookup' level path (q + 2) offset') := by
    rw [lookupAtDigits, lookupAtDigits]
    split
    · exact h
    · exact .error (Points.at_offset (Nat.le_add_left _ _) nofun)
  cases hform : namesLevel inner with
  | false =>
    -- A path.
    have hafter : afterLevel? inner = none := by
      rw [namesLevel, Bool.or_eq_false_iff] at hform
      exact Option.not_isSome_iff_eq_none.mp (ne_true_of_eq_false hform.2)
    rw [lookupInside_path hform, lookupInside_path hform]
    have hshort : p + 2 + ([] : List Char).length + leadingBlanks inner ≤
        p + 2 + blanksBeforePath ([] ++ inner) := by
      rw [List.nil_append, blanksBeforePath, hafter]
      rfl
    have hlimit : AlikeUpTo ([] ++ inner).length lookup lookup' := hl
    exact lookupAtLevel_alike hlimit hshort (Nat.le_add_right _ _) 0 (q + 2)
  | true =>
    rw [namesLevel, Bool.or_eq_true] at hform
    rcases hform with hform | hform
    · -- A level alone.
      rw [Bool.and_eq_true, Bool.not_eq_true', List.isEmpty_eq_false_iff, List.all_eq_true] at hform
      rw [lookupInside_level hform.1 hform.2, lookupInside_level hform.1 hform.2]
      exact hdigits (.ok _)
    · -- A level and a path.
      obtain ⟨⟨gap, path⟩, hafter⟩ := Option.isSome_iff_exists.mp hform
      obtain ⟨level, h⟩ := afterLevel?_eq_some.mp hafter
      rw [lookupInside_levelAndPath h, lookupInside_levelAndPath h]
      refine hdigits ?_
      have hinner : inner = (level ++ (gap ++ [','])) ++ path := by
        rw [h.inner_eq]
        simp
      have hsize := Text.length_le_utf8Size gap
      have hblanks : blanksBeforePath inner = leadingBlanks path := by
        rw [blanksBeforePath, hafter]
      have hextra : extraBytes inner = Text.utf8Size gap - gap.length := by
        rw [extraBytes, hafter]
      rw [hinner] at hl hblanks hextra ⊢
      refine lookupAtLevel_alike hl ?_ ?_ _ _
      · rw [hblanks]
        simp only [List.length_append, List.length_cons, List.length_nil]
        omega
      · rw [hextra]
        simp only [List.length_append, List.length_cons, List.length_nil]
        omega

/-- A reading of what has been taken, when it has been taken. -/
theorem AlikeExcept.ofExcept {α : Type} {text taken rest : List Char} {p : Nat}
    {r r' : Except ScanError α} (h : AlikeExcept text p r r') (split : text = taken ++ rest)
    (q : Nat) :
    Alike text p q (Scan.ofExcept r ⟨p + taken.length, rest⟩)
      (Scan.ofExcept r' ⟨q + taken.length, rest⟩) := by
  cases h with
  | ok a => exact .ok a split
  | error points => exact .error points

theorem lookupWithin_eq_group (depth p : Nat) (text : List Char) :
    lookupWithin (depth + 1) ⟨p, '@' :: '(' :: text⟩ =
      EStateM.bind (fun _ => parenthesizedTail (p + 1) 0 (p + 2) [] text)
        (fun inner => Scan.ofExcept (lookupInside (lookupWithin depth) inner (p + 2)))
        ⟨p, '@' :: '(' :: text⟩ := rfl

theorem lookupWithin_group {limit depth depth' : Nat}
    (hl : AlikeUpTo limit (lookupWithin depth) (lookupWithin depth')) {text : List Char}
    (ht : text.length ≤ limit) (p q : Nat) :
    Alike ('@' :: '(' :: text) p q (lookupWithin (depth + 1) ⟨p, '@' :: '(' :: text⟩)
      (lookupWithin (depth' + 1) ⟨q, '@' :: '(' :: text⟩) := by
  have hgroup := gathered_parenthesizedTail (p + 1) (q + 1) 0 (p + 2) (q + 2) [] text
  rw [lookupWithin_eq_group, lookupWithin_eq_group]
  generalize parenthesizedTail (p + 1) 0 (p + 2) [] text = r at hgroup
  generalize parenthesizedTail (q + 1) 0 (q + 2) [] text = r' at hgroup
  cases hgroup with
  | @ok inner rest split =>
    have hinner : inner.length ≤ limit := by
      rw [split, List.length_append] at ht
      omega
    have hread := lookupInside_alike (hl.mono hinner) ([')'] ++ rest) p q
    rw [← split] at hread
    have htaken : '@' :: '(' :: text = ('@' :: '(' :: (inner ++ [')'])) ++ rest := by
      rw [split]
      simp
    have hdone := hread.ofExcept htaken q
    have hlength (p : Nat) : p + ('@' :: '(' :: (inner ++ [')'])).length =
        p + 2 + (inner ++ [')']).length := by
      rw [List.length_cons, List.length_cons]
      omega
    rw [hlength, hlength] at hdone
    exact hdone
  | @error problem problem' error error' cursor cursor' nameless place =>
    rcases place with rfl | rfl
    · exact .error (Points.of_nameless (Nat.le_add_left _ _) nameless)
    · rw [Nat.add_assoc, Nat.add_comm 2]
      exact .error (Points.of_nameless (Nat.le_refl _) nameless)

theorem lookupWithin_name {limit depth depth' : Nat}
    (hl : AlikeUpTo limit (lookupWithin depth) (lookupWithin depth')) {text : List Char}
    (ht : text.length ≤ limit) :
    AlikeOn (do
        let start ← Scan.position
        let name ← fun cursor => bareName cursor.position [] cursor.rest
        let steps ← Scan.ofExcept (stepsWith (lookupWithin depth) name start)
        pure (Lookup.mk 0 steps))
      (do
        let start ← Scan.position
        let name ← fun cursor => bareName cursor.position [] cursor.rest
        let steps ← Scan.ofExcept (stepsWith (lookupWithin depth') name start)
        pure (Lookup.mk 0 steps)) text := by
  refine AlikeOn.position fun p q => ?_
  have hname := gathered_bareName p p q [] text
  change Alike text p q (EStateM.bind (fun _ => bareName p [] text) _ ⟨p, text⟩)
    (EStateM.bind (fun _ => bareName q [] text) _ ⟨q, text⟩)
  generalize bareName p [] text = r at hname
  generalize bareName q [] text = r' at hname
  cases hname with
  | @ok name rest split =>
    have hname : name.length ≤ limit := by
      rw [split, List.length_append] at ht
      omega
    have hsteps := stepsWith_alike (hl.mono hname) p q
    change Alike text p q
      ((Scan.ofExcept (stepsWith (lookupWithin depth) name p) >>= fun steps =>
          pure (Lookup.mk 0 steps))
        ⟨p + (name ++ []).length, rest⟩)
      ((Scan.ofExcept (stepsWith (lookupWithin depth') name q) >>= fun steps =>
          pure (Lookup.mk 0 steps))
        ⟨q + (name ++ []).length, rest⟩)
    have hpart : text = [] ++ name ++ rest := split
    rw [List.append_nil]
    refine Alike.bind (AlikeExcept.ofExcept ?_ split q) fun steps taken rest h => ?_
    · rw [hpart]
      have hwhole : AlikeExcept ([] ++ name ++ rest) p _ _ := hsteps.of_part
      exact hwhole
    · exact .ok (Lookup.mk 0 steps) h
  | error nameless place =>
    rcases place with rfl | rfl
    · exact .error (Points.of_nameless (Nat.zero_le _) nameless)
    · exact .error (Points.of_nameless (Nat.le_refl _) nameless)

theorem lookupWithin_of_head {text : List Char} (h : text.head? ≠ some '@') (depth p : Nat) :
    lookupWithin depth ⟨p, text⟩ = .error ⟨.expected '@' text.head?, p⟩ ⟨p, text⟩ := by
  have hexpect : Scan.expect '@' ⟨p, text⟩ = .error ⟨.expected '@' text.head?, p⟩ ⟨p, text⟩ := by
    cases text with
    | nil => rfl
    | cons c text =>
      rw [Scan.expect]
      exact if_neg fun hc => h (congrArg some (beq_iff_eq.mp hc))
  cases depth with
  | zero =>
    change EStateM.bind (Scan.expect '@') _ _ = _
    rw [EStateM.bind, hexpect]
  | succ depth =>
    change EStateM.bind (Scan.expect '@') _ _ = _
    rw [EStateM.bind, hexpect]

theorem lookupWithin_alike_of_head {text : List Char} (h : text.head? ≠ some '@')
    (depth depth' : Nat) : AlikeOn (lookupWithin depth) (lookupWithin depth') text := by
  intro p q
  rw [lookupWithin_of_head h, lookupWithin_of_head h]
  refine .error (Points.at_offset (k := 0) (Nat.zero_le _) fun c hc => ?_)
  rw [← List.head?_eq_getElem?]
  exact hc

/-- A lookup takes a character in front of those inside of it. -/
theorem lookupWithin_step {limit depth depth' : Nat}
    (hl : AlikeUpTo limit (lookupWithin depth) (lookupWithin depth')) :
    AlikeUpTo (limit + 1) (lookupWithin (depth + 1)) (lookupWithin (depth' + 1)) := by
  intro text ht
  by_cases hhead : text.head? = some '@'
  · obtain ⟨rest, rfl⟩ := List.head?_eq_some_iff.mp hhead
    have hrest : rest.length ≤ limit := Nat.le_of_succ_le_succ ht
    by_cases hgroup : rest.head? = some '('
    · obtain ⟨text, rfl⟩ := List.head?_eq_some_iff.mp hgroup
      exact lookupWithin_group hl (Nat.le_of_succ_le hrest)
    · rw [lookupWithin, lookupWithin]
      refine AlikeOn.expect (AlikeOn.peek ?_)
      split
      · exact Steady.pure _ rest
      · exact Steady.pure _ rest
      · exact Steady.pure _ rest
      · rename_i hparen
        exact absurd hparen hgroup
      · exact lookupWithin_name hl hrest
  · exact lookupWithin_alike_of_head hhead _ _

/-- Of two depths that are enough for a text none is better. -/
theorem lookupWithin_alike (limit : Nat) {depth depth' : Nat} (hd : limit ≤ depth)
    (hd' : limit ≤ depth') : AlikeUpTo limit (lookupWithin depth) (lookupWithin depth') := by
  induction limit generalizing depth depth' with
  | zero =>
    intro text ht
    rw [List.length_eq_zero_iff.mp (Nat.le_zero.mp ht)]
    exact lookupWithin_alike_of_head (by decide) depth depth'
  | succ limit ih =>
    obtain ⟨depth, rfl⟩ := Nat.exists_eq_add_of_le' hd
    obtain ⟨depth', rfl⟩ := Nat.exists_eq_add_of_le' hd'
    exact lookupWithin_step (ih (Nat.le_of_add_le_add_right hd) (Nat.le_of_add_le_add_right hd'))

end Paths

end Reshape.Pattern
