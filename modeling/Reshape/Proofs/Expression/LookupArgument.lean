import Reshape.Proofs.Expression.Call
/-!
# Lookups as arguments

A lookup in parentheses is read by two readers when it stands as an argument: the splitting of
arguments finds its end first and the lookup's own scan comes after. They count parentheses alike
where nothing is quoted and no parenthesis is escaped. Where they do not, the argument that the
splitting gives is an unclosed lookup, so the call is an error and never another call.
-/
namespace Reshape.Operation

open Pattern (Lookup)

/-- The text has no quote, and no parenthesis behind a backslash. -/
def readsAlike : List Char → Bool
  | [] => true
  | ['\\'] => true
  | '\\' :: c :: rest => !groupingChars.contains c && readsAlike rest
  | c :: rest => c != '\'' && readsAlike rest

theorem readsAlike_char {c : Char} {rest : List Char} (h : c ≠ '\\') :
    readsAlike (c :: rest) = (c != '\'' && readsAlike rest) := by
  rw [readsAlike]
  · exact fun hc _ => h hc
  · exact fun _ _ hc _ => h hc

/-- The text closes a group with as many open groups inside of it, and ends there. -/
inductive Closes : Nat → List Char → Prop
  | last : Closes 0 [')']
  | closing {depth : Nat} {text : List Char} (tail : Closes depth text) :
    Closes (depth + 1) (')' :: text)
  | opening {depth : Nat} {text : List Char} (tail : Closes (depth + 1) text) :
    Closes depth ('(' :: text)
  | escaped {depth : Nat} {c : Char} {text : List Char} (tail : Closes depth text) :
    Closes depth ('\\' :: c :: text)
  | char {depth : Nat} {c : Char} {text : List Char} (noEscape : c ≠ '\\') (noOpening : c ≠ '(')
    (noClosing : c ≠ ')') (tail : Closes depth text) : Closes depth (c :: text)

namespace Closes

variable {depth : Nat} {text before : List Char}

/-- The scan of a group that reads the whole text has closed the group at its end. -/
theorem of_parenthesizedTail {start position position' : Nat} {inner read : List Char}
    (h : Pattern.Scan.parenthesizedTail start depth position inner text =
      .ok read ⟨position', []⟩) :
    Closes depth text := by
  induction depth, position, inner, text using Pattern.Scan.parenthesizedTail.induct with
  | case1 => cases h
  | case2 => cases h
  | case3 depth position inner c rest ih =>
    rw [Pattern.Scan.parenthesizedTail] at h
    exact .escaped (ih h)
  | case4 depth position inner rest ih =>
    rw [Pattern.Scan.parenthesizedTail] at h
    exact .opening (ih h)
  | case5 position inner rest =>
    rw [Pattern.Scan.parenthesizedTail] at h
    obtain ⟨-, hc⟩ := EStateM.Result.ok.inj h
    obtain ⟨-, rfl⟩ := Pattern.Cursor.mk.inj hc
    exact .last
  | case6 depth position inner rest ih =>
    rw [Pattern.Scan.parenthesizedTail] at h
    exact .closing (ih h)
  | case7 depth position inner c rest hdangling hescape hopen hlast hclose ih =>
    have hb : c ≠ '\\' := by
      rintro rfl
      cases rest with
      | nil => exact hdangling rfl rfl
      | cons e rest => exact hescape e rest rfl rfl
    have hp : c ≠ ')' := by
      cases depth with
      | zero => exact hlast rfl
      | succ depth => exact hclose depth rfl
    rw [Pattern.Balanced.parenthesizedTail_char hb hopen hp] at h
    exact .char hb hopen hp (ih h)

/-- Up to the closing parenthesis the splitting of arguments counts as the scan does. -/
theorem argumentsFrom_eq (h : Closes depth text) (ha : readsAlike text = true)
    (part : List Char) :
    argumentsFrom part (depth + 1) false text =
      argumentsFrom (text.reverse ++ part) 0 false [] := by
  induction h generalizing part with
  | last => exact argumentsFrom_close
  | closing _ ih =>
    rw [argumentsFrom_close, ih ha]
    simp
  | opening _ ih =>
    rw [argumentsFrom_open, ih ha]
    simp
  | escaped _ ih =>
    rw [readsAlike, Bool.and_eq_true, Bool.not_eq_true', List.contains_eq_mem,
      decide_eq_false_iff_not] at ha
    rw [argumentsFrom_char (by decide) (.inr (Nat.succ_ne_zero _)),
      argumentsFrom_char ha.1 (.inr (Nat.succ_ne_zero _)), ih ha.2]
    simp
  | @char _ c _ noEscape noOpening noClosing _ ih =>
    rw [readsAlike_char noEscape, Bool.and_eq_true, bne_iff_ne] at ha
    have hplain : c ∉ groupingChars := by
      simp only [groupingChars, List.mem_cons, List.not_mem_nil, or_false, not_or]
      exact ⟨ha.1, noOpening, noClosing⟩
    rw [argumentsFrom_char hplain (.inr (Nat.succ_ne_zero _)), ih ha.2]
    simp

theorem proper_start_cons {c : Char} {rest : List Char} (hp : before <+: c :: rest)
    (hne : before ≠ c :: rest) :
    before = [] ∨ ∃ more, before = c :: more ∧ more <+: rest ∧ more ≠ rest := by
  refine (List.prefix_cons_iff.mp hp).imp_right ?_
  rintro ⟨more, rfl, hm⟩
  exact ⟨more, rfl, hm, fun he => hne (congrArg (c :: ·) he)⟩

/-- Before its closing parenthesis a group is not closed. -/
theorem not_closes_before (h : Closes depth text) (hp : before <+: text) (hne : before ≠ text) :
    ¬ Closes depth before := by
  intro hbefore
  induction h generalizing before with
  | last =>
    rcases proper_start_cons hp hne with rfl | ⟨more, -, hm, hmne⟩
    · cases hbefore
    · exact hmne (List.prefix_nil.mp hm)
  | closing _ ih =>
    rcases proper_start_cons hp hne with rfl | ⟨more, rfl, hm, hmne⟩
    · cases hbefore
    · cases hbefore with
      | closing tail => exact ih hm hmne tail
      | char _ _ noClosing _ => exact noClosing rfl
  | opening _ ih =>
    rcases proper_start_cons hp hne with rfl | ⟨more, rfl, hm, hmne⟩
    · cases hbefore
    · cases hbefore with
      | opening tail => exact ih hm hmne tail
      | char _ noOpening _ _ => exact noOpening rfl
  | escaped _ ih =>
    rcases proper_start_cons hp hne with rfl | ⟨more, rfl, hm, hmne⟩
    · cases hbefore
    · cases hbefore with
      | escaped tail =>
        obtain ⟨rfl, hrest⟩ := List.cons_prefix_cons.mp hm
        exact ih hrest (fun he => hmne (congrArg (List.cons _) he)) tail
      | char noEscape _ _ _ => exact noEscape rfl
  | char noEscape noOpening noClosing _ ih =>
    rcases proper_start_cons hp hne with rfl | ⟨more, rfl, hm, hmne⟩
    · cases hbefore
    · cases hbefore with
      | last => exact noClosing rfl
      | closing _ => exact noClosing rfl
      | opening _ => exact noOpening rfl
      | escaped _ => exact noEscape rfl
      | char _ _ _ tail => exact ih hm hmne tail

end Closes

/-- The first of the parts is what is in progress and some more of the text, all of it if there is
no other part. -/
def FirstPart (part text : List Char) (parts : List (List Char)) : Prop :=
  ∃ before first more, before <+: text ∧ finishArgument (before.reverse ++ part) = .ok first ∧
    parts = first :: more ∧ (before = text → more = [])

theorem FirstPart.cons {c : Char} {part text : List Char} {parts : List (List Char)}
    (h : FirstPart (c :: part) text parts) : FirstPart part (c :: text) parts := by
  obtain ⟨before, first, more, hp, hfirst, hparts, hall⟩ := h
  refine ⟨c :: before, first, more, List.cons_prefix_cons.mpr ⟨rfl, hp⟩, ?_, hparts, ?_⟩
  · rwa [List.reverse_cons, List.append_assoc]
  · exact fun he => hall (List.cons.inj he).2

theorem firstPart_of_argumentsFrom {part text : List Char} {depth : Nat} {quoted : Bool}
    {parts : List (List Char)} (h : argumentsFrom part depth quoted text = .ok parts) :
    FirstPart part text parts := by
  induction part, depth, quoted, text using argumentsFrom.induct generalizing parts with
  | case1 => cases h
  | case2 part depth quoted hq =>
    rw [argumentsFrom, if_neg hq] at h
    cases hf : finishArgument part with
    | error e =>
      rw [hf] at h
      cases h
    | ok first =>
      rw [hf] at h
      cases h
      exact ⟨[], first, [], List.nil_prefix, hf, rfl, fun _ => rfl⟩
  | case3 part depth quoted c hc e rest ih =>
    rw [argumentsFrom.eq_def] at h
    simp only [hc, if_true] at h
    exact (ih h).cons.cons
  | case4 part depth quoted c hc =>
    rw [argumentsFrom.eq_def] at h
    simp only [hc, if_true] at h
    cases h
  | case5 part depth quoted c rest hb hc ih =>
    rw [argumentsFrom.eq_def] at h
    simp only [hb, hc, if_true] at h
    exact (ih h).cons
  | case6 part depth quoted c rest hb hq hc ih =>
    rw [argumentsFrom.eq_def] at h
    simp only [hb, hq, hc, if_true] at h
    exact (ih h).cons
  | case7 part quoted c rest hb hq ho hc =>
    rw [argumentsFrom.eq_def] at h
    simp only [hb, hq, ho, hc, if_true] at h
    cases h
  | case8 part quoted c rest hb hq ho hc depth ih =>
    rw [argumentsFrom.eq_def] at h
    simp only [hb, hq, ho, hc, if_true] at h
    exact (ih h).cons
  | case9 part depth quoted c rest hb hq ho hp hc ih =>
    -- A cut: what is in progress is the first part.
    rw [argumentsFrom.eq_def] at h
    simp only [hb, hq, ho, hp, hc, if_true] at h
    obtain ⟨first, hfirst, h⟩ := Pattern.except_bind_eq_ok.mp h
    obtain ⟨more, -, h⟩ := Pattern.except_bind_eq_ok.mp h
    cases h
    refine ⟨[], first, more, List.nil_prefix, hfirst, rfl, fun he => ?_⟩
    exact absurd he.symm (List.cons_ne_nil _ _)
  | case10 part depth quoted c rest hb hq ho hp hc ih =>
    rw [argumentsFrom.eq_def] at h
    simp only [hb, hq, ho, hp, hc] at h
    exact (ih h).cons

/-! ## Where a lookup ends -/

section Parse

variable {rest : List Char} {l : Lookup}

theorem ofExcept_eq_ok {α : Type} {result : Except Pattern.ScanError α} {a : α}
    {cursor cursor' : Pattern.Cursor}
    (h : Pattern.Scan.ofExcept result cursor = .ok a cursor') : cursor' = cursor := by
  cases result with
  | ok a =>
    obtain ⟨-, rfl⟩ := EStateM.Result.ok.inj h
    rfl
  | error e => cases h

/-- A lookup in parentheses is as long as its group. -/
theorem group_of_scan {cursor : Pattern.Cursor}
    (h : Lookup.scan ⟨0, '@' :: '(' :: rest⟩ = .ok l cursor) :
    ∃ inner, Pattern.Scan.parenthesizedTail 1 0 2 [] rest = .ok inner cursor := by
  have hgroup : (Pattern.Scan.parenthesized >>= fun inner => Pattern.Scan.ofExcept
      (Pattern.lookupInside (Pattern.lookupWithin (rest.length + 1)) inner 2))
        ⟨1, '(' :: rest⟩ = .ok l cursor := h
  obtain ⟨inner, cursor', hg, hinside⟩ := Pattern.Scan.bind_eq_ok.mp hgroup
  obtain rfl := ofExcept_eq_ok hinside
  exact ⟨inner, hg⟩

theorem closes_of_parse (h : Lookup.parse ('@' :: '(' :: rest) = .ok l) : Closes 0 rest := by
  rw [Lookup.parse, Pattern.Scan.runOn] at h
  split at h
  · obtain ⟨_, ⟨position, after⟩, hscan, hend⟩ := Pattern.Scan.bind_eq_ok.mp ‹_›
    obtain ⟨inner, hg⟩ := group_of_scan hscan
    cases after with
    | nil => exact .of_parenthesizedTail hg
    | cons c after => cases hend
  · cases h

/-- An argument that starts like a lookup is that lookup or an error. -/
theorem parse_of_argumentWith {s : Scope} {call : List Char → Except SpecError Call} {c : Char}
    {a : Argument} (h : s.argumentWith call ('@' :: c :: rest) = .ok a) :
    ∃ l, Lookup.parse ('@' :: c :: rest) = .ok l ∧ a = .lookup l := by
  cases hp : Lookup.parse ('@' :: c :: rest) with
  | ok l =>
    rw [argumentWith_lookup hp] at h
    exact ⟨l, rfl, (Except.ok.inj h).symm⟩
  | error e =>
    rw [Scope.argumentWith, quoted?_cons (by decide)] at h
    dsimp only at h
    split at h
    case h_5 =>
      rw [hp] at h
      cases h
    case h_1 ht => cases (List.cons.inj (String.ofList_inj.mp ht)).2
    all_goals exact absurd ‹_› (ofList_ne_of_head (by decide))

end Parse

/-- A lookup with a text in parentheses. -/
def groupedLookup (inside : List Char) : List Char := '@' :: '(' :: (inside ++ [')'])

theorem groupedLookup_trimmed (inside : List Char) : Pattern.Trimmed (groupedLookup inside) := by
  have hhead : ('@' :: '(' :: inside).head? = some '@' := rfl
  exact Pattern.trimmed_concat hhead rfl rfl

section Grouped

variable {inside : List Char} {l : Lookup} {parts : List (List Char)}

theorem splitArguments_groupedLookup :
    splitArguments (groupedLookup inside) =
      argumentsFrom ['(', '@'] 1 false (inside ++ [')']) := by
  have hkept : Text.trim (groupedLookup inside) ≠ [] := trim_cons_ne_nil rfl _
  rw [splitArguments, List.isEmpty_eq_false_iff.mpr hkept, if_neg Bool.false_ne_true,
    groupedLookup, argumentsFrom_char (by decide) (.inl (by decide)), argumentsFrom_open]

/-- Where the two readers count alike the lookup is one argument. -/
theorem splitArguments_eq (ha : readsAlike (groupedLookup inside) = true)
    (hl : Lookup.parse (groupedLookup inside) = .ok l) :
    splitArguments (groupedLookup inside) = .ok [groupedLookup inside] := by
  have hinside : readsAlike (inside ++ [')']) = true := ha
  have hfinish : finishArgument ((inside ++ [')']).reverse ++ ['(', '@']) =
      .ok (groupedLookup inside) := by
    have htext : ((inside ++ [')']).reverse ++ ['(', '@']).reverse = groupedLookup inside := by
      simp [groupedLookup]
    rw [finishArgument, htext, (groupedLookup_trimmed inside).trim_eq]
    rfl
  rw [splitArguments_groupedLookup, (closes_of_parse hl).argumentsFrom_eq hinside, argumentsFrom,
    if_neg Bool.false_ne_true, hfinish]
  rfl

theorem trimEnd_start (text : List Char) : Text.trimEnd text <+: text := by
  rw [Text.trimEnd, ← List.reverse_suffix, List.reverse_reverse]
  exact List.dropWhile_suffix _

theorem trim_grouped (before : List Char) :
    Text.trim ('@' :: '(' :: before) = '@' :: '(' :: Text.trimEnd before := by
  have hstart : Text.trimStart ('@' :: '(' :: before) = '@' :: '(' :: before := rfl
  have hend : ['(', '@'].dropWhile Text.isBlank = ['(', '@'] := rfl
  rw [Text.trim, hstart, Text.trimEnd, Text.trimEnd, List.reverse_cons, List.reverse_cons,
    List.append_assoc, List.dropWhile_append]
  split
  · rename_i hnil
    rw [List.isEmpty_iff] at hnil
    rw [hnil]
    exact congrArg List.reverse hend
  · simp

/-- What the first part of a split lookup is: a lookup that is not closed, or the whole. -/
theorem parts_eq_of_parse {call : List Char → Except SpecError Call} {s : Scope}
    {args : List Argument} (hl : Lookup.parse (groupedLookup inside) = .ok l)
    (h : splitArguments (groupedLookup inside) = .ok parts)
    (hargs : parts.mapM (s.argumentWith call) = .ok args) : parts = [groupedLookup inside] := by
  rw [splitArguments_groupedLookup] at h
  obtain ⟨before, first, more, hp, hfirst, rfl, hall⟩ := firstPart_of_argumentsFrom h
  have htext : first = '@' :: '(' :: Text.trimEnd before := by
    have hreverse : (before.reverse ++ ['(', '@']).reverse = '@' :: '(' :: before := by simp
    rw [finishArgument, hreverse, trim_grouped] at hfirst
    exact (Except.ok.inj hfirst).symm
  rw [List.mapM_cons, htext] at hargs
  obtain ⟨a, ha, -⟩ := Pattern.except_bind_eq_ok.mp hargs
  obtain ⟨_, hparse, -⟩ := parse_of_argumentWith ha
  have hwhole : Text.trimEnd before = inside ++ [')'] := by
    by_contra hne
    exact (closes_of_parse hl).not_closes_before ((trimEnd_start before).trans hp) hne
      (closes_of_parse hparse)
  have hbefore : before = inside ++ [')'] := by
    refine hp.eq_of_length_le ?_
    rw [← hwhole]
    exact (trimEnd_start before).length_le
  rw [htext, hwhole, hall hbefore]
  rfl

end Grouped

/-- A call of one argument without its `=`. -/
def appliedTo (name : String) (argument : List Char) : List Char :=
  name.toList ++ '(' :: (argument ++ [')'])

/-- A right-hand side that starts with `@` is a lookup. -/
theorem compileTarget_lookup {registry : Registry} {config : Config} {rest : List Char} {l : Lookup}
    (hl : Lookup.parse ('@' :: rest) = .ok l) (mode : ModifyMode) (location : String) :
    (modify mode registry).compileTarget config location (.str (String.ofList ('@' :: rest))) =
      .ok [.lookup l] := by
  have hsource : Scope.source ⟨registry, location⟩ config.functions
      (.str (String.ofList ('@' :: rest))) = .ok (.lookup l) := by
    simp only [Scope.source, String.toList_ofList, hl]
  change modifyTarget registry config location (.str (String.ofList ('@' :: rest))) = _
  rw [modifyTarget, hsource]
  · rfl
  · intro h
    cases h
  · intro items h
    cases h

/-- A lookup that is read on its own is read as an argument too, if its text has no quote and no
escaped parenthesis. In every case a call that is compiled has the lookup as its argument. -/
theorem compileTarget_groupedLookup {registry : Registry} {config : Config} {name : String}
    {function : Function} {inside : List Char} {l : Lookup} (hf : config.functions = true)
    (hc : Callable registry name function) (hl : Lookup.parse (groupedLookup inside) = .ok l)
    (mode : ModifyMode) (location : String) :
    let compile := fun text : List Char =>
      (modify mode registry).compileTarget config location (.str (String.ofList text))
    let expression := '=' :: appliedTo name (groupedLookup inside)
    compile (groupedLookup inside) = .ok [.lookup l] ∧
      (readsAlike (groupedLookup inside) = true →
        compile expression = .ok [.call ⟨name, function, [.lookup l]⟩]) ∧
      ∀ sources, compile expression = .ok sources →
        sources = [.call ⟨name, function, [.lookup l]⟩] := by
  intro compile expression
  have harg : ∀ call, (⟨registry, location⟩ : Scope).argumentWith call (groupedLookup inside) =
      .ok (.lookup l) := fun _ => argumentWith_lookup hl
  have hexpression : compile expression = ((⟨registry, location⟩ : Scope).call
      (appliedTo name (groupedLookup inside))).map fun c => [.call c] :=
    compileTarget_call hf mode location _
  refine ⟨?_, fun ha => ?_, fun sources h => ?_⟩
  · exact compileTarget_lookup hl mode location
  · have hcall : (⟨registry, location⟩ : Scope).call (appliedTo name (groupedLookup inside)) =
        .ok ⟨name, function, [.lookup l]⟩ := by
      refine (callWithin_eq_ok hc).mpr ⟨_, _, splitArguments_eq ha hl, ?_, rfl⟩
      rw [List.mapM_cons, harg]
      rfl
    rw [hexpression, hcall]
    rfl
  · rw [hexpression] at h
    cases hcall : (⟨registry, location⟩ : Scope).call (appliedTo name (groupedLookup inside)) with
    | error e =>
      rw [hcall] at h
      cases h
    | ok c =>
      obtain ⟨parts, args, hparts, hargs, rfl⟩ := (callWithin_eq_ok hc).mp hcall
      obtain rfl := parts_eq_of_parse hl hparts hargs
      rw [List.mapM_cons, harg] at hargs
      obtain rfl := Except.ok.inj hargs
      rw [hcall] at h
      exact (Except.ok.inj h).symm

/-- A comma in a key of the lookup is no cut. -/
theorem compileTarget_groupedLookup_comma :
    (modify .overwrite Registry.builtin).compileTarget {} "a" (.str "=size(@(1,items.a,b))") =
      .ok [.call ⟨"size", Function.size,
        [.lookup ⟨1, [.key ⟨[.text "items"]⟩, .key ⟨[.text "a,b"]⟩]⟩]⟩] := by
  have hl : Lookup.parse (groupedLookup "1,items.a,b".toList) =
      .ok ⟨1, [.key ⟨[.text "items"]⟩, .key ⟨[.text "a,b"]⟩]⟩ := by decide +kernel
  have hc : Callable Registry.builtin "size" Function.size := ⟨rfl, by decide⟩
  have htext : "=size(@(1,items.a,b))" =
      String.ofList ('=' :: appliedTo "size" (groupedLookup "1,items.a,b".toList)) := by
    decide +kernel
  rw [htext]
  exact (compileTarget_groupedLookup rfl hc hl .overwrite "a").2.1 (by decide +kernel)

/-- Arguments that do not come apart are an error at the place of the call. -/
theorem compileTarget_unsplit {registry : Registry} {config : Config} {name : String}
    {function : Function} {argument : List Char} {problem : ArgumentProblem}
    (hf : config.functions = true) (hc : Callable registry name function)
    (h : splitArguments argument = .error problem) (mode : ModifyMode) (location : String) :
    (modify mode registry).compileTarget config location
        (.str (String.ofList ('=' :: appliedTo name argument))) =
      .error ⟨.invalidValue
        s!"in '={String.ofList (appliedTo name argument)}': {problem.message}", location⟩ := by
  have hcall : Scope.call ⟨registry, location⟩ (appliedTo name argument) = _ :=
    callWithin_eq_error hc h
  exact (compileTarget_call hf mode location (appliedTo name argument)).trans (congrArg _ hcall)

/-- A quote in a key is read in a lookup on its own. In an argument it opens a string. -/
theorem compileTarget_groupedLookup_quote :
    (modify .overwrite Registry.builtin).compileTarget {} "a" (.str "@(1,it's)") =
        .ok [.lookup ⟨1, [.key ⟨[.text "it's"]⟩]⟩] ∧
      ∃ message,
        (modify .overwrite Registry.builtin).compileTarget {} "a" (.str "=toString(@(1,it's))") =
          .error ⟨.invalidValue message, "a"⟩ := by
  have hl : Lookup.parse ('@' :: "(1,it's)".toList) = .ok ⟨1, [.key ⟨[.text "it's"]⟩]⟩ := by
    decide +kernel
  have hc : Callable Registry.builtin "toString" Function.asText := ⟨rfl, by decide⟩
  have hsplit : splitArguments "@(1,it's)".toList = .error .unterminated := by decide +kernel
  have htext : "=toString(@(1,it's))" =
      String.ofList ('=' :: appliedTo "toString" "@(1,it's)".toList) := by decide +kernel
  have hlookup : "@(1,it's)" = String.ofList ('@' :: "(1,it's)".toList) := by decide +kernel
  constructor
  · rw [hlookup]
    exact compileTarget_lookup hl .overwrite "a"
  · rw [htext]
    exact ⟨_, compileTarget_unsplit rfl hc hsplit .overwrite "a"⟩

end Reshape.Operation
