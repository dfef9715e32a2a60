import Reshape.Operation.Modify
import Reshape.Proofs.Expression.Arguments
/-!
# Reading calls back

A call is written as its name and, in parentheses, its arguments with commas between them. Every
argument but a lookup is enclosed when it is written, so the splitting gives it back whole, and its
first character tells how it is read. A nested call is shorter than the call around it.
-/
namespace Reshape.Operation

open Pattern (Lookup Reference Trimmed)
open Pattern.Scan (Reads exists_toDigits_eq_cons isDigit_of_mem_toDigits digits?_toDigits)

/-! ## Writing -/

mutual
/-- An argument as it stands in a call. -/
def Argument.text : Argument → List Char
  | .literal (.str text) => quote text.toList
  | .literal v => v.compact
  | .current => ['@']
  | .lookup l => l.canonical
  | .reference r => r.canonical '&'
  | .call name _ args =>
    '=' :: (name.toList ++ '(' :: (joinArguments (argumentTexts args) ++ [')']))

def argumentTexts : List Argument → List (List Char)
  | [] => []
  | a :: rest => a.text :: argumentTexts rest
end

/-- A call without its `=`. -/
def Call.text (c : Call) : List Char :=
  c.name.toList ++ '(' :: (joinArguments (argumentTexts c.args) ++ [')'])

/-- A string, an integer of the signed word, `true`, `false` or `null`. -/
def isArgumentLiteral : Json → Bool
  | .str _ => true
  | .num (.int n) => Text.inInt64 n
  | .bool _ => true
  | .null => true
  | _ => false

/-- The function is the one of that name, and the name can be written in a call. -/
structure Callable (registry : Registry) (name : String) (function : Function) : Prop where
  registered : registry.get? name = some function
  isName : isFunctionName name.toList = true

mutual
/-- What can be written as an argument without a lookup in it: references are to numbers of the
machine word and calls are of registered functions. -/
def Argument.Writable (registry : Registry) : Argument → Prop
  | .literal v => isArgumentLiteral v = true
  | .current => True
  | .lookup _ => False
  | .reference r => r.InRange
  | .call name function args => Callable registry name function ∧ WritableArguments registry args

def WritableArguments (registry : Registry) : List Argument → Prop
  | [] => True
  | a :: rest => a.Writable registry ∧ WritableArguments registry rest
end

structure Call.Writable (registry : Registry) (c : Call) : Prop where
  callable : Callable registry c.name c.function
  args : WritableArguments registry c.args

/-! ## Numbers -/

/-- A number that is not zero is written without a zero in front. -/
theorem head?_toDigits {n : Nat} (h : 0 < n) : (Nat.toDigits 10 n).head? ≠ some '0' := by
  induction n using Nat.strong_induction_on with
  | _ n ih =>
    by_cases hn : n < 10
    · have hdigit : ∀ n < 10, 0 < n → n.digitChar ≠ '0' := by decide
      rw [Nat.toDigits_of_lt_base hn]
      exact fun he => hdigit n hn h (Option.some.inj he)
    · have htail := ih (n / 10) (by omega) (by omega)
      obtain ⟨c, digits, hd, -⟩ := exists_toDigits_eq_cons (n / 10)
      rw [Nat.toDigits_of_base_le (by decide) (Nat.le_of_not_lt hn), hd]
      rwa [hd] at htail

theorem toDigits_eq_cons (n : Nat) :
    ∃ c digits, Nat.toDigits 10 n = c :: digits ∧ c ≠ '-' ∧ c ≠ '+' := by
  obtain ⟨c, digits, hd, hc⟩ := exists_toDigits_eq_cons n
  refine ⟨c, digits, hd, ?_, ?_⟩ <;> rintro rfl <;> exact absurd hc (by decide)

theorem isNumberLiteral_toDigits (n : Nat) :
    isNumberLiteral (Nat.toDigits 10 n) = true ∧
      isNumberLiteral ('-' :: Nat.toDigits 10 n) = true := by
  have hdigits : ∀ c ∈ Nat.toDigits 10 n, Text.isDigit c = true := fun _ =>
    isDigit_of_mem_toDigits
  have hspan : (Nat.toDigits 10 n).span Text.isDigit = (Nat.toDigits 10 n, []) := by
    rw [List.span_eq_takeWhile_dropWhile, List.takeWhile_eq_self_iff.mpr hdigits,
      List.dropWhile_eq_nil_iff.mpr hdigits]
  have hform : (!(Nat.toDigits 10 n).isEmpty &&
      ((Nat.toDigits 10 n).head? != some '0' || (Nat.toDigits 10 n).length == 1)) = true := by
    rw [List.isEmpty_eq_false_iff.mpr Nat.toDigits_ne_nil, Bool.not_false, Bool.true_and,
      Bool.or_eq_true, bne_iff_ne, beq_iff_eq]
    rcases Nat.eq_zero_or_pos n with rfl | hn
    · exact .inr (by decide)
    · exact .inl (head?_toDigits hn)
  obtain ⟨c, digits, hd, hc, -⟩ := toDigits_eq_cons n
  constructor
  · rw [hd] at hspan hform ⊢
    rw [isNumberLiteral]
    · dsimp only
      rw [hspan]
      dsimp only
      rw [hform]
      rfl
    · exact fun _ he => hc (List.cons.inj he).1
  · rw [isNumberLiteral]
    dsimp only
    rw [hspan]
    dsimp only
    rw [hform]
    rfl

/-- An integer that is written is a number literal. -/
theorem numberLiteral?_intText {n : Int} (h : Text.inInt64 n = true) :
    numberLiteral? (Number.intText n) = some (.ofInt n) := by
  have hint : Text.int64? (String.ofList (Number.intText n)) = some n := by
    rw [Text.int64?, String.toList_ofList]
    cases n with
    | ofNat n =>
      obtain ⟨c, digits, hd, hm, hp⟩ := toDigits_eq_cons n
      have hdigits := digits?_toDigits n
      rw [Number.intText, hd] at *
      split
      · exact absurd (List.cons.inj ‹_›).1 hp
      · exact absurd (List.cons.inj ‹_›).1 hm
      · rw [hdigits, Option.map_some, Option.filter_some]
        exact if_pos h
    | negSucc n =>
      rw [Number.intText]
      simp only [digits?_toDigits]
      exact (Option.filter_some ..).trans (if_pos h)
  have hform : isNumberLiteral (Number.intText n) = true := by
    cases n with
    | ofNat n => exact (isNumberLiteral_toDigits n).1
    | negSucc n => exact (isNumberLiteral_toDigits (n + 1)).2
  rw [numberLiteral?, if_pos hform, hint]
  rfl

/-! ## Texts of arguments -/

/-- Characters that stand in an argument as they are: neither counted nor cut at, nor blank. -/
def isPlainChar (c : Char) : Bool := !(',' :: groupingChars).contains c && !Text.isBlank c

theorem isPlainChar_iff {c : Char} :
    isPlainChar c = true ↔ c ∉ ',' :: groupingChars ∧ Text.isBlank c = false := by
  rw [isPlainChar, Bool.and_eq_true, Bool.not_eq_true', Bool.not_eq_true', List.contains_eq_mem,
    decide_eq_false_iff_not]

theorem isPlainChar_of_isDigit {c : Char} (h : Text.isDigit c = true) : isPlainChar c = true := by
  refine isPlainChar_iff.mpr ⟨fun hm => ?_, Text.isBlank_of_isDigit h⟩
  have hall : (',' :: groupingChars).all (fun c => !Text.isDigit c) = true := by decide
  have hc := List.all_eq_true.mp hall c hm
  rw [h] at hc
  cases hc

theorem isPlainChar_of_isNameStart {c : Char} (h : isNameStart c = true) :
    isPlainChar c = true := by
  have hrange : (65 ≤ c.toNat ∧ c.toNat ≤ 90) ∨ (97 ≤ c.toNat ∧ c.toNat ≤ 122) ∨
      c.toNat = 95 := by
    rw [isNameStart, Bool.or_eq_true, Bool.or_eq_true, Bool.and_eq_true, Bool.and_eq_true,
      decide_eq_true_eq, decide_eq_true_eq, decide_eq_true_eq, decide_eq_true_eq, beq_iff_eq,
      or_assoc] at h
    exact h.imp id (Or.imp id (congrArg Char.toNat))
  refine isPlainChar_iff.mpr ⟨fun hm => ?_, ?_⟩
  · have hall : (',' :: groupingChars).all (fun c => !isNameStart c) = true := by decide
    have hc := List.all_eq_true.mp hall c hm
    rw [h] at hc
    cases hc
  · simp only [Text.isBlank, Bool.or_eq_false_iff, Bool.and_eq_false_iff, decide_eq_false_iff_not,
      beq_eq_false_iff_ne]
    omega

/-- A function's name is made of plain characters. -/
theorem isPlainChar_of_isFunctionName {name : List Char} (h : isFunctionName name = true) :
    ∀ c ∈ name, isPlainChar c = true := by
  cases name with
  | nil => cases h
  | cons first rest =>
    rw [isFunctionName, Bool.and_eq_true, List.all_eq_true] at h
    intro c hc
    rcases List.mem_cons.mp hc with rfl | hc
    · exact isPlainChar_of_isNameStart h.1
    · rcases Bool.or_eq_true_iff.mp (h.2 c hc) with hc | hc
      · exact isPlainChar_of_isNameStart hc
      · exact isPlainChar_of_isDigit hc

theorem enclosed_of_plain {nested : Bool} {text : List Char}
    (h : ∀ c ∈ text, isPlainChar c = true) : Enclosed nested text :=
  .plain fun c hc => (isPlainChar_iff.mp (h c hc)).1

theorem trimmed_of_plain {text : List Char} (h : ∀ c ∈ text, isPlainChar c = true) :
    Trimmed text where
  head c hc := (isPlainChar_iff.mp (h c (List.mem_of_mem_head? hc))).2
  last c hc := (isPlainChar_iff.mp (h c (List.mem_of_mem_getLast? hc))).2

theorem getLast?_closed (before inside : List Char) :
    (before ++ '(' :: (inside ++ [')'])).getLast? = some ')' := by
  rw [← List.cons_append, ← List.append_assoc, List.getLast?_concat]

namespace ArgumentText

theorem of_plain {text : List Char} (h : text.all isPlainChar = true) (hne : text ≠ []) :
    ArgumentText text where
  enclosed := enclosed_of_plain (List.all_eq_true.mp h)
  trimmed := trimmed_of_plain (List.all_eq_true.mp h)
  ne_nil := hne

/-- A text that starts with a plain character and ends with a closing parenthesis. -/
theorem of_closed {opening : Char} {text : List Char} (ho : isPlainChar opening = true)
    (h : Enclosed false text) (hl : text.getLast? = some ')') : ArgumentText (opening :: text) where
  enclosed := by
    have hopening : Enclosed false [opening] :=
      enclosed_of_plain (List.forall_mem_singleton.mpr ho)
    exact hopening.append h
  trimmed := by
    obtain ⟨text, rfl⟩ := List.getLast?_eq_some_iff.mp hl
    have hhead : (opening :: text).head? = some opening := rfl
    exact Pattern.trimmed_concat hhead (isPlainChar_iff.mp ho).2 rfl
  ne_nil := List.cons_ne_nil _ _

theorem quote (text : List Char) : ArgumentText (quote text) where
  enclosed := .quote text
  trimmed := by
    have hhead : ('\'' :: escapeQuotes text).head? = some '\'' := rfl
    exact Pattern.trimmed_concat hhead rfl rfl
  ne_nil := List.cons_ne_nil _ _

theorem intText (n : Int) : ArgumentText (Number.intText n) := by
  have hdigits : ∀ n : Nat, (Nat.toDigits 10 n).all isPlainChar = true := fun n =>
    List.all_eq_true.mpr fun _ hc => isPlainChar_of_isDigit (isDigit_of_mem_toDigits hc)
  cases n with
  | ofNat n => exact of_plain (hdigits n) Nat.toDigits_ne_nil
  | negSucc n =>
    have hall : ('-' :: Nat.toDigits 10 (n + 1)).all isPlainChar = true := hdigits (n + 1)
    exact of_plain hall (List.cons_ne_nil _ _)

theorem reference (r : Reference) : ArgumentText (r.canonical '&') := by
  have hdigits : ∀ n : Nat, Enclosed true (Nat.toDigits 10 n) := fun n =>
    enclosed_of_plain fun _ hc => isPlainChar_of_isDigit (isDigit_of_mem_toDigits hc)
  have hinside : Enclosed true (Nat.toDigits 10 r.level ++ ',' :: Nat.toDigits 10 r.group) :=
    (hdigits r.level).append (.char (by decide) (.inr rfl) (hdigits r.group))
  have hclosed : ArgumentText ('&' :: '(' ::
      (Nat.toDigits 10 r.level ++ ',' :: Nat.toDigits 10 r.group ++ [')'])) :=
    of_closed rfl hinside.parenthesized (getLast?_closed [] _)
  simpa [Reference.canonical] using hclosed

end ArgumentText

/-- Inside of parentheses the commas between arguments are no cuts. -/
theorem enclosed_join {texts : List (List Char)} (h : ∀ t ∈ texts, ArgumentText t) :
    Enclosed true (joinArguments texts) := by
  induction texts with
  | nil => exact .nil
  | cons text texts ih =>
    have ht := (h text List.mem_cons_self).enclosed.of_false
    cases texts with
    | nil => rwa [joinArguments, List.intercalate_singleton]
    | cons next texts =>
      rw [joinArguments, List.intercalate_cons_cons, List.append_assoc]
      refine ht.append (.char (by decide) (.inr rfl) (.char (by decide) (.inr rfl) ?_))
      exact ih fun t hm => h t (List.mem_cons_of_mem text hm)

theorem enclosed_callText {nested : Bool} {name : List Char} {texts : List (List Char)}
    (hn : isFunctionName name = true) (h : ∀ t ∈ texts, ArgumentText t) :
    Enclosed nested (name ++ '(' :: (joinArguments texts ++ [')'])) :=
  (enclosed_of_plain (isPlainChar_of_isFunctionName hn)).append (enclosed_join h).parenthesized

mutual
/-- An argument that can be written stands for one argument. -/
theorem Argument.text_argumentText {registry : Registry} :
    {a : Argument} → a.Writable registry → ArgumentText a.text
  | .literal (.str text), _ => .quote text.toList
  | .literal (.num (.int n)), _ => .intText n
  | .literal (.bool true), _ => .of_plain (by decide) (by decide)
  | .literal (.bool false), _ => .of_plain (by decide) (by decide)
  | .literal .null, _ => .of_plain (by decide) (by decide)
  | .current, _ => .of_plain (by decide) (by decide)
  | .reference r, _ => .reference r
  | .call _ _ _, ⟨hc, hargs⟩ =>
    .of_closed (by decide)
      (enclosed_callText hc.isName (argumentTexts_argumentText hargs)) (getLast?_closed _ _)

theorem argumentTexts_argumentText {registry : Registry} :
    {args : List Argument} → WritableArguments registry args →
      ∀ t ∈ argumentTexts args, ArgumentText t
  | [], _ => List.forall_mem_nil _
  | _ :: _, ⟨ha, hrest⟩ =>
    List.forall_mem_cons.mpr ⟨Argument.text_argumentText ha, argumentTexts_argumentText hrest⟩
end

/-! ## Reading -/

/-- Texts with different first characters are different. -/
theorem ofList_ne_of_head {c d : Char} {text word : List Char} (h : c ≠ d) :
    String.ofList (c :: text) ≠ String.ofList (d :: word) := by
  intro he
  rw [String.ofList_inj] at he
  exact h (List.cons.inj he).1

theorem quoted?_cons {c : Char} (h : c ≠ '\'') (rest : List Char) :
    quoted? (c :: rest) = none := by
  rw [quoted?]
  rintro _ he
  exact h (List.cons.inj he).1

section Argument

variable {s : Scope} {call : List Char → Except SpecError Call}

theorem argumentWith_quote (text : List Char) :
    s.argumentWith call (quote text) = .ok (.literal (.str (String.ofList text))) := by
  have hq : quoted? (quote text) = some text := by
    rw [quote, List.cons_append, quoted?, List.getLast?_concat, List.dropLast_concat,
      unescape_escapeQuotes]
    rfl
  rw [quote, List.cons_append] at hq ⊢
  rw [Scope.argumentWith, hq] <;> exact fun _ he => absurd (List.cons.inj he).1 (by decide)

theorem argumentWith_lookup {c : Char} {rest : List Char} {l : Lookup}
    (h : Lookup.parse ('@' :: c :: rest) = .ok l) :
    s.argumentWith call ('@' :: c :: rest) = .ok (.lookup l) := by
  rw [Scope.argumentWith, quoted?_cons (by decide)]
  dsimp only
  split
  case h_5 => rw [h]
  case h_1 ht => cases (List.cons.inj (String.ofList_inj.mp ht)).2
  all_goals exact absurd ‹_› (ofList_ne_of_head (by decide))

theorem argumentWith_reference {rest : List Char} {r : Reference}
    (h : referenceScan.runOn ('&' :: rest) 0 = .ok (some r)) :
    s.argumentWith call ('&' :: rest) = .ok (.reference r) := by
  rw [Scope.argumentWith, quoted?_cons (by decide)]
  dsimp only
  split
  case h_5 => rw [h]
  all_goals exact absurd ‹_› (ofList_ne_of_head (by decide))

theorem argumentWith_call (expression : List Char) :
    s.argumentWith call ('=' :: expression) =
      (call expression).map fun c => .call c.name c.function c.args := by
  rw [Scope.argumentWith, quoted?_cons (by decide)]
  dsimp only
  split
  case h_5 => rfl
  all_goals exact absurd ‹_› (ofList_ne_of_head (by decide))

theorem argumentWith_number {c : Char} {rest : List Char} {v : Json}
    (hc : c ∉ ['\'', '@', '&', '=', 't', 'f', 'n']) (h : numberLiteral? (c :: rest) = some v) :
    s.argumentWith call (c :: rest) = .ok (.literal v) := by
  simp only [List.mem_cons, List.not_mem_nil, or_false, not_or] at hc
  obtain ⟨hq, ha, hr, he, ht, hf, hn⟩ := hc
  rw [Scope.argumentWith, quoted?_cons hq, h]
  · dsimp only
    split
    case h_5 => rfl
    case h_1 => exact absurd ‹_› (ofList_ne_of_head ha)
    case h_2 => exact absurd ‹_› (ofList_ne_of_head ht)
    case h_3 => exact absurd ‹_› (ofList_ne_of_head hf)
    case h_4 => exact absurd ‹_› (ofList_ne_of_head hn)
  · exact fun _ h => ha (List.cons.inj h).1
  · exact fun _ h => hr (List.cons.inj h).1
  · exact fun _ h => he (List.cons.inj h).1

theorem argumentWith_intText {n : Int} (h : Text.inInt64 n = true) :
    s.argumentWith call (Number.intText n) = .ok (.literal (.ofInt n)) := by
  have hread := numberLiteral?_intText h
  have hhead : ∃ c rest, Number.intText n = c :: rest ∧
      c ∉ ['\'', '@', '&', '=', 't', 'f', 'n'] := by
    cases n with
    | ofNat n =>
      obtain ⟨c, digits, hd, hc⟩ := exists_toDigits_eq_cons n
      refine ⟨c, digits, hd, fun hm => ?_⟩
      have hall : ['\'', '@', '&', '=', 't', 'f', 'n'].all (fun c => !Text.isDigit c) = true := by
        decide
      have hnot := List.all_eq_true.mp hall c hm
      rw [hc] at hnot
      cases hnot
    | negSucc n => exact ⟨'-', _, rfl, by decide⟩
  obtain ⟨c, rest, htext, hc⟩ := hhead
  rw [htext] at hread ⊢
  exact argumentWith_number hc hread

end Argument

/-! ## Calls -/

theorem trim_closed {name : List Char} (hn : ∀ c ∈ name, isPlainChar c = true) (hne : name ≠ [])
    (inside : List Char) :
    Text.trim (name ++ '(' :: (inside ++ [')'])) = name ++ '(' :: (inside ++ [')']) := by
  refine Trimmed.trim_eq ⟨fun c hc => ?_, fun c hc => ?_⟩
  · obtain ⟨first, rest, rfl⟩ := List.exists_cons_of_ne_nil hne
    exact (trimmed_of_plain hn).head c hc
  · rw [getLast?_closed] at hc
    obtain rfl := Option.some.inj hc
    rfl

/-- A name without parentheses is what stands in front of the first one. -/
theorem callParts_closed {name : List Char} (hn : ∀ c ∈ name, isPlainChar c = true)
    (inside : List Char) :
    Scope.callParts (name ++ '(' :: (inside ++ [')'])) = some (name, some inside) := by
  have hopen : ∀ c ∈ name, (c != '(') = true := by
    intro c hc
    rw [bne_iff_ne]
    rintro rfl
    exact absurd (hn '(' hc) (by decide)
  have hspan : (name ++ '(' :: (inside ++ [')'])).span (· != '(') =
      (name, '(' :: (inside ++ [')'])) := by
    rw [List.span_eq_takeWhile_dropWhile, List.takeWhile_append_of_pos hopen,
      List.dropWhile_append_of_pos hopen]
    simp
  rw [Scope.callParts, hspan]
  dsimp only
  rw [List.getLast?_concat, List.dropLast_concat, (trimmed_of_plain hn).trim_eq]
  rfl

section Call

variable {s : Scope} {depth : Nat} {name : String} {function : Function}

/-- A call is read one level deeper, argument by argument. -/
theorem Callable.callWithin_eq (hc : Callable s.registry name function) (inside : List Char) :
    let text := name.toList ++ '(' :: (inside ++ [')'])
    s.callWithin (depth + 1) text =
      match splitArguments inside with
      | .error e => s.invalid s!"in '={String.ofList text}': {e.message}"
      | .ok parts =>
        (parts.mapM (s.argumentWith (s.callWithin depth))).bind fun args =>
          .ok ⟨name, function, args⟩ := by
  intro text
  have hplain := isPlainChar_of_isFunctionName hc.isName
  have hne : name.toList ≠ [] := by
    intro he
    have hname := hc.isName
    rw [he] at hname
    cases hname
  rw [Scope.callWithin]
  dsimp only
  rw [trim_closed hplain hne, callParts_closed hplain]
  dsimp only
  rw [hc.isName, String.ofList_toList, hc.registered]
  rfl

theorem callWithin_eq_ok {inside : List Char} {c : Call}
    (hc : Callable s.registry name function) :
    s.callWithin (depth + 1) (name.toList ++ '(' :: (inside ++ [')'])) = .ok c ↔
      ∃ parts args, splitArguments inside = .ok parts ∧
        parts.mapM (s.argumentWith (s.callWithin depth)) = .ok args ∧
          c = ⟨name, function, args⟩ := by
  rw [hc.callWithin_eq]
  cases splitArguments inside with
  | error e => exact ⟨nofun, fun ⟨_, _, he, _⟩ => nomatch he⟩
  | ok parts =>
    dsimp only
    cases hargs : parts.mapM (s.argumentWith (s.callWithin depth)) with
    | error e =>
      refine ⟨nofun, fun ⟨_, _, he, hmap, _⟩ => ?_⟩
      rw [← Except.ok.inj he, hargs] at hmap
      cases hmap
    | ok args =>
      constructor
      · exact fun h => ⟨parts, args, rfl, hargs, (Except.ok.inj h).symm⟩
      · rintro ⟨_, _, he, hmap, rfl⟩
        rw [← Except.ok.inj he, hargs] at hmap
        rw [← Except.ok.inj hmap]
        rfl

/-- Arguments that do not come apart are an error. -/
theorem callWithin_eq_error {inside : List Char} {problem : ArgumentProblem}
    (hc : Callable s.registry name function) (h : splitArguments inside = .error problem) :
    let text := name.toList ++ '(' :: (inside ++ [')'])
    s.callWithin (depth + 1) text =
      s.invalid s!"in '={String.ofList text}': {problem.message}" := by
  intro text
  rw [hc.callWithin_eq, h]

end Call

/-- An argument is no longer than all of them together. -/
theorem length_le_joinArguments {texts : List (List Char)} {text : List Char} (h : text ∈ texts) :
    text.length ≤ (joinArguments texts).length := by
  induction texts with
  | nil => cases h
  | cons first rest ih =>
    cases rest with
    | nil =>
      obtain rfl := List.mem_singleton.mp h
      rw [joinArguments, List.intercalate_singleton]
    | cons next rest =>
      rw [joinArguments, List.intercalate_cons_cons, List.length_append, List.length_append]
      rcases List.mem_cons.mp h with rfl | h
      · omega
      · have hle := ih h
        rw [joinArguments] at hle
        omega

theorem referenceScan_canonical {r : Reference} (h : r.InRange) :
    referenceScan.runOn (r.canonical '&') 0 = .ok (some r) := by
  have htail := Pattern.reads_referenceTail h []
  rw [List.append_nil] at htail
  have hread : Reads referenceScan ('&' :: r.tailCanonical) (some r) [] :=
    .bind (Pattern.Scan.reads_advance '&' _) (.bind htail (.peek (.pure _ _)))
  exact hread.runOn 0

mutual
/-- An argument is read back where calls may nest as deep as its text is long. -/
theorem Argument.read_text {s : Scope} {depth : Nat} :
    {a : Argument} → a.Writable s.registry → a.text.length ≤ depth →
      s.argumentWith (s.callWithin depth) a.text = .ok a
  | .literal (.str text), _, _ => by
    rw [Argument.text, argumentWith_quote, String.ofList_toList]
  | .literal (.num (.int n)), h, _ => argumentWith_intText h
  | .literal (.bool true), _, _ => rfl
  | .literal (.bool false), _, _ => rfl
  | .literal .null, _, _ => rfl
  | .current, _, _ => rfl
  | .reference r, h, _ => argumentWith_reference (referenceScan_canonical h)
  | .call name function args, ⟨hc, hargs⟩, hlength => by
    rw [Argument.text, List.length_cons, List.length_append, List.length_cons,
      List.length_append] at hlength
    cases depth with
    | zero => omega
    | succ depth =>
      have hshort : ∀ t ∈ argumentTexts args, t.length ≤ depth := by
        intro t ht
        have hle := length_le_joinArguments ht
        omega
      have hparts := ArgumentText.splitArguments_join (argumentTexts_argumentText hargs)
      rw [Argument.text, argumentWith_call, (callWithin_eq_ok hc).mpr
        ⟨_, args, hparts, arguments_read_text hargs hshort, rfl⟩]
      rfl

theorem arguments_read_text {s : Scope} {depth : Nat} :
    {args : List Argument} → WritableArguments s.registry args →
      (∀ t ∈ argumentTexts args, t.length ≤ depth) →
      (argumentTexts args).mapM (s.argumentWith (s.callWithin depth)) = .ok args
  | [], _, _ => rfl
  | a :: rest, ⟨ha, hrest⟩, hlength => by
    rw [argumentTexts] at hlength ⊢
    have hfirst := Argument.read_text ha (hlength a.text List.mem_cons_self)
    have hmore := arguments_read_text hrest fun t ht => hlength t (List.mem_cons_of_mem _ ht)
    rw [List.mapM_cons, hfirst, hmore]
    rfl
end

/-- A right-hand side that starts with `=` is a call. -/
theorem compileTarget_call {registry : Registry} {config : Config} (hf : config.functions = true)
    (mode : ModifyMode) (location : String) (expression : List Char) :
    (modify mode registry).compileTarget config location
        (.str (String.ofList ('=' :: expression))) =
      ((⟨registry, location⟩ : Scope).call expression).map fun c => [.call c] := by
  have hsource : Scope.source ⟨registry, location⟩ config.functions
      (.str (String.ofList ('=' :: expression))) =
        ((⟨registry, location⟩ : Scope).call expression).map .call := by
    rw [Scope.source, String.toList_ofList]
    exact if_pos hf
  change modifyTarget registry config location (.str (String.ofList ('=' :: expression))) = _
  rw [modifyTarget, hsource]
  · cases (⟨registry, location⟩ : Scope).call expression <;> rfl
  · exact nofun
  · exact nofun

/-- Every call that can be written is read back: the right-hand side `=name(argument, ...)` is
compiled to the call of that name with just these arguments. -/
theorem compileTarget_callText {registry : Registry} {config : Config} {c : Call}
    (hf : config.functions = true) (hc : c.Writable registry) (mode : ModifyMode)
    (location : String) :
    (modify mode registry).compileTarget config location (.str (String.ofList ('=' :: c.text))) =
      .ok [.call c] := by
  have hparts := ArgumentText.splitArguments_join (argumentTexts_argumentText hc.args)
  have hshort : ∀ t ∈ argumentTexts c.args, t.length ≤ c.text.length := by
    intro t ht
    have hle := length_le_joinArguments ht
    rw [Call.text, List.length_append, List.length_cons, List.length_append]
    omega
  have hread : (⟨registry, location⟩ : Scope).call c.text = .ok c :=
    (callWithin_eq_ok hc.callable).mpr
      ⟨_, c.args, hparts, arguments_read_text hc.args hshort, rfl⟩
  exact (compileTarget_call hf mode location c.text).trans (congrArg _ hread)

/-- A call with quotes, commas, parentheses and backslashes in a string, and a call in it. -/
def nestedCall : Call where
  name := "concat"
  function := Function.concat
  args := [.literal (.str " it's (a, b\\"), .literal (.num (.int (-5))),
    .call "toString" Function.asText [.current, .reference ⟨1, 0⟩], .literal .null]

theorem compileTarget_callText_nested :
    (modify .overwrite Registry.builtin).compileTarget {} "a"
        (.str "=concat(' it\\'s (a, b\\\\', -5, =toString(@, &(1,0)), null)") =
      .ok [.call nestedCall] := by
  have htext : "=concat(' it\\'s (a, b\\\\', -5, =toString(@, &(1,0)), null)" =
      String.ofList ('=' :: nestedCall.text) := by decide +kernel
  have hconcat : Callable Registry.builtin "concat" Function.concat := ⟨rfl, by decide⟩
  have htoString : Callable Registry.builtin "toString" Function.asText := ⟨rfl, by decide⟩
  have hinner : WritableArguments Registry.builtin [.current, .reference ⟨1, 0⟩] :=
    ⟨trivial, ⟨by decide, by decide⟩, trivial⟩
  have hargs : WritableArguments Registry.builtin nestedCall.args := by
    refine ⟨?_, ?_, ⟨htoString, hinner⟩, ?_, trivial⟩ <;> rw [Argument.Writable] <;> decide
  rw [htext]
  exact compileTarget_callText rfl ⟨hconcat, hargs⟩ .overwrite "a"

end Reshape.Operation
