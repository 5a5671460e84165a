import ClientForge.Proofs.Words

/-!
# Identifiers

A name is an identifier of both target languages if it starts with a letter or an underscore
and goes on with letters, digits and underscores. The names that are made of words hold letters
and digits only, so all depends on the first of them: such a name is an identifier exactly if
the first letter or digit of the text that it is made from is a letter. The name of a method
starts with a verb of its own, unless the last segment of the path is the verb; then that
segment decides, and where it has no letter or digit the segments in front of it do.

A display name is taken if it is an identifier, but a line feed that follows it goes unnoticed
and becomes part of the name.
-/

namespace ClientForge.Naming

open ClientForge.Text

variable {name text : String} {c : Char} {cs : List Char} {a : Action}

/-- Whether a name is an identifier of both languages, from its first character to its last. -/
def IsIdentifier (name : String) : Prop :=
  (name.toList.head?.any fun c => isAsciiLetter c || c == '_') = true ∧
    ∀ c ∈ name.toList, isWordChar c = true ∨ c = '_'

instance (name : String) : Decidable (IsIdentifier name) :=
  decidable_of_iff (((name.toList.head?.any fun c => isAsciiLetter c || c == '_') &&
    name.toList.all fun c => isWordChar c || c == '_') = true) (by simp [IsIdentifier])

theorem isIdentifier_ofList_cons (c : Char) (rest : List Char) :
    IsIdentifier (String.ofList (c :: rest)) ↔
      ((isAsciiLetter c || c == '_') && rest.all fun d => isWordChar d || d == '_') = true := by
  have head : isAsciiLetter c = true → isWordChar c = true := fun letter => by
    simp [isWordChar, letter]
  simp only [IsIdentifier, String.toList_ofList, List.head?_cons, Option.any_some,
    List.forall_mem_cons, Bool.and_eq_true, Bool.or_eq_true, beq_iff_eq, List.all_eq_true]
  constructor
  · rintro ⟨first, -, others⟩
    exact ⟨first, others⟩
  · rintro ⟨first, others⟩
    exact ⟨first, first.imp_left head, others⟩

/-- No identifier holds a line feed. -/
theorem IsIdentifier.lineFeed_notMem (h : IsIdentifier name) : '\n' ∉ name.toList := by
  intro inside
  rcases h.2 _ inside with word | other
  · cases word
  · cases other

/-- Letters and digits are an identifier exactly if a letter is in front. -/
theorem isIdentifier_iff_of_isWord (word : IsWord name) :
    IsIdentifier name ↔ name.toList.head?.any isAsciiLetter = true := by
  cases chars : name.toList with
  | nil => simp [IsIdentifier, chars]
  | cons c rest =>
      have inside : isWordChar c = true := word c (by simp [chars])
      have other : c ≠ '_' := by
        rintro rfl
        cases inside
      constructor
      · rintro ⟨first, -⟩
        simpa [chars, other] using first
      · intro first
        have letter : isAsciiLetter c = true := by simpa using first
        exact ⟨by simp [chars, letter], fun d hd => .inl (word d hd)⟩

/-! ## The first letter or digit -/

theorem isAsciiLetter_capital (c : Char) : isAsciiLetter (capital c) = isAsciiLetter c := by
  cases lower : isAsciiLower c with
  | true =>
      obtain ⟨n, high, low, rfl⟩ := exists_code_of_isAsciiLower lower
      revert n
      decide
  | false => rw [capital_eq_self lower]

theorem isAsciiLetter_small (c : Char) : isAsciiLetter (small c) = isAsciiLetter c := by
  cases upper : isAsciiUpper c with
  | true =>
      obtain ⟨n, high, low, rfl⟩ := exists_code_of_isAsciiUpper upper
      revert n
      decide
  | false => rw [small_eq_self upper]

/-- The first letter or digit of a text. -/
def leading? (text : String) : Option Char := text.toList.find? isWordChar

/-- Whether the first letter or digit of a text is there and is a letter. -/
def LeadsWithLetter (text : String) : Prop := (leading? text).any isAsciiLetter = true

instance (text : String) : Decidable (LeadsWithLetter text) :=
  inferInstanceAs (Decidable (_ = true))

theorem head?_flatten_words (text : String) :
    (words text.toList).flatten.head? = leading? text := by
  rw [flatten_words, List.head?_filter, leading?]

theorem head?_pascal (text : String) :
    (pascal text).toList.head? = (leading? text).map capital := by
  rw [pascal, String.toList_ofList, ← head?_flatten_words]
  cases cut : words text.toList with
  | nil => rfl
  | cons w more =>
      obtain ⟨c, rest, rfl⟩ :=
        List.exists_cons_of_ne_nil (ne_nil_of_mem_words (cut ▸ List.mem_cons_self))
      rfl

theorem head?_camel (text : String) : (camel text).toList.head? = (leading? text).map small := by
  rw [camel, String.toList_ofList, ← head?_flatten_words]
  cases cut : words text.toList with
  | nil => rfl
  | cons w more =>
      obtain ⟨c, rest, rfl⟩ :=
        List.exists_cons_of_ne_nil (ne_nil_of_mem_words (cut ▸ List.mem_cons_self))
      rw [camelOf]
      split
      · rfl
      · rfl

theorem leading?_append (text more : String) :
    leading? (text ++ more) = (leading? text).or (leading? more) := by
  rw [leading?, String.toList_append, List.find?_append, leading?, leading?]

/-- The class of a text is an identifier exactly if the text leads with a letter. -/
theorem isIdentifier_className_iff : IsIdentifier (className text) ↔ LeadsWithLetter text := by
  rw [isIdentifier_iff_of_isWord (isWord_className text), className, head?_pascal, Option.any_map]
  simp only [isAsciiLetter_capital, LeadsWithLetter]

theorem head?_join_pascal (texts : List String) :
    (String.join (texts.map pascal)).toList.head? =
      (leading? (String.join texts)).map capital := by
  induction texts with
  | nil => rfl
  | cons text more ih =>
      rw [List.map_cons, String.join_cons, String.join_cons, String.toList_append,
        List.head?_append, leading?_append, head?_pascal, ih, Option.map_or]

theorem isWord_join_pascal (texts : List String) : IsWord (String.join (texts.map pascal)) := by
  induction texts with
  | nil => decide
  | cons text more ih =>
      rw [List.map_cons, String.join_cons]
      exact (isWord_className text).append ih

/-! ## Methods -/

/-- The segment of a path that is the verb of a method, and the fixed segments that follow it
in the name: the last one of a path with more than one, if it is fixed and the method changes
something. -/
def verbFirst? (a : Action) : Option (String × List String) :=
  let segments := (split '/' a.path).filter (· ≠ "")
  segments.getLast?.bind fun last =>
    if a.method ≠ .get ∧ 2 ≤ segments.length ∧ ¬ isParameterSegment last then
      some (last, (segments.filter (!isParameterSegment ·)).dropLast)
    else none

/-- A verb from the path is the first word of the name. -/
theorem methodNameFromPath_of_verb {verb : String} {others : List String}
    (first : verbFirst? a = some (verb, others)) :
    methodNameFromPath a = camel verb ++ String.join (others.map pascal) := by
  obtain ⟨last, ends, chosen⟩ := Option.bind_eq_some_iff.mp first
  split at chosen
  next changes =>
    obtain ⟨rfl, rfl⟩ := Prod.mk.inj (Option.some.inj chosen)
    simp only [methodNameFromPath, ends, if_pos changes]
  next => cases chosen

/-- Otherwise the method of the protocol gives the verb. -/
theorem methodNameFromPath_of_none (none_ : verbFirst? a = none) :
    ∃ texts : List String,
      methodNameFromPath a = defaultVerb a.method ++ String.join (texts.map pascal) := by
  refine ⟨((split '/' a.path).filter (· ≠ "")).filter (!isParameterSegment ·), ?_⟩
  rw [methodNameFromPath]
  dsimp only
  split
  next last ends =>
    rw [if_neg]
    intro changes
    have chosen := Option.bind_eq_none_iff.mp none_ last ends
    rw [if_pos changes] at chosen
    cases chosen
  next => rfl

/-- The name that a path gives is an identifier, unless the segments of which it is made lead
with a digit or have neither letters nor digits. -/
theorem isIdentifier_methodNameFromPath_iff : IsIdentifier (methodNameFromPath a) ↔
    ∀ verb others, verbFirst? a = some (verb, others) →
      LeadsWithLetter (verb ++ String.join others) := by
  cases first : verbFirst? a with
  | none =>
      -- The verb that the method of the protocol gives is in front, and it begins with a letter.
      obtain ⟨texts, made⟩ := methodNameFromPath_of_none first
      have word : IsWord (defaultVerb a.method ++ String.join (texts.map pascal)) := by
        refine IsWord.append ?_ (isWord_join_pascal texts)
        cases a.method <;> decide
      rw [made, isIdentifier_iff_of_isWord word]
      simp only [reduceCtorEq, false_implies, implies_true, iff_true]
      cases a.method <;> rw [String.toList_append] <;> rfl
  | some found =>
      obtain ⟨verb, others⟩ := found
      have word : IsWord (camel verb ++ String.join (others.map pascal)) :=
        (isWord_camel verb).append (isWord_join_pascal others)
      -- Case is all that the first letter or digit loses on the way into the name.
      have leads : (camel verb ++ String.join (others.map pascal)).toList.head?.any isAsciiLetter =
          (leading? (verb ++ String.join others)).any isAsciiLetter := by
        rw [String.toList_append, List.head?_append, head?_camel, head?_join_pascal,
          leading?_append]
        cases leading? verb with
        | some c => exact isAsciiLetter_small c
        | none =>
            cases leading? (String.join others) with
            | some c => exact isAsciiLetter_capital c
            | none => rfl
      rw [methodNameFromPath_of_verb first, isIdentifier_iff_of_isWord word, leads]
      constructor
      · rintro letter _ _ same
        obtain ⟨rfl, rfl⟩ := Prod.mk.inj (Option.some.inj same)
        exact letter
      · intro letter
        exact letter verb others rfl

theorem isIdentifierLine_append : isIdentifierLine (name ++ "\n").toList = true ↔
    IsIdentifier name := by
  have turned : (name ++ "\n").toList.reverse = '\n' :: name.toList.reverse := by simp
  simp only [isIdentifierLine, turned, List.reverse_reverse]
  rw [← String.ofList_toList (s := name), String.toList_ofList]
  cases name.toList with
  | nil => simp [IsIdentifier]
  | cons c rest => exact (isIdentifier_ofList_cons c rest).symm

theorem isIdentifierLine_of_ne (other : ∀ name, text ≠ name ++ "\n") :
    isIdentifierLine text.toList = true ↔ IsIdentifier text := by
  have open_ (rest : List Char) : text.toList.reverse ≠ '\n' :: rest := by
    intro turned
    refine other (String.ofList rest.reverse) (String.toList_inj.mp ?_)
    rw [← List.reverse_reverse text.toList, turned]
    simp
  simp only [isIdentifierLine]
  rw [← String.ofList_toList (s := text), String.toList_ofList]
  cases text.toList with
  | nil => simp [IsIdentifier]
  | cons c rest => exact (isIdentifier_ofList_cons c rest).symm

/-- What passes for an identifier is one, or is one with a line feed behind it. -/
theorem isIdentifierLine_iff : isIdentifierLine text.toList = true ↔
    IsIdentifier text ∨ ∃ name, IsIdentifier name ∧ text = name ++ "\n" := by
  by_cases ends : ∃ name, text = name ++ "\n"
  · obtain ⟨name, rfl⟩ := ends
    rw [isIdentifierLine_append]
    constructor
    · exact fun h => .inr ⟨name, h, rfl⟩
    · rintro (h | ⟨other, h, same⟩)
      · exact absurd (by simp) h.lineFeed_notMem
      · rwa [(String.append_left_inj _).mp same]
  · have other (name) : text ≠ name ++ "\n" := fun same => ends ⟨name, same⟩
    rw [isIdentifierLine_of_ne other]
    constructor
    · exact .inl
    · rintro (h | ⟨name, -, same⟩)
      · exact h
      · exact absurd same (other name)

theorem isIdentifier_uncapitalized : IsIdentifier (String.ofList (uncapitalized cs)) ↔
    IsIdentifier (String.ofList cs) := by
  cases cs with
  | nil => rfl
  | cons c rest =>
      have underscore : small c = '_' ↔ c = '_' := by
        cases upper : isAsciiUpper c with
        | true =>
            obtain ⟨n, high, low, rfl⟩ := exists_code_of_isAsciiUpper upper
            revert n
            decide
        | false => rw [small_eq_self upper]
      rw [uncapitalized, isIdentifier_ofList_cons, isIdentifier_ofList_cons, isAsciiLetter_small]
      simp [underscore]

/-- What an action needs for a method with an identifier: its display name is no identifier with
a line feed behind it, and where it is none at all the segments of which the path makes the name,
if there are such, lead with a letter. -/
structure HasIdentifier (a : Action) : Prop where
  display : ∀ name, IsIdentifier name → a.displayName ≠ .str (name ++ "\n")
  path : (∀ name, IsIdentifier name → a.displayName ≠ .str name) →
    ∀ verb others, verbFirst? a = some (verb, others) → LeadsWithLetter (verb ++ String.join others)

/-- A display name that does not pass is not looked at. -/
theorem hasIdentifier_iff_of_not_isIdentifierLine
    (other : ∀ text, a.displayName = .str text → isIdentifierLine text.toList = false) :
    HasIdentifier a ↔ IsIdentifier (methodNameFromPath a) := by
  have fails {text : String} (shown : a.displayName = .str text) :
      ¬ (IsIdentifier text ∨ ∃ name, IsIdentifier name ∧ text = name ++ "\n") := by
    rw [← isIdentifierLine_iff]
    simp [other text shown]
  rw [isIdentifier_methodNameFromPath_iff]
  constructor
  · intro has
    exact has.path fun name h shown => fails shown (.inl h)
  · intro path
    exact ⟨fun name h shown => fails shown (.inr ⟨name, h, rfl⟩), fun _ => path⟩

/-- An action without a display name, or with one that is a text, has a method with a name. The
name is an identifier of both languages exactly if neither a line feed behind the display name
nor the first letter or digit of the path is in the way. -/
theorem methodName_isIdentifier_iff
    (given : a.displayName = .null ∨ ∃ s, a.displayName = .str s) :
    ∃ name, methodName a = .ok name ∧ (IsIdentifier name ↔ HasIdentifier a) := by
  obtain none_ | ⟨s, shown⟩ := given
  · refine ⟨methodNameFromPath a, by simp [methodName, none_, Value.isTruthy], ?_⟩
    refine (hasIdentifier_iff_of_not_isIdentifierLine fun t shown => ?_).symm
    rw [none_] at shown
    cases shown
  · cases passes : isIdentifierLine s.toList with
    | false =>
        refine ⟨methodNameFromPath a, by simp [methodName, shown, passes], ?_⟩
        refine (hasIdentifier_iff_of_not_isIdentifierLine fun t same => ?_).symm
        obtain rfl := Value.str.inj (shown.symm.trans same)
        exact passes
    | true =>
        refine ⟨String.ofList (uncapitalized s.toList), by simp [methodName, shown, passes], ?_⟩
        rw [isIdentifier_uncapitalized, String.ofList_toList]
        constructor
        · intro identifier
          refine ⟨fun name _ same => ?_, fun other => absurd shown (other s identifier)⟩
          obtain rfl := Value.str.inj (shown.symm.trans same)
          exact absurd (by simp) identifier.lineFeed_notMem
        · intro has
          rcases isIdentifierLine_iff.mp passes with identifier | ⟨name, h, rfl⟩
          · exact identifier
          · exact absurd shown (has.display name h)

/-- A display name of several words is passed over, and the segment behind the parameter is the
verb. -/
theorem activateUsers_isIdentifier : ∃ name,
    methodName { method := .post, path := "/users/\x7bid\x7d/activate",
                 displayName := .str "switch on" } = .ok name ∧ IsIdentifier name := by
  obtain ⟨name, named, identifier⟩ := methodName_isIdentifier_iff
    (a := { method := .post, path := "/users/\x7bid\x7d/activate",
            displayName := .str "switch on" }) (.inr ⟨_, rfl⟩)
  refine ⟨name, named, identifier.mpr ⟨fun other _ same => ?_, fun _ verb others first => ?_⟩⟩
  · have ends := congrArg (·.toList.getLast?) (Value.str.inj same)
    simp at ends
  · have found :
        verbFirst? { method := .post, path := "/users/\x7bid\x7d/activate",
                     displayName := .str "switch on" } = some ("activate", ["users"]) := by
      decide
    rw [found] at first
    obtain ⟨rfl, rfl⟩ := Prod.mk.inj (Option.some.inj first)
    decide

/-- A line feed stays in a name, a year is put in front of one, and a segment without letters and
digits leaves nothing of one. -/
theorem methods_without_identifier :
    methodName { path := "/transfers", displayName := .str "sign\n" } = .ok "sign\n" ∧
    ¬ IsIdentifier "sign\n" ∧
    methodName { method := .post, path := "/reports/2024" } = .ok "2024Reports" ∧
    ¬ IsIdentifier "2024Reports" ∧
    methodName { method := .put, path := "/\x7bid\x7d/-" } = .ok "" ∧ ¬ IsIdentifier "" := by
  refine ⟨rfl, by decide, rfl, by decide, rfl, by decide⟩

end ClientForge.Naming
