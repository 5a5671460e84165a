import ClientForge.Proofs.Variables

/-!
# Words that a module reserves

The methods of a JavaScript client and the accessors of an entity stand in the class of a module,
and there code is strict. What may not be bound in it are the keywords of the language, the words
that strict code reserves, the one that modules reserve, and two names that strict code has for
itself. The words that are escaped when a variable is named are the keywords and three of the
others. So a variable may be bound as a parameter exactly if its name is not, in one of three
spellings, one of the nine words that are overlooked; any other name has a variable that may.
-/

namespace ClientForge.Naming

open ClientForge.Text

variable {plain name : String}

/-- The words that the language reserves everywhere. -/
def keywords : List String :=
  ["break", "case", "catch", "class", "const", "continue", "debugger", "default", "delete", "do",
    "else", "enum", "export", "extends", "false", "finally", "for", "function", "if", "import",
    "in", "instanceof", "new", "null", "return", "super", "switch", "this", "throw", "true", "try",
    "typeof", "var", "void", "while", "with"]

/-- The words that strict code reserves besides. -/
def strictWords : List String :=
  ["implements", "interface", "let", "package", "private", "protected", "public", "static",
    "yield"]

/-- The words that may not be bound in the class of a module: those that are reserved there,
`await` among them, and the two names that strict code does not bind. -/
def unbindable : List String := keywords ++ strictWords ++ ["await", "eval", "arguments"]

/-- Whether a name may be bound as a parameter in the class of a module. -/
def IsBindable (name : String) : Prop := IsIdentifier name ∧ name ∉ unbindable

instance (name : String) : Decidable (IsBindable name) := inferInstanceAs (Decidable (_ ∧ _))

/-- The words among these that are not escaped. -/
def overlooked : List String := unbindable.filter (· ∉ reservedWords .javascript)

/-- A name that is a word in one of its spellings, with separators around it. -/
def Spells (name word : String) : Prop :=
  ∃ spelled ∈ spellings word.toList, StandsAlone spelled name.toList

/-- An escaped variable is one of the words that may not be bound only if it is overlooked. -/
theorem escaped_mem_unbindable_iff :
    escaped .javascript plain ∈ unbindable ↔ plain ∈ overlooked := by
  have noValue : ∀ word ∈ unbindable, ¬ "value".toList <+: word.toList := by decide
  have noDigit : ∀ word ∈ overlooked, word.toList.head?.any isAsciiDigit = false := by decide
  have noLonger : ∀ word ∈ reservedWords .javascript, word ++ "Value" ∉ unbindable := by decide
  unfold escaped
  split
  next digit =>
    refine iff_of_false (fun h => noValue _ h ?_) fun h => ?_
    · rw [String.toList_append]
      exact List.prefix_append _ _
    · rw [noDigit plain h] at digit
      cases digit
  next =>
    split
    next reserved =>
      rw [List.contains_iff_mem] at reserved
      exact iff_of_false (noLonger plain reserved) fun h => by
        simp [overlooked, reserved] at h
    next free =>
      rw [List.contains_iff_mem] at free
      simp [overlooked, free]

/-- An overlooked word is the variable of the names that spell it. -/
theorem camel_eq_iff_spells {word : String} (known : word ∈ overlooked) :
    camel name = word ↔ Spells name word := by
  have small_ : ∀ w ∈ overlooked, w ≠ "" ∧ w.toList.all isAsciiLower = true := by decide
  obtain ⟨some_, lower⟩ := small_ word known
  rw [List.all_eq_true] at lower
  obtain ⟨c, tail, chars⟩ := List.exists_cons_of_ne_nil (String.toList_eq_nil_iff.not.mpr some_)
  rw [chars] at lower
  have spelled := camel_eq_iff name lower
  rwa [← chars, String.ofList_toList] at spelled

theorem plainVariable_mem_overlooked_iff :
    plainVariable name ∈ overlooked ↔ ∃ word ∈ overlooked, Spells name word := by
  have apart : "value" ∉ overlooked ∧ "" ∉ overlooked := by decide
  have same : plainVariable name ∈ overlooked ↔ camel name ∈ overlooked := by
    unfold plainVariable orName
    split
    next empty =>
      rw [beq_iff_eq] at empty
      rw [empty]
      exact iff_of_false apart.1 apart.2
    next => exact Iff.rfl
  rw [same]
  constructor
  · intro known
    exact ⟨_, known, (camel_eq_iff_spells known).mp rfl⟩
  · rintro ⟨word, known, spells⟩
    rwa [(camel_eq_iff_spells known).mpr spells]

/-- The variable of a property or a parameter may be bound as a parameter in the class of a
module exactly if the name spells none of nine words. -/
theorem variableName_isBindable_iff (name : String) :
    (IsBindable (variableName .javascript name) ↔ ∀ word ∈ overlooked, ¬ Spells name word) ∧
      overlooked = ["implements", "interface", "package", "private", "protected", "public",
        "await", "eval", "arguments"] := by
  have identifier := (isVariable_variableName .javascript name).isIdentifier
  have bound : variableName .javascript name ∈ unbindable ↔
      ∃ word ∈ overlooked, Spells name word := by
    rw [variableName_eq, escaped_mem_unbindable_iff, plainVariable_mem_overlooked_iff]
  refine ⟨?_, by decide⟩
  rw [IsBindable, and_iff_right identifier, bound]
  simp only [not_exists, not_and]

/-- A property or a parameter that is called by one of the nine words, in any of its spellings,
has that word for its variable, so that it is the argument of a method. -/
theorem variables_reserved_in_modules :
    (∀ name ∈ ["package", "Package", "-package-", "PACKAGE"],
      variableName .javascript name = "package") ∧ ¬ IsBindable "package" ∧
    (∀ word ∈ overlooked, variableName .javascript word = word ∧ ¬ IsBindable word) ∧
    ∃ m, Emission.actionView .javascript [] { path := "/routes/\x7binterface\x7d" } = .ok m ∧
      m.arguments = ["interface"] := by
  refine ⟨by decide, by decide, by decide, _, rfl, by decide +kernel⟩

end ClientForge.Naming
