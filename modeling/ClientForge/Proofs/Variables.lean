import ClientForge.Proofs.Arguments
import ClientForge.Proofs.Identifier

/-!
# Variables

Whatever a parameter, a property or a type is called, its variable starts with a small letter and
goes on with letters and digits, and the language leaves it free. A name without words has a
variable of its own, a digit in front is hidden behind a word, and a word that is not free is
made longer. A body that gives way to a parameter is made longer too, by a word in which no
reserved one ends. So no argument of a method is called as what the method binds itself.
-/

namespace ClientForge

namespace Naming

open ClientForge.Text

variable {l : Language} {name plain : String} {c : Char}

/-- What a method binds besides its arguments: the request that it makes, the data of the
response, and the object that it belongs to. -/
def methodLocals : List String := ["request", "data", "this"]

/-- Whether a name may be that of a variable: a small letter, letters and digits behind it, and
none of the words that may not name one. -/
structure IsVariable (l : Language) (name : String) : Prop where
  starts : name.toList.head?.any isAsciiLower = true
  word : IsWord name
  free : name ∉ reservedWords l

theorem IsVariable.notMem_methodLocals (h : IsVariable l name) : name ∉ methodLocals := by
  have reserved : ∀ word ∈ methodLocals, word ∈ reservedWords l := by
    cases l <;> decide
  exact fun known => h.free (reserved name known)

/-- A variable is an identifier of both languages. -/
theorem IsVariable.isIdentifier (h : IsVariable l name) : IsIdentifier name := by
  rw [isIdentifier_iff_of_isWord h.word]
  obtain ⟨c, first, lower⟩ := (Option.any_eq_true _ _).mp h.starts
  simp [first, isAsciiLetter, lower]

/-! ## The first character -/

/-- A letter or digit that is made small is a small letter, or it is a digit. -/
theorem isAsciiLower_small_of_isWordChar (word : isWordChar c = true)
    (noDigit : isAsciiDigit (small c) = false) : isAsciiLower (small c) = true := by
  cases upper : isAsciiUpper c with
  | true => exact isAsciiLower_small upper
  | false =>
      have same : small c = c := small_eq_self upper
      rw [same] at noDigit ⊢
      simpa [isWordChar, isAsciiLetter, upper, noDigit] using word

/-- Where no digit is in front of a variable, a small letter is. -/
theorem starts_plainVariable (name : String)
    (noDigit : (plainVariable name).toList.head?.any isAsciiDigit = false) :
    (plainVariable name).toList.head?.any isAsciiLower = true := by
  unfold plainVariable orName at noDigit ⊢
  split
  next => decide
  next some_ =>
    rw [if_neg some_, head?_camel, Option.any_map] at noDigit
    rw [head?_camel, Option.any_map]
    cases first : leading? name with
    | none =>
        have empty : (camel name).toList.head? = none := by rw [head?_camel, first, Option.map_none]
        rw [List.head?_eq_none_iff, String.toList_eq_nil_iff] at empty
        exact absurd (beq_iff_eq.mpr empty) some_
    | some c =>
        rw [first] at noDigit
        exact isAsciiLower_small_of_isWordChar (List.find?_some first) noDigit

/-! ## Variables of names -/

/-- What escaping leaves alone neither leads with a digit nor is reserved. -/
theorem free_of_escaped (fixed : escaped l plain = plain) :
    plain.toList.head?.any isAsciiDigit = false ∧ plain ∉ reservedWords l := by
  have longer : "value" ++ plain ≠ plain := by simp
  have longer' : plain ++ "Value" ≠ plain := by simp
  unfold escaped at fixed
  split at fixed
  next => exact absurd fixed longer
  next noDigit =>
    split at fixed
    next => exact absurd fixed longer'
    next free =>
      exact ⟨by simpa using noDigit, fun known => free (List.contains_iff_mem.mpr known)⟩

theorem isVariable_variableName (l : Language) (name : String) :
    IsVariable l (variableName l name) := by
  have fixed : escaped l (variableName l name) = variableName l name := by
    rw [variableName_eq, escaped_escaped]
  obtain ⟨noDigit, free⟩ := free_of_escaped fixed
  refine ⟨?_, isWord_variableName l name, free⟩
  rw [variableName_eq] at noDigit ⊢
  rcases escaped_cases l (plainVariable name) with same | ⟨-, same⟩ | ⟨reserved, same⟩
  · rw [same] at noDigit ⊢
    exact starts_plainVariable name noDigit
  · rw [same, String.toList_append]
    rfl
  · have starts : ∀ word ∈ reservedWords l,
        (word ++ "Value").toList.head?.any isAsciiLower = true := by
      cases l <;> decide
    rw [same]
    exact starts _ reserved

/-- A variable that gives way to another one stays a variable. -/
theorem IsVariable.append_body (h : IsVariable l name) : IsVariable l (name ++ "Body") := by
  refine ⟨?_, h.word.append (by decide), fun reserved => ?_⟩
  · obtain ⟨c, first, lower⟩ := (Option.any_eq_true _ _).mp h.starts
    rw [String.toList_append, List.head?_append, first]
    exact lower
  · have other : ∀ word ∈ reservedWords l, ¬ "Body".toList <:+ word.toList := by
      cases l <;> decide
    refine other _ reserved ?_
    rw [String.toList_append]
    exact List.suffix_append _ _

end Naming

namespace Emission

open ClientForge.Naming

variable {l : Language} {index : Index} {a : Action} {m : MethodView}

theorem isVariable_bodyVariable (l : Language) (parameters : List String) (r : Reference) :
    IsVariable l (bodyVariable l parameters r) := by
  have wish : IsVariable l (bodyWish l r) := by
    unfold bodyWish
    split
    · exact isVariable_variableName l r.name
    · cases l <;> exact ⟨by decide, by decide, by decide⟩
  unfold bodyVariable
  split
  · exact wish.append_body
  · exact wish

/-- An action with a body has a method with one, under a variable of its own. -/
theorem exists_body_of_actionView (viewed : actionView l index a = .ok m) :
    ∀ r ∈ a.requestType, ∃ b ∈ m.body, IsVariable l b.variableName := by
  intro r asked
  have request := variableName_of_requestView (isActionView viewed).request
  have asked_ : a.requestType = some r := asked
  rw [asked_, Option.toList_some, List.map_singleton] at request
  cases body : m.body with
  | none => simp [body] at request
  | some b =>
      rw [body, Option.toList_some, List.map_singleton, List.singleton_inj] at request
      exact ⟨b, rfl, request ▸ isVariable_bodyVariable l _ r⟩

/-- The variable of every name, whatever the name is, is a small letter with letters and digits
behind it and no reserved word, and so are all arguments of a method, that of a body of any type
among them. No such variable is called as what a method binds itself. -/
theorem arguments_areVariables (l : Language) :
    (∀ name, IsVariable l (variableName l name)) ∧
      (∀ index a m, actionView l index a = .ok m →
        (∀ v ∈ m.arguments, IsVariable l v) ∧
          ∀ r ∈ a.requestType, ∃ b ∈ m.body, IsVariable l b.variableName) ∧
      ∀ name, IsVariable l name → name ∉ methodLocals := by
  refine ⟨isVariable_variableName l, fun index a m viewed => ⟨fun v hv => ?_, ?_⟩,
    fun _ h => h.notMem_methodLocals⟩
  · rw [arguments_of_actionView viewed, List.mem_append] at hv
    rcases hv with hv | hv
    · obtain ⟨name, -, rfl⟩ := List.mem_map.mp hv
      exact isVariable_variableName l name
    · obtain ⟨r, -, rfl⟩ := List.mem_map.mp hv
      exact isVariable_bodyVariable l _ r
  · exact exists_body_of_actionView viewed

/-- A parameter and a type are called as a variable of the method itself: the parameter is told
apart from that variable, and the body from both. -/
theorem data_gives_way : ∃ m,
    actionView .php [{ name := "Data" }]
      { method := .put, path := "/stores/\x7bdata\x7d",
        requestType := some (.named "Data") } = .ok m ∧
    m.arguments = ["dataValue", "dataValueBody"] ∧
    (∀ v ∈ m.arguments, IsVariable .php v) ∧
    (∃ b ∈ m.body, IsVariable .php b.variableName) ∧
    "dataValueBody" ∉ methodLocals := by
  obtain ⟨-, each, apart⟩ := arguments_areVariables .php
  obtain ⟨m, viewed⟩ : ∃ m, actionView .php [{ name := "Data" }]
      { method := .put, path := "/stores/\x7bdata\x7d",
        requestType := some (.named "Data") } = .ok m := ⟨_, rfl⟩
  have arguments : m.arguments = ["dataValue", "dataValueBody"] :=
    (arguments_of_actionView viewed).trans (by decide +kernel)
  obtain ⟨all, body⟩ := each _ _ m viewed
  have last : "dataValueBody" ∈ m.arguments := arguments ▸ .tail _ (.head _)
  exact ⟨m, viewed, arguments, all, body _ rfl, apart _ (all _ last)⟩

end Emission

end ClientForge
