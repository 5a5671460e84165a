import ClientForge.Proofs.Emitted
import ClientForge.Proofs.PathExpression

/-!
# Arguments

A method takes a variable for each parameter of its path, in the order of the path, and then
one for its body. A path may name a parameter twice, and two names may have one variable: they
are the same but for their case and what separates their words, or one of them is the escaped
form of the other, as `classValue` is of `class`. Nothing tells parameters apart. A body gives
way to a parameter that has its variable, but only once. So the arguments of a method are
distinct exactly if no two parameters coincide and the name that a body gives way to is free.
-/

namespace ClientForge

namespace Naming

open ClientForge.Text

variable {l : Language} {plain other name more : String}

/-! ## Variables -/

/-- The variable of a name before the words that may not name one are escaped. -/
def plainVariable (name : String) : String := orName (camel name) "value"

/-- A plain variable, or its escaped form if it may not name one. -/
def escaped (l : Language) (plain : String) : String :=
  if plain.toList.head?.any isAsciiDigit then "value" ++ plain
  else if (reservedWords l).contains plain then plain ++ "Value"
  else plain

theorem variableName_eq (l : Language) (name : String) :
    variableName l name = escaped l (plainVariable name) := rfl

/-- The three forms of a variable. -/
theorem escaped_cases (l : Language) (plain : String) :
    escaped l plain = plain ∨
      plain.toList.head?.any isAsciiDigit = true ∧ escaped l plain = "value" ++ plain ∨
      plain ∈ reservedWords l ∧ escaped l plain = plain ++ "Value" := by
  unfold escaped
  split
  next digit => exact .inr (.inl ⟨digit, rfl⟩)
  next =>
    split
    next reserved => exact .inr (.inr ⟨List.contains_iff_mem.mp reserved, rfl⟩)
    next => exact .inl rfl

/-- No reserved word looks like an escaped digit. -/
theorem not_prefix_of_mem_reservedWords :
    ∀ word ∈ reservedWords l, ¬ "value".toList <+: (word ++ "Value").toList := by
  cases l <;> decide +revert

/-- An escaped word may name a variable. -/
theorem escaped_of_mem_reservedWords :
    ∀ word ∈ reservedWords l, escaped l (word ++ "Value") = word ++ "Value" := by
  cases l <;> decide +revert

theorem escaped_value (l : Language) (plain : String) :
    escaped l ("value" ++ plain) = "value" ++ plain := by
  have start : ("value" ++ plain).toList.head?.any isAsciiDigit = false := by
    rw [String.toList_append]
    rfl
  have free : (reservedWords l).contains ("value" ++ plain) = false := by
    rw [Bool.eq_false_iff, Ne, List.contains_iff_mem]
    intro reserved
    refine not_prefix_of_mem_reservedWords _ reserved ?_
    rw [String.append_assoc, String.toList_append]
    exact List.prefix_append _ _
  unfold escaped
  rw [start, free]
  rfl

@[simp] theorem escaped_escaped (l : Language) (plain : String) :
    escaped l (escaped l plain) = escaped l plain := by
  rcases escaped_cases l plain with same | ⟨-, same⟩ | ⟨reserved, same⟩
  · rw [same, same]
  · rw [same, escaped_value]
  · rw [same, escaped_of_mem_reservedWords plain reserved]

/-- Two plain variables are the same when escaped if they are the same, or if one of them is
the escaped form of the other. -/
theorem escaped_eq_iff : escaped l plain = escaped l other ↔
    plain = other ∨ escaped l plain = other ∨ plain = escaped l other := by
  constructor
  · intro same
    rcases escaped_cases l plain with first | ⟨-, first⟩ | ⟨reserved, first⟩
    · exact .inr (.inr (first ▸ same))
    · rcases escaped_cases l other with second | ⟨-, second⟩ | ⟨reserved, second⟩
      · exact .inr (.inl (same.trans second))
      · rw [first, second] at same
        exact .inl ((String.append_right_inj _).mp same)
      · rw [first, second] at same
        refine absurd ?_ (not_prefix_of_mem_reservedWords other reserved)
        rw [← same, String.toList_append]
        exact List.prefix_append _ _
    · rcases escaped_cases l other with second | ⟨-, second⟩ | ⟨-, second⟩
      · exact .inr (.inl (same.trans second))
      · rw [first, second] at same
        refine absurd ?_ (not_prefix_of_mem_reservedWords plain reserved)
        rw [same, String.toList_append]
        exact List.prefix_append _ _
      · rw [first, second] at same
        exact .inl ((String.append_left_inj _).mp same)
  · rintro (rfl | rfl | rfl)
    · rfl
    · rw [escaped_escaped]
    · rw [escaped_escaped]

/-- Two names coincide as variables: their plain variables are the same, or one of them is the
escaped form of the other. -/
def Coincide (l : Language) (name more : String) : Prop :=
  plainVariable name = plainVariable more ∨
    escaped l (plainVariable name) = plainVariable more ∨
    plainVariable name = escaped l (plainVariable more)

instance : Decidable (Coincide l name more) := inferInstanceAs (Decidable (_ ∨ _ ∨ _))

theorem variableName_eq_iff :
    variableName l name = variableName l more ↔ Coincide l name more := by
  rw [variableName_eq, variableName_eq]
  exact escaped_eq_iff

end Naming

namespace Emission

open ClientForge.Outcome ClientForge.Naming

variable {l : Language} {index : Index} {a : Action} {m : MethodView}

/-! ## Arguments of a method -/

/-- The variable that a body takes if no parameter has it. -/
def bodyWish (l : Language) (r : Reference) : String :=
  if r.kind = .type then variableName l r.name else "payload"

/-- The variable of a body beside some parameters. -/
def bodyVariable (l : Language) (parameters : List String) (r : Reference) : String :=
  if parameters.contains (bodyWish l r) then bodyWish l r ++ "Body" else bodyWish l r

theorem variableName_of_bodyView {parameters : List String} {r : Reference} {b : BodyView}
    (h : bodyView l index parameters r = .ok b) :
    b.variableName = bodyVariable l parameters r := by
  obtain ⟨doc, -, h⟩ := bind_eq_ok.mp h
  obtain ⟨c, -, h⟩ := bind_eq_ok.mp h
  obtain rfl := Except.ok.inj h
  rfl

theorem variableName_of_requestView {body : Option BodyView}
    (h : requestView l index a = .ok body) :
    body.toList.map (·.variableName) =
      a.requestType.toList.map (bodyVariable l (a.pathParameters.map (variableName l))) := by
  unfold requestView at h
  cases asked : a.requestType with
  | none =>
      rw [asked] at h
      obtain rfl := Except.ok.inj h
      rfl
  | some r =>
      rw [asked] at h
      cases viewed : bodyView l index (a.pathParameters.map (variableName l)) r with
      | error f => simp [viewed, Except.map] at h
      | ok b =>
          simp only [viewed, Except.map, Except.ok.injEq] at h
          rw [← h, Option.toList_some, Option.toList_some, List.map_singleton,
            List.map_singleton, variableName_of_bodyView viewed]

theorem arguments_of_actionView (h : actionView l index a = .ok m) :
    m.arguments = a.pathParameters.map (variableName l) ++
      a.requestType.toList.map (bodyVariable l (a.pathParameters.map (variableName l))) := by
  have view := isActionView h
  rw [MethodView.arguments, view.parameters, variableName_of_requestView view.request]

/-- The arguments of an action are told apart by its own names: no two parameters of the path
coincide, and if a parameter has the variable of the body, then none has the one that the body
takes instead. -/
structure ArgumentsApart (l : Language) (a : Action) : Prop where
  parameters : a.pathParameters.Pairwise fun name more => ¬ Coincide l name more
  body : ∀ r ∈ a.requestType, (∃ name ∈ a.pathParameters, variableName l name = bodyWish l r) →
    ∀ name ∈ a.pathParameters, variableName l name ≠ bodyWish l r ++ "Body"

theorem bodyVariable_notMem_iff {parameters : List String} {r : Reference} :
    bodyVariable l parameters r ∉ parameters ↔
      (bodyWish l r ∈ parameters → bodyWish l r ++ "Body" ∉ parameters) := by
  unfold bodyVariable
  split
  next taken => simp [List.contains_iff_mem.mp taken]
  next free => simp [mt List.contains_iff_mem.mpr free]

theorem nodup_parameters_iff : (a.pathParameters.map (variableName l)).Nodup ↔
    a.pathParameters.Pairwise fun name more => ¬ Coincide l name more := by
  simp only [List.Nodup, List.pairwise_map, Ne, variableName_eq_iff]

/-- A method's arguments are distinct exactly if its action tells them apart. -/
theorem arguments_nodup_iff (h : actionView l index a = .ok m) :
    m.arguments.Nodup ↔ ArgumentsApart l a := by
  rw [arguments_of_actionView h]
  cases asked : a.requestType with
  | none =>
      rw [Option.toList_none, List.map_nil, List.append_nil, nodup_parameters_iff]
      exact ⟨fun apart => ⟨apart, by simp [asked]⟩, (·.parameters)⟩
  | some r =>
      rw [Option.toList_some, List.map_singleton, List.nodup_append_comm, List.singleton_append,
        List.nodup_cons, bodyVariable_notMem_iff, nodup_parameters_iff, and_comm]
      have body : (bodyWish l r ∈ a.pathParameters.map (variableName l) →
          bodyWish l r ++ "Body" ∉ a.pathParameters.map (variableName l)) ↔
          ∀ q ∈ a.requestType, (∃ name ∈ a.pathParameters, variableName l name = bodyWish l q) →
            ∀ name ∈ a.pathParameters, variableName l name ≠ bodyWish l q ++ "Body" := by
        simp [asked]
      rw [body]
      exact ⟨fun h => ⟨h.1, h.2⟩, fun h => ⟨h.parameters, h.body⟩⟩

instance : Decidable (ArgumentsApart l a) :=
  decidable_of_iff
    ((a.pathParameters.Pairwise fun name more => ¬ Coincide l name more) ∧
      ∀ r ∈ a.requestType, (∃ name ∈ a.pathParameters, variableName l name = bodyWish l r) →
        ∀ name ∈ a.pathParameters, variableName l name ≠ bodyWish l r ++ "Body")
    ⟨fun h => ⟨h.1, h.2⟩, fun h => ⟨h.parameters, h.body⟩⟩

/-- Each method of a tree takes distinct arguments exactly if the action that it calls tells
them apart. -/
theorem render_arguments_nodup_iff {e : Emitter} {definitions : List Definition}
    {actions : List Action} {tree : Tree} (rendered : render e definitions actions = .ok tree) :
    ∃ order, order.Perm actions ∧
      List.Forall₂ (fun a m => Calls e.language definitions a m ∧
        (m.arguments.Nodup ↔ ArgumentsApart e.language a)) order
        (tree.flatMap (·.2.methods)) := by
  obtain ⟨order, perm, calls⟩ := exists_order_of_render rendered
  refine ⟨order, perm, calls.imp fun a m call => ⟨call, ?_⟩⟩
  obtain ⟨w, viewed, renamed⟩ := call
  have same : m.arguments = w.arguments := by
    rw [renamed]
    rfl
  rw [same]
  exact arguments_nodup_iff viewed

/-- A body gives way to the parameter of a path that is called as its type is. -/
theorem body_beside_parameter : ∃ tree,
    render ⟨⟨.javascript, .str "", .str "bank", .null⟩, .str "common", .str "", .str "1", true⟩
      [{ name := "Transfer" }]
      [{ method := .put, path := "/transfers/\x7btransfer\x7d",
         requestType := some (.named "Transfer") }] = .ok tree ∧
    (∃ order, order.Perm
        [{ method := .put, path := "/transfers/\x7btransfer\x7d",
           requestType := some (.named "Transfer") }] ∧
      List.Forall₂ (fun a m => Calls .javascript [{ name := "Transfer" }] a m ∧
        (m.arguments.Nodup ↔ ArgumentsApart .javascript a)) order
        (tree.flatMap (·.2.methods))) ∧
    (tree.flatMap (·.2.methods)).map (·.arguments) = [["transfer", "transferBody"]] := by
  have rendered : render
      ⟨⟨.javascript, .str "", .str "bank", .null⟩, .str "common", .str "", .str "1", true⟩
      [{ name := "Transfer" }]
      [{ method := .put, path := "/transfers/\x7btransfer\x7d",
         requestType := some (.named "Transfer") }] = .ok _ := rfl
  exact ⟨_, rendered, render_arguments_nodup_iff rendered, by decide +kernel⟩

/-- A method takes one argument twice where its path repeats a parameter, where two parameters
differ in the style of their names only, and where a body gives way to a name that is taken
too. -/
theorem arguments_repeated :
    (∃ m, actionView .javascript [] { path := "/users/\x7bid\x7d/friends/\x7bid\x7d" } = .ok m ∧
      m.arguments = ["id", "id"]) ∧
    (∃ m, actionView .php []
        { path := "/users/\x7buser_id\x7d/friends/\x7buserId\x7d" } = .ok m ∧
      m.arguments = ["userId", "userId"]) ∧
    ∃ m, actionView .php [{ name := "Transfer" }]
        { path := "/\x7btransfer\x7d/\x7btransferBody\x7d",
          requestType := some (.named "Transfer") } = .ok m ∧
      m.arguments = ["transfer", "transferBody", "transferBody"] :=
  ⟨⟨_, rfl, by decide +kernel⟩, ⟨_, rfl, by decide +kernel⟩, ⟨_, rfl, by decide +kernel⟩⟩

end Emission

end ClientForge
