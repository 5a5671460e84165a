import ClientForge.Proofs.Imports
import ClientForge.Proofs.PathPieces
import ClientForge.Proofs.SourceLiteral
import ClientForge.Proofs.CodeText

/-!
# What a path expression evaluates to

A path expression is source text, so it is read back before it is evaluated. In one language
it is a sequence of literals and encoded variables with plus signs between them; in the other
it is a literal, or a format with the encoded variables behind it, where a doubled percent
sign stands for one and each directive takes the next argument. Whatever the encoding and the
values of the variables are, the expression of a path evaluates to the path with its
parameters filled in, a format has as many directives as arguments, and the variables are
those that the method takes for the parameters.
-/

namespace ClientForge.Emission

open ClientForge.Outcome ClientForge.Text ClientForge.Naming

variable {l : Language} {cs name rest : List Char} {opening : List Char}

/-! ## Reading -/

@[simp] theorem dropPrefix?_append (opening rest : List Char) :
    (opening ++ rest).dropPrefix? opening = some rest :=
  List.dropPrefix?_append_of_beq rest (beq_self_eq_true opening)

theorem length_dropPrefix? (h : cs.dropPrefix? opening = some rest) :
    rest.length ≤ cs.length := by
  obtain ⟨before, rfl, -⟩ := List.dropPrefix?_eq_some_iff.mp h
  simp

theorem toList_closing : ")".toList = [')'] := by simp

/-- The variable in a call that opens with some text, and what follows its parenthesis. -/
def readCall (opening cs : List Char) : Option (String × List Char) :=
  match cs.dropPrefix? opening with
  | none => none
  | some inside =>
    match inside.dropWhile (· ≠ ')') with
    | [] => none
    | _ :: rest => some (String.ofList (inside.takeWhile (· ≠ ')')), rest)

theorem length_readCall {r : String × List Char} (h : readCall opening cs = some r) :
    r.2.length < cs.length := by
  unfold readCall at h
  split at h
  · cases h
  next inside found =>
    have shorter := length_dropPrefix? found
    split at h
    · cases h
    next c rest ending =>
      obtain rfl := Option.some.inj h
      have inner := (List.dropWhile_sublist (l := inside) (· ≠ ')')).length_le
      rw [ending, List.length_cons] at inner
      dsimp only
      omega

theorem readCall_append {v : String} (word : IsWord v) (opening rest : List Char) :
    readCall opening (opening ++ (v.toList ++ ')' :: rest)) = some (v, rest) := by
  have inside : ∀ c ∈ v.toList, decide (c ≠ ')') = true := by
    intro c hc
    have other : ')' ∉ v.toList := word.notMem (by decide)
    exact decide_eq_true fun same => other (same ▸ hc)
  rw [readCall, dropPrefix?_append]
  dsimp only
  rw [List.dropWhile_append_of_pos inside, List.takeWhile_append_of_pos inside]
  simp

/-- A literal or an encoded variable, and what follows it. -/
def readPart (cs : List Char) : Option (PathPart × List Char) :=
  match Literal.read cs with
  | some (text, rest) => some (.literal (String.ofList text), rest)
  | none => (readCall "encodeURIComponent(".toList cs).map fun r => (.parameter r.1, r.2)

theorem length_readPart {r : PathPart × List Char} (h : readPart cs = some r) :
    r.2.length < cs.length := by
  unfold readPart at h
  split at h
  next text rest literal =>
    obtain rfl := Option.some.inj h
    exact Literal.length_read literal
  next =>
    obtain ⟨call, found, rfl⟩ := Option.map_eq_some_iff.mp h
    exact length_readCall found

/-- Literals and encoded variables with plus signs between them. -/
def readConcat (cs : List Char) : Option (List PathPart) :=
  match _h : readPart cs with
  | none => none
  | some (part, []) => some [part]
  | some (part, rest) =>
    match _more : rest.dropPrefix? " + ".toList with
    | none => none
    | some more => (readConcat more).map (part :: ·)
termination_by cs.length
decreasing_by
  have shorter := length_readPart _h
  have inner := length_dropPrefix? _more
  dsimp only at shorter
  omega

theorem readConcat_of_last {part : PathPart} (h : readPart cs = some (part, [])) :
    readConcat cs = some [part] := by
  rw [readConcat]
  split <;> simp_all

theorem readConcat_of_more {part : PathPart} {more : List Char}
    (h : readPart cs = some (part, " + ".toList ++ more)) :
    readConcat cs = (readConcat more).map (part :: ·) := by
  rw [readConcat]
  split
  next none_ =>
    rw [h] at none_
    cases none_
  next part_ found =>
    rw [h] at found
    exact absurd (congrArg List.length (Prod.mk.inj (Option.some.inj found)).2) (by simp)
  next part_ rest _ found =>
    rw [h] at found
    obtain ⟨rfl, rfl⟩ := Prod.mk.inj (Option.some.inj found)
    rw [dropPrefix?_append]

/-- Encoded variables behind a format, up to the parenthesis that ends the call. -/
def readArguments (cs : List Char) : Option (List String) :=
  if cs = [')'] then some []
  else
    match _h : readCall ", urlencode($".toList cs with
    | none => none
    | some (v, rest) => (readArguments rest).map (v :: ·)
termination_by cs.length
decreasing_by exact length_readCall _h

/-- A literal on its own, or a format with its arguments. -/
def readFormat (cs : List Char) : Option PathExpr :=
  match cs.dropPrefix? "sprintf(".toList with
  | none =>
    match Literal.read cs with
    | some (text, []) => some (.plain (String.ofList text))
    | _ => none
  | some inside =>
    match Literal.read inside with
    | some (text, rest) => (readArguments rest).map (.template (String.ofList text))
    | none => none

/-- The expression that a source text is, by the rules of a language. -/
def PathExpr.read : Language → List Char → Option PathExpr
  | .javascript, cs => (readConcat cs).map .concat
  | .php, cs => readFormat cs

/-- Whether the variable of a part, if it has one, is a word. -/
def PathPart.IsSound (part : PathPart) : Prop := ∀ v, part.variableName? = some v → IsWord v

theorem toList_source_parameter (v : String) (rest : List Char) :
    (PathPart.parameter v).source.toList ++ rest =
      "encodeURIComponent(".toList ++ (v.toList ++ ')' :: rest) := by
  unfold PathPart.source
  dsimp only
  rw [String.toList_append, String.toList_append, List.append_assoc, List.append_assoc,
    toList_closing, List.singleton_append]

theorem readPart_source {part : PathPart} (sound : part.IsSound) (rest : List Char) :
    readPart (part.source.toList ++ rest) = some (part, rest) := by
  cases part with
  | literal s =>
      have written : (PathPart.literal s).source = Literal.quote s := rfl
      unfold readPart
      rw [written, Literal.read_quote]
      dsimp only
      rw [String.ofList_toList]
  | parameter v =>
      have call : Literal.read ("encodeURIComponent(".toList ++ (v.toList ++ ')' :: rest)) = none :=
        Literal.read_eq_none (by simp)
      rw [toList_source_parameter]
      unfold readPart
      rw [call, readCall_append (sound v rfl)]
      rfl

theorem readConcat_source {parts : List PathPart} (some_ : parts ≠ [])
    (sound : ∀ part ∈ parts, part.IsSound) :
    readConcat (" + ".intercalate (parts.map (·.source))).toList = some parts := by
  induction parts with
  | nil => exact absurd rfl some_
  | cons part more ih =>
      have first := readPart_source (sound part List.mem_cons_self)
      cases more with
      | nil =>
          rw [List.map_singleton, String.intercalate_singleton]
          exact readConcat_of_last (by simpa using first [])
      | cons next more =>
          have others := ih (List.cons_ne_nil _ _) fun p hp => sound p (List.mem_cons_of_mem _ hp)
          rw [List.map_cons, List.map_cons, String.intercalate_cons_cons, ← List.map_cons,
            String.toList_append, String.toList_append, List.append_assoc,
            readConcat_of_more (first _), others]
          rfl

theorem readArguments_call {v : String} (word : IsWord v) (rest : List Char) :
    readArguments (", urlencode($".toList ++ (v.toList ++ ')' :: rest)) =
      (readArguments rest).map (v :: ·) := by
  have call := readCall_append word ", urlencode($".toList rest
  rw [readArguments]
  split
  next short => exact absurd (congrArg List.length short) (by simp)
  · split
    next none_ =>
      rw [call] at none_
      cases none_
    next found =>
      rw [call] at found
      obtain ⟨rfl, rfl⟩ := Prod.mk.inj (Option.some.inj found)
      rfl

/-- The arguments of a format are read up to the end of the call. -/
theorem readArguments_source {arguments : List String} (some_ : arguments ≠ [])
    (words : ∀ v ∈ arguments, IsWord v) :
    readArguments (", ".toList ++
      ((", ".intercalate (arguments.map fun v => "urlencode($" ++ v ++ ")")).toList ++ [')'])) =
        some arguments := by
  have opening : ", ".toList ++ "urlencode($".toList = ", urlencode($".toList := by simp
  induction arguments with
  | nil => exact absurd rfl some_
  | cons v more ih =>
      have word := words v List.mem_cons_self
      cases more with
      | nil =>
          rw [List.map_singleton, String.intercalate_singleton, String.toList_append,
            String.toList_append, toList_closing]
          simp only [List.append_assoc, List.singleton_append]
          rw [← List.append_assoc, opening, readArguments_call word, readArguments, if_pos rfl]
          rfl
      | cons next more =>
          have others := ih (List.cons_ne_nil _ _) fun w hw => words w (List.mem_cons_of_mem _ hw)
          rw [List.map_cons] at others
          rw [List.map_cons, List.map_cons, String.intercalate_cons_cons, String.toList_append]
          generalize (", ".intercalate _).toList = calls at others ⊢
          simp only [String.toList_append, toList_closing, List.append_assoc, List.cons_append,
            List.nil_append]
          rw [← List.append_assoc, opening, readArguments_call word, others]
          rfl

theorem readFormat_plain (s : String) :
    readFormat (PathExpr.plain s).source.toList = some (.plain s) := by
  have other : (Literal.quote s).toList.dropPrefix? "sprintf(".toList = none := by
    rw [Option.eq_none_iff_forall_ne_some]
    intro rest h
    obtain ⟨before, whole, same⟩ := List.dropPrefix?_eq_some_iff.mp h
    rw [eq_of_beq same] at whole
    have first := congrArg List.head? whole
    simp [Literal.quote, Literal.write] at first
  have literal := Literal.read_quote s []
  rw [List.append_nil] at literal
  have written : (PathExpr.plain s).source = Literal.quote s := rfl
  unfold readFormat
  rw [written, other]
  dsimp only
  rw [literal]
  dsimp only
  rw [String.ofList_toList]

theorem readFormat_template (s : String) {arguments : List String} (some_ : arguments ≠ [])
    (words : ∀ v ∈ arguments, IsWord v) :
    readFormat (PathExpr.template s arguments).source.toList = some (.template s arguments) := by
  have inside := readArguments_source some_ words
  unfold readFormat PathExpr.source
  dsimp only
  simp only [String.toList_append, List.append_assoc, dropPrefix?_append, toList_closing,
    Literal.read_quote, inside]
  rw [String.ofList_toList]
  rfl

theorem isSound_of_mem_pathParts {path : String} {part : PathPart}
    (h : part ∈ pathParts l path) : part.IsSound := fun _ => isWord_of_mem_pathParts h

theorem pathParts_ne_nil (l : Language) (path : String) : pathParts l path ≠ [] := by
  unfold pathParts
  split
  · exact List.cons_ne_nil _ _
  next some_ => exact fun none_ => some_ (List.map_eq_nil_iff.mp none_)

/-- The expression of a path is read as what it was written from. -/
theorem read_source_pathExpr (l : Language) (path : String) :
    PathExpr.read l (pathExpr l (pathParts l path)).source.toList =
      some (pathExpr l (pathParts l path)) := by
  cases l with
  | javascript =>
      unfold PathExpr.read pathExpr PathExpr.source
      dsimp only
      rw [readConcat_source (pathParts_ne_nil _ _) fun _ => isSound_of_mem_pathParts]
      rfl
  | php =>
      unfold PathExpr.read pathExpr
      dsimp only
      split
      · exact readFormat_plain _
      next some_ =>
        refine readFormat_template _ (by simpa using some_) fun v hv => ?_
        obtain ⟨part, hp, named⟩ := List.mem_filterMap.mp hv
        exact isWord_of_mem_pathParts hp named

/-! ## Evaluation -/

/-- The text of a part. -/
def PathPart.value (encode assigned : String → String) : PathPart → List Char
  | .literal s => s.toList
  | .parameter v => (encode (assigned v)).toList

/-- A format with its directives filled by arguments from left to right; a percent sign that
is not doubled must open a directive, and there must be an argument for it. -/
def format : List Char → List (List Char) → Option (List Char)
  | [], _ => some []
  | '%' :: '%' :: rest, arguments => (format rest arguments).map ('%' :: ·)
  | '%' :: 's' :: rest, argument :: arguments => (format rest arguments).map (argument ++ ·)
  | '%' :: _, _ => none
  | c :: rest, arguments => (format rest arguments).map (c :: ·)

/-- The number of directives of a format. -/
def directives : List Char → Nat
  | [] => 0
  | '%' :: '%' :: rest => directives rest
  | '%' :: 's' :: rest => directives rest + 1
  | _ :: rest => directives rest

namespace PathExpr

/-- The text that an expression evaluates to, if it does. -/
def value? (encode assigned : String → String) : PathExpr → Option (List Char)
  | concat parts => some (parts.flatMap (·.value encode assigned))
  | plain s => some s.toList
  | template s arguments => format s.toList (arguments.map fun v => (encode (assigned v)).toList)

/-- The variables that an expression uses, from left to right. -/
def uses : PathExpr → List String
  | concat parts => parts.filterMap (·.variableName?)
  | plain _ => []
  | template _ arguments => arguments

/-- Whether an expression has as many directives as arguments. -/
def IsBalanced : PathExpr → Prop
  | template s arguments => directives s.toList = arguments.length
  | _ => True

end PathExpr

/-- Literal text of a format is doubled where a percent sign stands, and so kept. -/
theorem format_inTemplate (s : String) (rest : List Char) (arguments : List (List Char)) :
    format ((PathPart.literal s).inTemplate ++ rest) arguments =
      (format rest arguments).map (s.toList ++ ·) := by
  unfold PathPart.inTemplate
  dsimp only
  induction s.toList with
  | nil => simp
  | cons c cs ih =>
      rw [List.flatMap_cons, List.append_assoc]
      by_cases percent : c = '%'
      · subst percent
        rw [if_pos rfl]
        simp only [List.cons_append, List.nil_append, format]
        rw [ih, Option.map_map]
        rfl
      · rw [if_neg percent, List.singleton_append]
        have step (tail : List Char) :
            format (c :: tail) arguments = (format tail arguments).map (c :: ·) := by
          simp [format, percent]
        rw [step, ih, Option.map_map]
        rfl

theorem directives_inTemplate (s : String) (rest : List Char) :
    directives ((PathPart.literal s).inTemplate ++ rest) = directives rest := by
  unfold PathPart.inTemplate
  dsimp only
  induction s.toList with
  | nil => rfl
  | cons c cs ih =>
      rw [List.flatMap_cons, List.append_assoc]
      by_cases percent : c = '%'
      · subst percent
        exact ih
      · rw [if_neg percent, List.singleton_append]
        have step (tail : List Char) : directives (c :: tail) = directives tail := by
          simp [directives, percent]
        rw [step, ih]

section Parts

variable (encode assigned : String → String) (parts : List PathPart)

@[simp] theorem filterMap_variableName?_literal (s : String) :
    (PathPart.literal s :: parts).filterMap (·.variableName?) =
      parts.filterMap (·.variableName?) := rfl

@[simp] theorem filterMap_variableName?_parameter (v : String) :
    (PathPart.parameter v :: parts).filterMap (·.variableName?) =
      v :: parts.filterMap (·.variableName?) := rfl

/-- The format of some parts, filled with their variables, is what the parts are. -/
theorem format_parts :
    format (parts.flatMap (·.inTemplate))
        ((parts.filterMap (·.variableName?)).map fun v => (encode (assigned v)).toList) =
      some (parts.flatMap (·.value encode assigned)) := by
  induction parts with
  | nil => rfl
  | cons part more ih =>
      rw [List.flatMap_cons, List.flatMap_cons]
      cases part with
      | literal s =>
          rw [filterMap_variableName?_literal, format_inTemplate, ih]
          rfl
      | parameter v =>
          have directive (rest : List Char) :
              (PathPart.parameter v).inTemplate ++ rest = '%' :: 's' :: rest := rfl
          rw [filterMap_variableName?_parameter, List.map_cons, directive, format, ih]
          rfl

theorem directives_parts :
    directives (parts.flatMap (·.inTemplate)) = (parts.filterMap (·.variableName?)).length := by
  induction parts with
  | nil => rfl
  | cons part more ih =>
      rw [List.flatMap_cons]
      cases part with
      | literal s => rw [filterMap_variableName?_literal, directives_inTemplate, ih]
      | parameter v =>
          rw [filterMap_variableName?_parameter, List.length_cons, ← ih]
          rfl

/-- Parts without a variable are their texts. -/
theorem toList_join_literalText (none_ : parts.filterMap (·.variableName?) = []) :
    (String.join (parts.map (·.literalText))).toList =
      parts.flatMap (·.value encode assigned) := by
  rw [String.toList_join, List.flatMap_map]
  refine List.flatMap_congr fun part hp => ?_
  cases part with
  | literal s => rfl
  | parameter v =>
      exact absurd (List.filterMap_eq_nil_iff.mp none_ _ hp) (Option.some_ne_none v)

variable (l : Language)

theorem value?_pathExpr :
    (pathExpr l parts).value? encode assigned = some (parts.flatMap (·.value encode assigned)) := by
  unfold pathExpr
  split
  · rfl
  · dsimp only
    split
    next none_ =>
      exact congrArg some (toList_join_literalText _ _ _ (List.isEmpty_iff.mp none_))
    next =>
      rw [PathExpr.value?, String.toList_ofList, format_parts]

theorem uses_pathExpr : (pathExpr l parts).uses = parts.filterMap (·.variableName?) := by
  unfold pathExpr
  split
  · rfl
  · dsimp only
    split
    next none_ => exact (List.isEmpty_iff.mp none_).symm
    next => rfl

theorem isBalanced_pathExpr : (pathExpr l parts).IsBalanced := by
  unfold pathExpr
  split
  · trivial
  · dsimp only
    split
    · trivial
    · rw [PathExpr.IsBalanced, String.toList_ofList, directives_parts]

end Parts

/-- The parts of a path are its pieces, with a variable for each parameter. -/
theorem flatMap_value_pathParts (encode assigned : String → String) (path : String) :
    (pathParts l path).flatMap (·.value encode assigned) =
      (pathPieces (relativePath path)).flatMap (·.filled fun name =>
        (encode (assigned (variableName l (String.ofList name)))).toList) := by
  unfold pathParts
  split
  next none_ =>
    rw [none_]
    rfl
  next =>
    rw [List.flatMap_map]
    refine List.flatMap_congr fun piece _ => ?_
    cases piece with
    | text cs => simp [PathPart.ofPiece, PathPart.value, PathPiece.filled]
    | parameter name => rfl

theorem filterMap_variableName?_pathParts (path : String) :
    (pathParts l path).filterMap (·.variableName?) =
      ((pathPieces path.toList).filterMap (·.parameter?)).map (variableName l) := by
  rw [← parameters_relativePath]
  unfold pathParts
  split
  next none_ =>
    rw [none_]
    rfl
  next =>
    rw [List.filterMap_map, List.map_filterMap]
    refine List.filterMap_congr fun piece _ => ?_
    cases piece <;> rfl

/-! ## The expression of an action -/

/-- A method has the expression of its action's path, and its parameters are its arguments. -/
theorem pathExpr_of_actionView {index : Index} {a : Action} {m : MethodView}
    (h : actionView l index a = .ok m) :
    m.pathExpr = pathExpr l (pathParts l a.path) ∧
      m.parameters = a.pathParameters.map (variableName l) := by
  have view := isActionView h
  exact ⟨view.pathExpr, view.parameters⟩

/-- The source of an action's path is an expression, and evaluating it fills the parameters of
the path with the encoded values of their variables. It has an argument for each directive, and
a method takes the variables that it uses in front of its body. -/
theorem path_source_evaluates (l : Language) (a : Action) (encode assigned : String → String) :
    ∃ e out, PathExpr.read l (pathExpr l (pathParts l a.path)).source.toList = some e ∧
      e.value? encode assigned = some out ∧
      (∀ text, Filled (fun name =>
          (encode (assigned (variableName l (String.ofList name)))).toList)
        (relativePath a.path) text ↔ text = out) ∧
      e.IsBalanced ∧ e.uses = a.pathParameters.map (variableName l) ∧
      ∀ index m, actionView l index a = .ok m →
        m.pathExpr = pathExpr l (pathParts l a.path) ∧
        m.arguments = e.uses ++ m.body.toList.map (·.variableName) := by
  have variables_ : (pathExpr l (pathParts l a.path)).uses =
      a.pathParameters.map (variableName l) := by
    rw [uses_pathExpr, filterMap_variableName?_pathParts]
    rfl
  refine ⟨_, _, read_source_pathExpr l a.path, value?_pathExpr encode assigned _ l, fun text => ?_,
    isBalanced_pathExpr _ l, variables_, fun index m viewed => ?_⟩
  · rw [flatMap_value_pathParts, filled_iff]
  · obtain ⟨same, parameters⟩ := pathExpr_of_actionView viewed
    rw [MethodView.arguments, parameters, variables_]
    exact ⟨same, rfl⟩

example :
    PathExpr.read .php (pathExpr .php (pathParts .php "/files/\x7bid\x7d/50%")).source.toList =
      some (.template "files/%s/50%%" ["id"]) := by
  decide +kernel

end ClientForge.Emission
