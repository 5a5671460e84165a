import ClientForge.Proofs.ClassName
import ClientForge.Proofs.DocComment

/-!
# Requests of a client

A method of a client sends one request. Wherever a line of a file opens the call that makes a
request, the name of the method is read off the declaration above it, the verb and the path off
the comment above the declaration, and the operands off the lines below. So what a client
declares and what it sends can be told from its lines alone: next to its constructor it has one
method for each action that it is given, in order, and no other file of a tree sends anything.
-/

namespace ClientForge.Emission

open ClientForge.Naming ClientForge.Outcome

/-- A request that a method sends: the method, the verb and the path that its comment names,
and the verb and the path that are handed to the call, as they are written. -/
structure Sending where
  name : String
  verb : String
  path : String
  operand : String
  target : String
  deriving DecidableEq, Repr, Inhabited

section Reading

/-- The line that opens the call which makes a request. -/
def requestLine : Language → String
  | .javascript => "        const request = RequestFactory.create("
  | .php => "        $request = $this->apiClient->createRequest("

/-- What stands before the name in the declaration of a method. -/
def declaring : Language → String
  | .javascript => "    "
  | .php => "    public function "

/-- The lines between the declaration of a method and its first statement. -/
def bracing : Language → List String
  | .javascript => []
  | .php => ["    \x7b"]

/-- The method that the class is made with. -/
def constructorName : Language → String
  | .javascript => "constructor"
  | .php => "__construct"

/-- Whether a line declares a method. -/
def isSignature : Language → String → Bool
  | .javascript, line =>
    (declaring .javascript).toList.isPrefixOf line.toList && line.toList[4]? != some ' ' &&
      line.toList.getLast? == some '\x7b'
  | .php, line => (declaring .php).toList.isPrefixOf line.toList

/-- The name in the declaration of a method. -/
def signatureName (l : Language) (line : String) : String :=
  .ofList ((line.toList.drop (declaring l).length).takeWhile (· != '('))

/-- An operand that stands on a line of its own. -/
def operandOf (line : String) : String := .ofList (line.toList.drop 12).dropLast

namespace Sending

/-- The request whose call is opened between some lines. The lines above it are given from the
call upwards; in the comment of a method an empty line stands below the verb and the path. -/
def read (l : Language) (above below : List String) : Sending :=
  let above := above.drop (bracing l).length
  let heading := ((above.tail.dropWhile (· != "     *")).getD 1 "").toList.drop 7
  { name := signatureName l (above.getD 0 "")
    verb := .ofList (heading.takeWhile (· != ' '))
    path := .ofList ((heading.dropWhile (· != ' ')).drop 1)
    operand := operandOf (below.getD 0 "")
    target := operandOf (below.getD 1 "") }

/-- The requests whose calls are opened in some lines. The lines above them are given from the
last one upwards. -/
def all (l : Language) (above : List String) : List String → List Sending
  | [] => []
  | line :: below =>
    if line = requestLine l then read l above below :: all l (line :: above) below
    else all l (line :: above) below

end Sending

namespace SourceFile

/-- The requests that the lines of a file send. -/
def sendings : SourceFile → List Sending
  | javascript f => Sending.all .javascript [] f.lines
  | php f => Sending.all .php [] f.lines

/-- The methods that the lines of a file declare. -/
def declaredMethods : SourceFile → List String
  | javascript f => (f.lines.filter (isSignature .javascript)).map (signatureName .javascript)
  | php f => (f.lines.filter (isSignature .php)).map (signatureName .php)

end SourceFile

end Reading

section Still

variable {l : Language}

/-- Whether a line opens a call, as a statement of a method. -/
def opensCall (line : String) : Bool :=
  (line.toList.take 8).all (· == ' ') && line.toList[8]? != some ' ' &&
    line.toList.getLast? == some '('

/-- Lines of which none opens a call. -/
def Still (lines : List String) : Prop := ∀ line ∈ lines, opensCall line = false

instance (lines : List String) : Decidable (Still lines) :=
  inferInstanceAs (Decidable (∀ line ∈ lines, opensCall line = false))

theorem still_append {a b : List String} : Still (a ++ b) ↔ Still a ∧ Still b :=
  List.forall_mem_append

theorem still_cons {line : String} {rest : List String} :
    Still (line :: rest) ↔ opensCall line = false ∧ Still rest :=
  List.forall_mem_cons

theorem still_nil : Still [] := List.forall_mem_nil _

theorem still_map {α : Type} {f : α → String} (h : ∀ x, opensCall (f x) = false) (xs : List α) :
    Still (xs.map f) :=
  List.forall_mem_map.mpr fun x _ => h x

theorem still_flatMap {α : Type} {f : α → List String} (h : ∀ x, Still (f x)) (xs : List α) :
    Still (xs.flatMap f) :=
  List.forall_mem_flatMap.mpr fun x _ => h x

theorem opensCall_commentLine (line : String) : opensCall (commentLine "    " line) = false := by
  simp [opensCall, commentLine]

theorem still_memberComment (description : List String) : Still (memberComment description) :=
  still_map opensCall_commentLine description

theorem still_classComment (description : List String) : Still (classComment description) :=
  forall_mem_classComment (by decide) (by decide)
    (fun line => by simp [opensCall, commentLine]) description

namespace JavascriptFile

theorem still_body (b : Body) : Still b.javascriptLines := by
  cases b <;> simp [Body.javascriptLines, still_cons, still_nil, opensCall, List.getLast?_cons]

theorem still_itemLines (i : ItemView) : Still (itemLines i) := by
  simp only [itemLines, still_append, still_body]
  simp [still_cons, still_nil, opensCall]

theorem still_propertyLines (w : PropertyView) : Still (propertyLines w) := by
  simp only [propertyLines, still_append, still_body, still_memberComment]
  split <;> simp [still_cons, still_nil, opensCall, List.getLast?_cons]

/-- No module but that of a client opens a call. -/
theorem still_lines {f : JavascriptFile} (other : ∀ common v, f ≠ .client common v) :
    Still f.lines := by
  have imported (imports : List Import) : Still (imports.map (·.line)) :=
    still_map (fun i => by simp [opensCall, Import.line]) imports
  cases f with
  | entity common v =>
      have space : Still (if v.base.isCommon && (v.usesDate || !v.imports.isEmpty) then [""]
          else []) := by
        split <;> decide
      simp only [lines, entityLines, still_append, imported, space, still_classComment,
        still_flatMap still_itemLines, still_flatMap still_propertyLines]
      simp [exportLines, still_cons, still_nil, opensCall]
  | enumeration v =>
      have constants : Still
          (v.cases.map fun c => "    " ++ c.constant ++ ": " ++ c.literal ++ ",") :=
        still_map (fun c => by simp [opensCall, List.getLast?_cons]) v.cases
      simp only [lines, enumerationLines, still_append, still_classComment, constants]
      simp [exportLines, still_cons, still_nil, opensCall]
  | client common v => exact absurd rfl (other common v)
  | dateFactory =>
      simp [lines, dateFactoryLines, exportLines, still_cons, still_nil, opensCall]
  | index exports =>
      have exported : Still (exports.map fun e => "    " ++ e.1 ++ ",") :=
        still_map (fun e => by simp [opensCall, List.getLast?_cons]) exports
      have bound : Still (exports.map fun e => (Import.mk e.1 false e.2).line) :=
        still_map (fun e => by simp [opensCall, Import.line]) exports
      simp only [lines, indexLines, still_append, bound, exported]
      simp [still_cons, still_nil, opensCall]
  | manifest packageName version common =>
      simp [lines, manifestLines, still_cons, still_nil, opensCall]

end JavascriptFile

namespace PhpFile

theorem still_body (b : Body) : Still b.phpLines := by
  cases b <;> simp [Body.phpLines, still_cons, still_nil, opensCall, List.getLast?_cons]

theorem still_itemLines (i : ItemView) : Still (itemLines i) := by
  simp only [itemLines, still_append, still_body]
  simp [still_cons, still_nil, opensCall]

theorem still_propertyLines (w : PropertyView) : Still (propertyLines w) := by
  simp only [propertyLines, still_append, still_body, still_memberComment]
  split <;> simp [still_cons, still_nil, opensCall]

theorem still_separated {blocks : List (List String)} (h : ∀ block ∈ blocks, Still block) :
    Still (separated blocks) :=
  forall_mem_separated (by decide) h

/-- No class but that of a client opens a call. -/
theorem still_lines {f : PhpFile} (other : ∀ space common v, f ≠ .client space common v) :
    Still f.lines := by
  have opening : Still ((f.space?.map header).getD []) := by
    cases f.space? with
    | none => exact still_nil
    | some space => simp [header, still_cons, still_nil, opensCall]
  have used : Still (f.uses.map (·.line)) :=
    still_map (fun u => by simp [opensCall, Use.line]) f.uses
  refine still_append.mpr ⟨opening, ?_⟩
  cases f with
  | entity space common v =>
      have members : Still
          (separated (v.item.toList.map itemLines ++ v.properties.map propertyLines)) := by
        refine still_separated (List.forall_mem_append.mpr ⟨?_, ?_⟩)
        · exact List.forall_mem_map.mpr fun i _ => still_itemLines i
        · exact List.forall_mem_map.mpr fun w _ => still_propertyLines w
      simp only [body, entityLines, still_append, used, members, still_classComment]
      split <;> simp [still_cons, still_nil, opensCall]
  | enumeration space v =>
      have constants : Still
          (v.cases.map fun c => "    const " ++ c.constant ++ " = " ++ c.literal ++ ";") :=
        still_map (fun c => by simp [opensCall]) v.cases
      simp only [body, enumerationLines, still_append, still_classComment, constants]
      simp [still_cons, still_nil, opensCall]
  | client space common v => exact absurd rfl (other space common v)
  | dateFactory space => simp [body, dateFactoryLines, still_cons, still_nil, opensCall]
  | clientFactory space common baseUrl clients =>
      have getters : Still (clients.flatMap factoryMethodLines) :=
        still_flatMap (fun c => by
          simp [factoryMethodLines, still_cons, still_nil, opensCall, List.getLast?_cons]) clients
      simp only [body, clientFactoryLines, still_append, used, getters]
      simp [still_cons, still_nil, opensCall]
  | manifest packageName version requirement autoload =>
      simp [body, manifestLines, still_cons, still_nil, opensCall, List.getLast?_cons]

end PhpFile

end Still

namespace Sending

variable {l : Language} {lines : List String}

theorem opensCall_requestLine (l : Language) : opensCall (requestLine l) = true := by
  cases l <;> decide

/-- Lines that open no call send nothing. -/
theorem all_append (still : Still lines) (above rest : List String) :
    all l above (lines ++ rest) = all l (lines.reverse ++ above) rest := by
  induction lines generalizing above with
  | nil => rfl
  | cons line lines ih =>
      obtain ⟨first, others⟩ := still_cons.mp still
      have other : line ≠ requestLine l := by
        rintro rfl
        rw [opensCall_requestLine] at first
        cases first
      rw [List.cons_append, all, if_neg other, ih others, List.reverse_cons, List.append_assoc]
      rfl

theorem all_eq_nil (still : Still lines) (above : List String) : all l above lines = [] := by
  rw [← List.append_nil lines, all_append still]
  rfl

end Sending

section Methods

variable {l : Language}

/-- The request that a method of a view sends. -/
def MethodView.sending (l : Language) (m : MethodView) : Sending :=
  { name := m.name
    verb := m.method.name
    path := m.path
    operand := match l with
      | .javascript => Text.Literal.quote m.method.name
      | .php => "RequestMethodInterface::METHOD_" ++ m.method.name
    target := m.pathExpr.source }

/-- The arguments in the declaration of a method. -/
def MethodView.argumentText (m : MethodView) : Language → String
  | .javascript => ", ".intercalate m.arguments
  | .php => PhpFile.argumentList m

/-- The end of a declaration. -/
def ending : Language → String
  | .javascript => ") \x7b"
  | .php => ")"

/-- The declaration of a method of a client. -/
def MethodView.signature (l : Language) (m : MethodView) : String :=
  declaring l ++ m.name ++ "(" ++ m.argumentText l ++ ending l

/-- The lines of a method above its call. -/
def MethodView.leading (l : Language) (m : MethodView) : List String :=
  [""] ++ (Comment.ofMethod l m).source ++ m.signature l :: bracing l

theorem Comment.ne_empty_of_mem_tags {m : MethodView} {tag : String} (h : tag ∈ tags l m) :
    tag ≠ "" := by
  have opens : tag.toList.head? = some '@' := by
    cases l with
    | javascript =>
        simp only [tags, List.mem_append, List.mem_map, List.mem_singleton] at h
        rcases h with (⟨v, -, rfl⟩ | ⟨b, -, rfl⟩) | rfl <;> simp
    | php =>
        simp only [tags, List.mem_append, List.mem_map, List.mem_singleton] at h
        rcases h with (⟨v, -, rfl⟩ | ⟨b, -, rfl⟩) | rfl <;> simp
  rintro rfl
  cases opens

theorem commentLine_ne {line : String} (h : line ≠ "") : commentLine "    " line ≠ "     *" := by
  rw [Ne, ← String.toList_inj]
  simp [commentLine, h]

/-- What stands above the call of a method, from the call upwards. -/
theorem MethodView.exists_leading (m : MethodView) (above : List String) :
    ∃ beyond, (m.leading l).reverse ++ above = bracing l ++ m.signature l :: "     */" ::
      (((Comment.tags l m).map (commentLine "    ")).reverse ++ "     *" ::
        ("     * " ++ m.method.name ++ " " ++ m.path) :: beyond) := by
  have heading : commentLine "    " (m.method.name ++ " " ++ m.path) =
      "     * " ++ m.method.name ++ " " ++ m.path := by
    rw [String.append_assoc, commentLine_tag (name_ne_empty m.method), String.append_assoc,
      String.append_assoc, String.append_assoc]
  have braces : (bracing l).reverse = bracing l := by
    cases l <;> rfl
  refine ⟨(m.description.map (commentLine "    ")).reverse ++ "    /**" :: "" :: above, ?_⟩
  simp [leading, Comment.source, Comment.ofMethod, Comment.indent, heading, commentLine_empty,
    braces]

/-- The name of a method is read off its declaration. -/
theorem signatureName_signature {m : MethodView} (name : IsName m.name) :
    signatureName l (m.signature l) = m.name := by
  have inside : ∀ c ∈ m.name.toList, (c != '(') = true := by
    intro c hc
    rcases name c hc with word | sign
    · refine bne_iff_ne.mpr ?_
      rintro rfl
      revert word
      decide
    · refine bne_iff_ne.mpr ?_
      rintro rfl
      revert sign
      decide
  have shape : (m.signature l).toList = (declaring l).toList ++
      (m.name.toList ++ '(' :: (m.argumentText l ++ ending l).toList) := by
    simp [MethodView.signature]
  rw [signatureName, shape, ← String.length_toList, List.drop_left,
    takeWhile_append_cons inside (by decide), String.ofList_toList]

theorem operandOf_line (operand : String) :
    operandOf ("            " ++ operand ++ ",") = operand := by
  have shape : ("            " ++ operand ++ ",").toList.drop 12 = operand.toList ++ [','] := by
    simp
  rw [operandOf, shape, List.dropLast_concat, String.ofList_toList]

namespace Sending

/-- The request of a method is read off its lines, whatever stands above them. -/
theorem read_leading {m : MethodView} (name : IsName m.name) (above rest : List String) :
    read l ((m.leading l).reverse ++ above)
      (("            " ++ (m.sending l).operand ++ ",") ::
        ("            " ++ m.pathExpr.source ++ ",") :: rest) = m.sending l := by
  obtain ⟨beyond, lines⟩ := m.exists_leading (l := l) above
  have tags : ∀ line ∈ "     */" :: ((Comment.tags l m).map (commentLine "    ")).reverse,
      (line != "     *") = true := by
    intro line hl
    refine bne_iff_ne.mpr ?_
    rcases List.mem_cons.mp hl with rfl | hl
    · decide
    · obtain ⟨tag, ht, rfl⟩ := List.mem_map.mp (List.mem_reverse.mp hl)
      exact commentLine_ne (Comment.ne_empty_of_mem_tags ht)
  -- above the tags stand an empty line of the comment and the line that is read
  have comment : ("     */" :: (((Comment.tags l m).map (commentLine "    ")).reverse ++
      "     *" :: ("     * " ++ m.method.name ++ " " ++ m.path) :: beyond)).dropWhile
        (· != "     *") =
      "     *" :: ("     * " ++ m.method.name ++ " " ++ m.path) :: beyond := by
    rw [← List.cons_append, List.dropWhile_append_of_pos tags]
    exact List.dropWhile_cons_of_neg (by decide)
  have verb : ∀ c ∈ m.method.name.toList, (c != ' ') = true := by
    refine List.all_eq_true.mp ?_
    cases m.method <;> decide
  have heading : ("     * " ++ m.method.name ++ " " ++ m.path).toList.drop 7 =
      m.method.name.toList ++ ' ' :: m.path.toList := by
    simp
  have named : (m.method.name.toList ++ ' ' :: m.path.toList).takeWhile (· != ' ') =
      m.method.name.toList :=
    takeWhile_append_cons verb (by decide) _
  have path : (m.method.name.toList ++ ' ' :: m.path.toList).dropWhile (· != ' ') =
      ' ' :: m.path.toList := by
    rw [List.dropWhile_append_of_pos verb]
    exact List.dropWhile_cons_of_neg (by decide)
  simp only [read, lines, List.drop_left, List.tail_cons, comment, List.getD_cons_succ,
    List.getD_cons_zero, heading, named, path, List.drop_one,
    signatureName_signature name, operandOf_line, String.ofList_toList]
  rfl

end Sending

/-- The lines of a method. -/
def MethodView.printed : Language → MethodView → List String
  | .javascript => JavascriptFile.methodLines
  | .php => PhpFile.methodLines

/-- The lines of a method are those above its call, the call with the verb and the path, and
lines that neither open another call nor declare another method. -/
theorem MethodView.exists_printed (l : Language) (m : MethodView) :
    ∃ rest, Still rest ∧ rest.filter (isSignature l) = [] ∧ m.printed l =
      m.leading l ++ requestLine l :: ("            " ++ (m.sending l).operand ++ ",") ::
        ("            " ++ m.pathExpr.source ++ ",") :: rest := by
  cases l with
  | javascript =>
      have reply : Still (JavascriptFile.replyLines m.reply) ∧
          (JavascriptFile.replyLines m.reply).filter (isSignature .javascript) = [] := by
        unfold JavascriptFile.replyLines
        split <;> simp [still_cons, still_nil, opensCall, isSignature, declaring]
      refine ⟨("            " ++ ((m.body.map (·.variableName)).getD "null") ++ ",") ::
        "        );" :: "" :: "        return this.client" ::
        "            .performRequest(request)" ::
        (JavascriptFile.replyLines m.reply ++ ["        ;", "    \x7d"]), ?_, ?_, ?_⟩
      · simp [still_cons, still_append, still_nil, reply.1, opensCall]
      · simp [reply.2, isSignature, declaring]
      · simp [printed, JavascriptFile.methodLines_eq, leading, signature, sending, bracing,
          requestLine, declaring, ending, argumentText, String.append_assoc]
  | php =>
      have reply : Still (PhpFile.replyLines m.reply) ∧
          (PhpFile.replyLines m.reply).filter (isSignature .php) = [] := by
        unfold PhpFile.replyLines
        split <;> simp [still_cons, still_nil, opensCall, isSignature, declaring,
          List.getLast?_cons]
      have constant (s : String) : "            RequestMethodInterface::METHOD_" ++ s =
          "            " ++ ("RequestMethodInterface::METHOD_" ++ s) := by
        rw [← String.append_assoc]
        rfl
      refine ⟨("            " ++ ((m.body.map fun b => "$" ++ b.variableName).getD "null")) ::
        "        );" :: (PhpFile.replyLines m.reply ++ ["    \x7d"]), ?_, ?_, ?_⟩
      · simp [still_cons, still_append, still_nil, reply.1, opensCall]
      · simp [reply.2, isSignature, declaring]
      · simp [printed, PhpFile.methodLines_eq, leading, signature, sending, bracing, requestLine,
          declaring, ending, argumentText, String.append_assoc, constant]

theorem isSignature_commentLine (line : String) :
    isSignature l (commentLine "    " line) = false := by
  cases l <;> simp [isSignature, declaring, commentLine, List.isPrefixOf]

/-- The comment of a method is indented as members are. -/
theorem Comment.source_ofMethod (m : MethodView) : (ofMethod l m).source =
    "    /**" :: ((ofMethod l m).lines.map (commentLine "    ") ++ ["     */"]) := rfl

theorem opensCall_signature (m : MethodView) : opensCall (m.signature l) = false := by
  cases l with
  | javascript => simp [opensCall, MethodView.signature, declaring, ending, List.getLast?_cons]
  | php => simp [opensCall, MethodView.signature, declaring, ending, List.getLast?_cons]

theorem still_leading (m : MethodView) : Still (m.leading l) := by
  have comment : Still (Comment.ofMethod l m).source := by
    rw [Comment.source_ofMethod]
    refine still_cons.mpr ⟨by decide, still_append.mpr ⟨?_, by decide⟩⟩
    exact still_map opensCall_commentLine _
  have braces : Still (bracing l) := by
    cases l <;> decide
  refine still_append.mpr ⟨still_append.mpr ⟨by decide, comment⟩, ?_⟩
  exact still_cons.mpr ⟨opensCall_signature m, braces⟩

theorem isSignature_signature {m : MethodView} (name : IsName m.name) :
    isSignature l (m.signature l) = true := by
  cases l with
  | javascript =>
      have shape : (m.signature .javascript).toList = (declaring .javascript).toList ++
          (m.name.toList ++ '(' :: (", ".intercalate m.arguments ++ ") \x7b").toList) := by
        simp [MethodView.signature, MethodView.argumentText, ending]
      have last : (m.signature .javascript).toList.getLast? = some '\x7b' := by
        simp [shape, declaring, List.getLast?_cons]
      have fifth : (m.signature .javascript).toList[4]? ≠ some ' ' := by
        rw [shape]
        cases h : m.name.toList with
        | nil => simp [declaring]
        | cons c rest =>
            have known := name c (h ▸ List.mem_cons_self)
            rintro blank
            obtain rfl : c = ' ' := by simpa [declaring] using blank
            revert known
            decide
      have opens : (declaring .javascript).toList.isPrefixOf
          (m.signature .javascript).toList = true := by
        rw [shape, List.isPrefixOf_iff_prefix]
        exact List.prefix_append _ _
      simp [isSignature, opens, fifth, last]
  | php => simp [isSignature, MethodView.signature, declaring]

/-- Above its call a method is declared once. -/
theorem filter_leading {m : MethodView} (name : IsName m.name) :
    (m.leading l).filter (isSignature l) = [m.signature l] := by
  have comment (lines : List String) :
      (lines.map (commentLine "    ")).filter (isSignature l) = [] := by
    rw [List.filter_eq_nil_iff]
    intro line hl
    obtain ⟨text, -, rfl⟩ := List.mem_map.mp hl
    simp [isSignature_commentLine text]
  have marks : isSignature l "" = false ∧ isSignature l "    /**" = false ∧
      isSignature l "     */" = false ∧ (bracing l).filter (isSignature l) = [] := by
    cases l <;> decide
  have above : (Comment.ofMethod l m).source.filter (isSignature l) = [] := by
    rw [Comment.source_ofMethod, List.filter_cons_of_neg (by simp [marks]), List.filter_append,
      comment, List.filter_cons_of_neg (by simp [marks])]
    rfl
  rw [MethodView.leading, List.filter_append, List.filter_append, above,
    List.filter_cons_of_neg (by simp [marks]), List.filter_cons_of_pos (isSignature_signature name),
    marks.2.2.2]
  rfl

/-- The lines of a method declare it once. -/
theorem filter_printed {m : MethodView} (name : IsName m.name) :
    (m.printed l).filter (isSignature l) = [m.signature l] := by
  obtain ⟨rest, -, unsigned, printed⟩ := m.exists_printed l
  have call : isSignature l (requestLine l) = false := by
    cases l <;> decide
  have operand (s : String) : isSignature l ("            " ++ s ++ ",") = false := by
    cases l <;> simp [isSignature, declaring, List.isPrefixOf]
  rw [printed, List.filter_append, filter_leading name, List.filter_cons_of_neg (by simp [call]),
    List.filter_cons_of_neg (by simp [operand]), List.filter_cons_of_neg (by simp [operand]),
    unsigned]
  rfl

namespace Sending

variable {methods : List MethodView}

/-- Methods one after another send one request each. -/
theorem all_printed (names : ∀ m ∈ methods, IsName m.name) {rest : List String}
    (still : Still rest) (above : List String) :
    all l above (methods.flatMap (MethodView.printed l) ++ rest) =
      methods.map (MethodView.sending l) := by
  induction methods generalizing above with
  | nil => exact all_eq_nil still above
  | cons m methods ih =>
      obtain ⟨name, names⟩ := List.forall_mem_cons.mp names
      obtain ⟨tail, quiet, -, printed⟩ := m.exists_printed l
      have operands : Still (("            " ++ (m.sending l).operand ++ ",") ::
          ("            " ++ m.pathExpr.source ++ ",") :: tail) := by
        simp [still_cons, quiet, opensCall]
      rw [List.flatMap_cons, printed, List.append_assoc, List.append_assoc,
        all_append (still_leading m), List.cons_append, all, if_pos rfl]
      rw [all_append operands, ih names, List.map_cons]
      rw [List.cons_append, List.cons_append, read_leading name]

end Sending

end Methods

section Clients

variable {e : Emitter} {l : Language} {index : List Definition} {actions : List Action}
  {file : SourceFile}

/-- What stands around the methods of a client: lines that send nothing and declare the
constructor. -/
structure IsFrame (l : Language) (opening closing : List String) : Prop where
  above : Still opening
  below : Still closing
  first : (opening.filter (isSignature l)).map (signatureName l) = [constructorName l]
  last : closing.filter (isSignature l) = []

theorem JavascriptFile.exists_frame (common : String) (v : ClientView) :
    ∃ opening closing, IsFrame .javascript opening closing ∧ (client common v).lines =
      opening ++ v.methods.flatMap (MethodView.printed .javascript) ++ closing := by
  have imported : Still ((clientImports v).map (·.line)) :=
    still_map (fun i => by simp [opensCall, Import.line]) _
  have unsigned : ((clientImports v).map (·.line)).filter (isSignature .javascript) = [] := by
    rw [List.filter_eq_nil_iff]
    intro line hl
    obtain ⟨i, -, rfl⟩ := List.mem_map.mp hl
    simp [isSignature, declaring, Import.line]
  have space : Still (if v.imports.isEmpty then [] else [""]) ∧
      (if v.imports.isEmpty then [] else [""]).filter (isSignature .javascript) = [] := by
    split <;> decide
  have required : isSignature .javascript (requestImport common).line = false := by
    simp [isSignature, declaring, Import.line]
  have named : isSignature .javascript ("class " ++ v.className ++ " \x7b") = false := by
    simp [isSignature, declaring]
  refine ⟨_, _, ⟨?_, ?_, ?_, ?_⟩, List.append_assoc _ ["\x7d"] (exportLines v.className)⟩
  · simp only [still_append, imported, space]
    simp [still_cons, still_nil, opensCall, Import.line]
  · simp [exportLines, still_cons, still_nil, opensCall]
  · rw [List.filter_append, List.filter_append, List.filter_append, unsigned, space.2,
      List.filter_cons_of_neg (by simp [required]), List.filter_cons_of_neg (by decide),
      List.filter_cons_of_neg (by simp [named])]
    decide
  · simp [exportLines, isSignature, declaring]

theorem PhpFile.exists_frame (space common : String) (v : ClientView) :
    ∃ opening closing, IsFrame .php opening closing ∧ (client space common v).lines =
      opening ++ v.methods.flatMap (MethodView.printed .php) ++ closing := by
  have used : Still ((client space common v).uses.map (·.line)) :=
    still_map (fun u => by simp [opensCall, Use.line]) _
  have unsigned : ((client space common v).uses.map (·.line)).filter (isSignature .php) = [] := by
    rw [List.filter_eq_nil_iff]
    intro line hl
    obtain ⟨u, -, rfl⟩ := List.mem_map.mp hl
    simp [isSignature, declaring, Use.line]
  refine ⟨header (serviceSpace space) ++ ((client space common v).uses.map (·.line) ++
    ["", "class " ++ v.className, "\x7b", "    private $apiClient;", "",
      "    public function __construct(ApiClient $apiClient)", "    \x7b",
      "        $this->apiClient = $apiClient;", "    \x7d"]), ["\x7d"], ⟨?_, ?_, ?_, ?_⟩, ?_⟩
  · simp only [still_append, used]
    simp [header, still_cons, still_nil, opensCall]
  · decide
  · have named : isSignature .php ("class " ++ v.className) = false := by
      simp [isSignature, declaring, List.isPrefixOf]
    have headed : (header (serviceSpace space)).filter (isSignature .php) = [] := by
      simp [header, isSignature, declaring]
    rw [List.filter_append, List.filter_append, unsigned, headed,
      List.filter_cons_of_neg (by decide), List.filter_cons_of_neg (by simp [named])]
    decide
  · decide
  · simp [lines, body, clientLines, space?, MethodView.printed]

/-- The names of the methods of a client are made of word characters. -/
theorem isName_of_clientSource {client : String}
    (source : clientSource e index client actions = .ok file) :
    ∀ m ∈ file.methods, IsName m.name := by
  obtain ⟨v, view, ⟨-, rfl⟩ | ⟨-, space, rfl⟩⟩ := exists_view_of_clientSource source
  · exact fun m hm => ((isPlain_of_methodViews view.methods).1 m hm).name
  · exact fun m hm => ((isPlain_of_methodViews view.methods).1 m hm).name

/-- What the lines of a client send and declare. -/
theorem reads_of_lines {methods : List MethodView} {opening closing lines : List String}
    (frame : IsFrame l opening closing) (names : ∀ m ∈ methods, IsName m.name)
    (shape : lines = opening ++ methods.flatMap (MethodView.printed l) ++ closing) :
    Sending.all l [] lines = methods.map (MethodView.sending l) ∧
      (lines.filter (isSignature l)).map (signatureName l) =
        constructorName l :: methods.map (·.name) := by
  constructor
  · rw [shape, List.append_assoc, Sending.all_append frame.above]
    exact Sending.all_printed names frame.below _
  · have declared : ((methods.flatMap (MethodView.printed l)).filter (isSignature l)).map
        (signatureName l) = methods.map (·.name) := by
      clear shape
      induction methods with
      | nil => rfl
      | cons m methods ih =>
          obtain ⟨name, names⟩ := List.forall_mem_cons.mp names
          rw [List.flatMap_cons, List.filter_append, List.map_append, ih names,
            filter_printed name, List.map_singleton, signatureName_signature name]
          rfl
    rw [shape, List.filter_append, List.filter_append, frame.last, List.append_nil,
      List.map_append, frame.first, declared]
    rfl

/-- The file of a client sends the requests of its methods and declares these methods behind
its constructor. -/
theorem reads_of_clientSource {client : String}
    (source : clientSource e index client actions = .ok file) :
    file.sendings = file.methods.map (MethodView.sending e.language) ∧
      file.declaredMethods = constructorName e.language :: file.methods.map (·.name) := by
  have names := isName_of_clientSource source
  obtain ⟨v, view, ⟨js, rfl⟩ | ⟨php, space, rfl⟩⟩ := exists_view_of_clientSource source
  · obtain ⟨opening, closing, frame, shape⟩ := JavascriptFile.exists_frame e.common.text v
    rw [js]
    exact reads_of_lines frame names shape
  · obtain ⟨opening, closing, frame, shape⟩ := PhpFile.exists_frame space e.common.text v
    rw [php]
    exact reads_of_lines frame names shape

/-- The file of a definition sends nothing. -/
theorem sendings_of_entitySource {d : Definition}
    (source : entitySource e index d = .ok file) : file.sendings = [] := by
  obtain ⟨v, -, rfl | ⟨space, rfl⟩⟩ := exists_view_of_entitySource source
  · refine Sending.all_eq_nil (JavascriptFile.still_lines fun common w => ?_) []
    split <;> nofun
  · refine Sending.all_eq_nil (PhpFile.still_lines fun space' common w => ?_) []
    split <;> nofun

/-- Neither do the files that every package has. -/
theorem sendings_of_supportFiles {clients : List String} {support : Tree}
    (made : supportFiles e index clients = .ok support) :
    support.flatMap (·.2.sendings) = [] := by
  rw [List.flatMap_eq_nil_iff]
  intro entry h
  cases l : e.language with
  | javascript =>
      obtain ⟨name, version, rfl⟩ := supportFiles_javascript l made
      simp only [List.mem_cons, List.not_mem_nil, or_false] at h
      rcases h with rfl | rfl | rfl
      all_goals exact Sending.all_eq_nil (JavascriptFile.still_lines fun _ _ => by nofun) []
  | php =>
      obtain ⟨space, name, version, requirement, baseUrl, -, rfl⟩ := supportFiles_php l made
      simp only [List.mem_cons, List.not_mem_nil, or_false] at h
      rcases h with rfl | rfl | rfl
      all_goals exact Sending.all_eq_nil (PhpFile.still_lines fun _ _ _ => by nofun) []

end Clients

end ClientForge.Emission
