import ClientForge.Proofs.CodeText
import ClientForge.Proofs.Emitted

/-!
# Files woven of code and comments

The class of a type and the methods of a client carry comments with the descriptions that
the specification gives, with the path of the method and with the types of what goes in and
comes out. Here these comments are read off the content of a file. Below the lines that name
what it imports, every file is woven of them and of lines of code.
-/

namespace ClientForge.Emission

open ClientForge.Text ClientForge.Naming

namespace Comment

/-- The comment above a class, if its type is described. -/
def ofClass (description : List String) : List Comment :=
  if description.isEmpty then [] else [⟨false, description⟩]

/-- The comment above the method that makes the items of a result. -/
def ofItem (i : ItemView) : Comment :=
  ⟨true, ["@param \x7bObject\x7d data", "@return " ++ braced i.docType]⟩

/-- The documented type of what a property gives back. -/
def returnedType (w : PropertyView) : String := w.docType ++ (if w.nullable then "|null" else "")

/-- The comment above the method that reads a property. -/
def ofReader (l : Language) (w : PropertyView) : Comment :=
  ⟨true, w.description ++ (if w.description.isEmpty then [] else [""]) ++ match l with
    | .javascript => ["@return " ++ braced (returnedType w)]
    | .php => ["@return " ++ returnedType w]⟩

/-- The comment above the method that writes a property. -/
def ofWriter (l : Language) (w : PropertyView) : Comment :=
  ⟨true, match l with
    | .javascript => ["@param " ++ braced w.docType ++ " " ++ w.variableName]
    | .php => ["@param " ++ w.docType ++ " $" ++ w.variableName, "@return $this"]⟩

/-- The comments above the two accessors of a property. -/
def ofProperty (l : Language) (w : PropertyView) : List Comment := [ofReader l w, ofWriter l w]

/-- The lines of a method's comment that name its arguments and its result. -/
def tags (l : Language) (m : MethodView) : List String :=
  match l with
  | .javascript =>
    (m.parameters.map fun v => "@param \x7bstring\x7d " ++ v) ++
      (m.body.toList.map fun b => "@param " ++ braced b.docType ++ " " ++ b.variableName) ++
      ["@return " ++ braced (JavascriptFile.promise m.replyDoc)]
  | .php =>
    (m.parameters.map fun v => "@param string $" ++ v) ++
      (m.body.toList.map fun b => "@param " ++ b.docType ++ " $" ++ b.variableName) ++
      ["@return " ++ PhpFile.returned m.replyDoc]

/-- The comment above a method of a client. -/
def ofMethod (l : Language) (m : MethodView) : Comment :=
  ⟨true, m.description ++ [m.method.name ++ " " ++ m.path, ""] ++ tags l m⟩

end Comment

/-- The comments that are printed in a file. -/
def JavascriptFile.comments : JavascriptFile → List Comment
  | entity _ v =>
    Comment.ofClass v.description ++ v.item.toList.map Comment.ofItem ++
      v.properties.flatMap (Comment.ofProperty .javascript)
  | enumeration v => Comment.ofClass v.description
  | client _ v =>
    ⟨true, ["@param \x7bClientWrapper\x7d client"]⟩ :: v.methods.map (Comment.ofMethod .javascript)
  | dateFactory =>
    [⟨true, ["@param \x7bstring|null\x7d value", "@return \x7bDate|null\x7d"]⟩,
      ⟨true, ["@param \x7bDate|null\x7d date", "@return \x7bstring|null\x7d"]⟩]
  | index _ => []
  | manifest _ _ _ => []

/-- The comments that are printed in a file. -/
def PhpFile.comments : PhpFile → List Comment
  | entity _ _ v =>
    Comment.ofClass v.description ++ v.properties.flatMap (Comment.ofProperty .php)
  | enumeration _ v => Comment.ofClass v.description
  | client _ _ v => v.methods.map (Comment.ofMethod .php)
  | _ => []

namespace SourceFile

/-- The comments that are printed in a file. -/
def comments : SourceFile → List Comment
  | javascript f => f.comments
  | php f => f.comments

/-- Whether a line belongs to the head of a file: it is empty, opens the file, names the
namespace or imports something. -/
def isHead (line : String) : Bool := line.toList.head?.all fun c => ['<', 'n', 'u', 'i'].contains c

/-- The characters of a file below its head. -/
def content (f : SourceFile) : List Char := charsOf (f.lines.dropWhile isHead)

/-- Whether a reader of a file finds the comments that were printed, each with its text, and
code behind them. -/
def KeepsComments (f : SourceFile) : Prop :=
  Mode.code.scan f.content = (.code, f.comments.map (·.inner))

end SourceFile

section Weaving

theorem woven_classComment (description : List String) :
    Woven (classComment description) (Comment.ofClass description) := by
  unfold classComment Comment.ofClass
  split
  · exact .nil
  · simpa [Comment.source, Comment.indent] using Woven.comment ⟨false, description⟩ .nil

/-- A comment among lines of code. -/
theorem Woven.around {before after : List String} {comments : List Comment} (c : Comment)
    (h : ∀ line ∈ before, Neutral line) (rest : Woven after comments) :
    Woven (before ++ (c.source ++ after)) (c :: comments) :=
  (Woven.of_neutral h).append (rest.comment c)

theorem commentLine_tag {tag : String} (h : tag ≠ "") (rest : String) :
    commentLine "    " (tag ++ rest) = "     * " ++ tag ++ rest := by
  rw [← String.toList_inj]
  simp [commentLine, h]

theorem commentLine_empty (indent : String) : commentLine indent "" = indent ++ " *" := by
  simp [commentLine]

theorem name_ne_empty (m : Method) : m.name ≠ "" := by
  cases m <;> decide

namespace JavascriptFile

theorem itemLines_eq (i : ItemView) : itemLines i =
    [""] ++ ((Comment.ofItem i).source ++ (["    createItem(data) \x7b"] ++
      (Body.creating .javascript i.conversion).javascriptLines ++ ["    \x7d"])) := by
  simp [itemLines, Comment.ofItem, Comment.source, Comment.indent, commentLine_tag]
  rfl

theorem propertyLines_eq (w : PropertyView) : propertyLines w = [""] ++
    ((Comment.ofReader .javascript w).source ++ (("    " ++ w.getter ++ "() \x7b") ::
      (Body.reading w.key w.conversion).javascriptLines ++ ["    \x7d", ""] ++
        ((Comment.ofWriter .javascript w).source ++
          (("    " ++ w.setter ++ "(" ++ w.variableName ++ ") \x7b") ::
            (Body.writing w.key w.variableName w.conversion).javascriptLines ++
              ["    \x7d"])))) := by
  by_cases plain : w.description.isEmpty = true <;>
    simp [propertyLines, memberComment, Comment.ofReader, Comment.ofWriter, Comment.source,
      Comment.indent, Comment.returnedType, plain, commentLine_tag, commentLine_empty,
      String.append_assoc]

theorem methodLines_eq (m : MethodView) : methodLines m = [""] ++
    ((Comment.ofMethod .javascript m).source ++
      (["    " ++ m.name ++ "(" ++ ", ".intercalate m.arguments ++ ") \x7b",
        "        const request = RequestFactory.create(",
        "            " ++ Literal.quote m.method.name ++ ",",
        "            " ++ m.pathExpr.source ++ ",",
        "            " ++ ((m.body.map (·.variableName)).getD "null") ++ ",",
        "        );", "", "        return this.client", "            .performRequest(request)"] ++
        (replyLines m.reply ++ ["        ;", "    \x7d"]))) := by
  simp [methodLines, memberComment, Comment.ofMethod, Comment.tags, Comment.source,
    Comment.indent, commentLine_tag, commentLine_empty, String.append_assoc, Function.comp_def,
    name_ne_empty m.method]

end JavascriptFile

namespace PhpFile

theorem propertyLines_eq (w : PropertyView) : propertyLines w =
    (Comment.ofReader .php w).source ++
      (("    public function " ++ w.getter ++ "()") :: "    \x7b" ::
      (Body.reading w.key w.conversion).phpLines ++ ["    \x7d", ""] ++
        ((Comment.ofWriter .php w).source ++
          (("    public function " ++ w.setter ++ "($" ++ w.variableName ++ ")") :: "    \x7b" ::
            (Body.writing w.key w.variableName w.conversion).phpLines ++ ["    \x7d"]))) := by
  have own : commentLine "    " "@return $this" = "     * @return $this" := rfl
  by_cases plain : w.description.isEmpty = true <;>
    simp [propertyLines, memberComment, Comment.ofReader, Comment.ofWriter, Comment.source,
      Comment.indent, Comment.returnedType, plain, commentLine_tag, commentLine_empty,
      String.append_assoc, own]

theorem methodLines_eq (m : MethodView) : methodLines m = [""] ++
    ((Comment.ofMethod .php m).source ++
      (["    public function " ++ m.name ++ "(" ++ argumentList m ++ ")", "    \x7b",
        "        $request = $this->apiClient->createRequest(",
        "            RequestMethodInterface::METHOD_" ++ m.method.name ++ ",",
        "            " ++ m.pathExpr.source ++ ",",
        "            " ++ ((m.body.map fun b => "$" ++ b.variableName).getD "null"),
        "        );"] ++
        (replyLines m.reply ++ ["    \x7d"]))) := by
  simp [methodLines, memberComment, Comment.ofMethod, Comment.tags, Comment.source,
    Comment.indent, commentLine_tag, commentLine_empty, String.append_assoc, Function.comp_def,
    name_ne_empty m.method]

end PhpFile

end Weaving

/-- A property of which every printed part but the description is made of names. -/
structure PropertyView.IsPlain (w : PropertyView) : Prop where
  getter : IsWord w.getter
  setter : IsWord w.setter
  variableName : IsWord w.variableName
  conversion : ∀ cls, w.conversion.cls? = some cls → IsWord cls
  docType : '/' ∉ w.docType.toList

/-- The items of a result of which every printed part is made of names. -/
structure ItemView.IsPlain (i : ItemView) : Prop where
  conversion : ∀ cls, i.conversion.cls? = some cls → IsWord cls
  docType : '/' ∉ i.docType.toList

/-- An entity of which every printed part but the descriptions is made of names and
literals. -/
structure EntityView.IsPlain (v : EntityView) : Prop where
  className : IsWord v.className
  base : IsWord v.base.name
  properties : ∀ w ∈ v.properties, w.IsPlain
  item : ∀ i ∈ v.item, i.IsPlain
  cases : ∀ c ∈ v.cases, IsName c.constant

/-- A body argument of which every printed part is made of names. -/
structure BodyView.IsPlain (b : BodyView) : Prop where
  variableName : IsWord b.variableName
  cls : IsWord b.cls
  docType : '/' ∉ b.docType.toList

/-- A method of which every printed part but the description and the path is made of names
and literals. -/
structure MethodView.IsPlain (m : MethodView) : Prop where
  name : IsName m.name
  pathExpr : Neutral m.pathExpr.source
  parameters : ∀ v ∈ m.parameters, IsWord v
  body : ∀ b ∈ m.body, b.IsPlain
  reply : ∀ c, m.reply.code? = some c → ∀ n ∈ c.names, IsWord n
  replyDoc : ∀ d ∈ m.replyDoc, '/' ∉ d.toList

theorem neutral_name (m : Method) : Neutral m.name := by
  cases m <;> decide

/-- A line of three parts, the middle one a name. -/
theorem neutral_word {s t u : String} (h : IsWord t) (hs : Neutral s) (hu : Neutral u) :
    Neutral (s ++ t ++ u) :=
  (neutral_of_isWord h).between s u hs hu

namespace JavascriptFile

theorem woven_itemLines {i : ItemView} (h : i.IsPlain) :
    Woven (itemLines i) [Comment.ofItem i] := by
  have body : ∀ line ∈ (Body.creating .javascript i.conversion).javascriptLines, Neutral line :=
    Body.neutral_javascriptLines fun n hn => h.conversion n (Body.cls?_of_mem_creating hn)
  rw [itemLines_eq]
  refine .around _ (by decide) (.of_neutral ?_)
  exact List.forall_mem_append.mpr ⟨List.forall_mem_append.mpr ⟨by decide, body⟩, by decide⟩

theorem woven_propertyLines {w : PropertyView} (h : w.IsPlain) :
    Woven (propertyLines w) (Comment.ofProperty .javascript w) := by
  have reading : ∀ line ∈ (Body.reading w.key w.conversion).javascriptLines, Neutral line :=
    Body.neutral_javascriptLines fun n hn => h.conversion n (Body.cls?_of_mem_reading hn)
  have writing : ∀ line ∈ (Body.writing w.key w.variableName w.conversion).javascriptLines,
      Neutral line :=
    Body.neutral_javascriptLines fun n hn =>
      (Body.cls?_of_mem_writing hn).elim (fun own => own ▸ h.variableName) (h.conversion n)
  have reader := neutral_word (s := "    ") (u := "() \x7b") h.getter (by decide) (by decide)
  have writer : Neutral ("    " ++ w.setter ++ "(" ++ w.variableName ++ ") \x7b") :=
    neutral_word h.variableName (neutral_word h.setter (by decide) (by decide)) (by decide)
  rw [propertyLines_eq]
  refine .around _ (by decide) (.around _ ?_ (.of_neutral ?_))
  · exact List.forall_mem_append.mpr ⟨List.forall_mem_cons.mpr ⟨reader, reading⟩, by decide⟩
  · exact List.forall_mem_append.mpr ⟨List.forall_mem_cons.mpr ⟨writer, writing⟩, by decide⟩

theorem woven_methodLines {m : MethodView} (h : m.IsPlain) :
    Woven (methodLines m) [Comment.ofMethod .javascript m] := by
  have arguments : Neutral (", ".intercalate m.arguments) := by
    refine neutral_intercalate (by decide) fun v hv => ?_
    rcases List.mem_append.mp hv with hv | hv
    · exact neutral_of_isWord (h.parameters v hv)
    · obtain ⟨b, hb, rfl⟩ := List.mem_map.mp hv
      exact neutral_of_isWord ((h.body b (Option.mem_toList.mp hb)).variableName)
  have signature : Neutral ("    " ++ m.name ++ "(" ++ ", ".intercalate m.arguments ++ ") \x7b") :=
    arguments.between _ _ (h.name.neutral.between _ _ (by decide) (by decide)) (by decide)
  have method := (neutral_quote m.method.name).between "            " "," (by decide) (by decide)
  have path := h.pathExpr.between "            " "," (by decide) (by decide)
  have argument : Neutral
      ("            " ++ ((m.body.map (·.variableName)).getD "null") ++ ",") := by
    refine Neutral.between ?_ _ _ (by decide) (by decide)
    cases given : m.body with
    | none => decide
    | some b => exact neutral_of_isWord ((h.body b given).variableName)
  have reply : ∀ line ∈ replyLines m.reply, Neutral line := by
    unfold replyLines
    split
    next c code =>
      have given := (Code.neutral_javascript (h.reply c code)).between "                return " ";"
        (by decide) (by decide)
      exact List.forall_mem_cons.mpr ⟨by decide, List.forall_mem_cons.mpr ⟨given, by decide⟩⟩
    next => nofun
  rw [methodLines_eq]
  refine .around _ (by decide) (.of_neutral (List.forall_mem_append.mpr ⟨?_, ?_⟩))
  · exact List.forall_mem_cons.mpr ⟨signature, List.forall_mem_cons.mpr ⟨by decide,
      List.forall_mem_cons.mpr ⟨method, List.forall_mem_cons.mpr ⟨path,
        List.forall_mem_cons.mpr ⟨argument, by decide⟩⟩⟩⟩⟩
  · exact List.forall_mem_append.mpr ⟨reply, by decide⟩

theorem neutral_exportLines {name : String} (h : IsWord name) :
    ∀ line ∈ exportLines name, Neutral line :=
  List.forall_mem_cons.mpr ⟨by decide,
    List.forall_mem_singleton.mpr (neutral_word h (by decide) (by decide))⟩

end JavascriptFile

namespace PhpFile

theorem neutral_itemLines {i : ItemView} (h : i.IsPlain) : ∀ line ∈ itemLines i, Neutral line := by
  have body : ∀ line ∈ (Body.creating .php i.conversion).phpLines, Neutral line :=
    Body.neutral_phpLines fun n hn => h.conversion n (Body.cls?_of_mem_creating hn)
  have signature : Neutral ("    protected function createItem(" ++
      (if i.conversion.wraps || i.conversion.isList then "array " else "") ++ "$data)") := by
    split <;> decide
  refine List.forall_mem_append.mpr ⟨List.forall_mem_append.mpr ⟨?_, body⟩, by decide⟩
  exact List.forall_mem_cons.mpr ⟨signature, by decide⟩

theorem woven_propertyLines {w : PropertyView} (h : w.IsPlain) :
    Woven (propertyLines w) (Comment.ofProperty .php w) := by
  have reading : ∀ line ∈ (Body.reading w.key w.conversion).phpLines, Neutral line :=
    Body.neutral_phpLines fun n hn => h.conversion n (Body.cls?_of_mem_reading hn)
  have writing : ∀ line ∈ (Body.writing w.key w.variableName w.conversion).phpLines,
      Neutral line :=
    Body.neutral_phpLines fun n hn =>
      (Body.cls?_of_mem_writing hn).elim (fun own => own ▸ h.variableName) (h.conversion n)
  have reader := neutral_word (s := "    public function ") (u := "()") h.getter (by decide)
    (by decide)
  have writer : Neutral ("    public function " ++ w.setter ++ "($" ++ w.variableName ++ ")") :=
    neutral_word h.variableName (neutral_word h.setter (by decide) (by decide)) (by decide)
  have opening : Neutral "    \x7b" := by decide
  rw [propertyLines_eq]
  refine .comment _ (.around _ ?_ (.of_neutral ?_))
  · exact List.forall_mem_append.mpr ⟨List.forall_mem_cons.mpr ⟨reader,
      List.forall_mem_cons.mpr ⟨opening, reading⟩⟩, by decide⟩
  · exact List.forall_mem_append.mpr ⟨List.forall_mem_cons.mpr ⟨writer,
      List.forall_mem_cons.mpr ⟨opening, writing⟩⟩, by decide⟩

theorem neutral_argumentList {m : MethodView} (h : m.IsPlain) : Neutral (argumentList m) := by
  refine neutral_intercalate (by decide) fun s hs => ?_
  rcases List.mem_append.mp hs with hs | hs
  · obtain ⟨v, hv, rfl⟩ := List.mem_map.mp hs
    exact .append (by decide) (neutral_of_isWord (h.parameters v hv))
  · obtain ⟨b, hb, rfl⟩ := List.mem_map.mp hs
    have given := Option.mem_toList.mp hb
    have hint : Neutral (argumentHint m) := by
      rw [argumentHint, Option.mem_def.mp given]
      dsimp only
      split
      · exact neutral_word ((h.body b given).cls) (by decide) (by decide)
      · decide
    exact (hint.append (by decide)).append (neutral_of_isWord ((h.body b given).variableName))

theorem woven_methodLines {m : MethodView} (h : m.IsPlain) :
    Woven (methodLines m) [Comment.ofMethod .php m] := by
  have front : Neutral ("    public function " ++ m.name ++ "(") :=
    h.name.neutral.between _ _ (by decide) (by decide)
  have signature := (neutral_argumentList h).between _ ")" front (by decide)
  have method := (neutral_name m.method).between "            RequestMethodInterface::METHOD_" ","
    (by decide) (by decide)
  have path := h.pathExpr.between "            " "," (by decide) (by decide)
  have argument : Neutral ("            " ++
      ((m.body.map fun b => "$" ++ b.variableName).getD "null")) := by
    refine .append (by decide) ?_
    cases given : m.body with
    | none => decide
    | some b => exact .append (by decide) (neutral_of_isWord ((h.body b given).variableName))
  have reply : ∀ line ∈ replyLines m.reply, Neutral line := by
    have named : ∀ n ∈ (m.reply.code?.getD .data).names, IsWord n := by
      cases code : m.reply.code? with
      | none => nofun
      | some c => exact h.reply c code
    have space : Neutral "Entities\\" := by decide
    have given := (Code.neutral_php space named).between "        return " ";" (by decide)
      (by decide)
    unfold replyLines
    split
    · decide
    · exact List.forall_mem_cons.mpr ⟨by decide, List.forall_mem_cons.mpr ⟨by decide,
        List.forall_mem_singleton.mpr given⟩⟩
  rw [methodLines_eq]
  refine .around _ (by decide) (.of_neutral (List.forall_mem_append.mpr ⟨?_, ?_⟩))
  · exact List.forall_mem_cons.mpr ⟨signature, List.forall_mem_cons.mpr ⟨by decide,
      List.forall_mem_cons.mpr ⟨by decide, List.forall_mem_cons.mpr ⟨method,
        List.forall_mem_cons.mpr ⟨path, List.forall_mem_cons.mpr ⟨argument, by decide⟩⟩⟩⟩⟩⟩
  · exact List.forall_mem_append.mpr ⟨reply, by decide⟩

theorem woven_separated {blocks : List (List String)} {comments : List (List Comment)}
    (h : List.Forall₂ Woven blocks comments) : Woven (separated blocks) comments.flatten := by
  induction h with
  | nil => exact .nil
  | @cons block cs blocks comments first rest ih =>
      cases rest with
      | nil => simpa [separated] using first
      | cons _ _ => exact first.append (.code (by decide) ih)

end PhpFile

namespace SourceFile

/-- Below its head a file is woven of code and of the comments that are printed in it. -/
def IsWoven (f : SourceFile) : Prop := Woven (f.lines.dropWhile isHead) f.comments

theorem IsWoven.keepsComments_iff {f : SourceFile} (h : f.IsWoven) :
    f.KeepsComments ↔ ∀ c ∈ f.comments, ¬ Marked c.lines :=
  h.scan_eq_iff

/-- A file whose head ends where its first line of code or comment stands. -/
theorem isWoven_of_head {f : SourceFile} (head : List String) {body : List String}
    (shape : f.lines = head ++ body)
    (above : ∀ line ∈ head, isHead line = true) (below : ∀ line ∈ body.head?, isHead line = false)
    (h : Woven body f.comments) : f.IsWoven := by
  have rest : body.dropWhile isHead = body := by
    cases body with
    | nil => rfl
    | cons first body => exact List.dropWhile_cons_of_neg (by simp [below first rfl])
  rw [IsWoven, shape, List.dropWhile_append_of_pos above, rest]
  exact h

theorem isHead_classComment (description : List String) (first : String) (rest : List String)
    (h : isHead first = false) :
    ∀ line ∈ (classComment description ++ first :: rest).head?, isHead line = false := by
  intro line hl
  unfold classComment at hl
  split at hl
  · obtain rfl := Option.some.inj hl
    exact h
  · obtain rfl := Option.some.inj hl
    decide

theorem isHead_import (i : Import) : isHead i.line = true := by
  simp [isHead, Import.line]

theorem isHead_imports (imports : List Import) :
    ∀ line ∈ imports.map (·.line), isHead line = true := by
  intro line hl
  obtain ⟨i, -, rfl⟩ := List.mem_map.mp hl
  exact isHead_import i

theorem isHead_uses (uses : List Use) : ∀ line ∈ uses.map (·.line), isHead line = true := by
  intro line hl
  obtain ⟨u, -, rfl⟩ := List.mem_map.mp hl
  simp [isHead, Use.line]

theorem isHead_header (space : String) : ∀ line ∈ PhpFile.header space, isHead line = true := by
  simp [PhpFile.header, isHead]

section Entity

variable {v : EntityView} (h : v.IsPlain)
include h

theorem isWoven_javascriptEntity (common : String) :
    IsWoven (.javascript (.entity common v)) := by
  have declaration : Neutral ("class " ++ v.className ++ " extends " ++ v.base.name ++ " \x7b") :=
    neutral_word h.base (neutral_word h.className (by decide) (by decide)) (by decide)
  have items : Woven (v.item.toList.flatMap JavascriptFile.itemLines)
      (v.item.toList.map Comment.ofItem) := by
    rw [List.map_eq_flatMap]
    exact .flatMap fun i hi => JavascriptFile.woven_itemLines (h.item i (Option.mem_toList.mp hi))
  have properties : Woven (v.properties.flatMap JavascriptFile.propertyLines)
      (v.properties.flatMap (Comment.ofProperty .javascript)) :=
    .flatMap fun w hw => JavascriptFile.woven_propertyLines (h.properties w hw)
  have closing : Woven (["\x7d"] ++ JavascriptFile.exportLines v.className) [] :=
    .of_neutral (List.forall_mem_append.mpr
      ⟨by decide, JavascriptFile.neutral_exportLines h.className⟩)
  have woven := (woven_classComment v.description).append
    (.code declaration (items.append (properties.append closing)))
  refine isWoven_of_head ((JavascriptFile.baseImports common v).map (·.line) ++
    (if v.base.isCommon && (v.usesDate || !v.imports.isEmpty) then [""] else []) ++
    (JavascriptFile.entityImports v).map (·.line) ++ [""]) ?_ ?_
    (isHead_classComment v.description _ _ ?_)
    (by simpa [comments, JavascriptFile.comments] using woven)
  · simp [lines, JavascriptFile.lines, JavascriptFile.entityLines]
  · have gap : ∀ line ∈ (if v.base.isCommon && (v.usesDate || !v.imports.isEmpty) then [""]
        else []), isHead line = true := by
      split <;> decide
    simp only [List.forall_mem_append]
    exact ⟨⟨⟨isHead_imports _, gap⟩, isHead_imports _⟩, by decide⟩
  · simp [isHead]

theorem isWoven_javascriptEnumeration : IsWoven (.javascript (.enumeration v)) := by
  have declaration : Neutral ("const " ++ v.className ++ " = Object.freeze(\x7b") :=
    neutral_word h.className (by decide) (by decide)
  have constants : ∀ line ∈ v.cases.map fun c => "    " ++ c.constant ++ ": " ++ c.literal ++ ",",
      Neutral line := by
    intro line hl
    obtain ⟨c, hc, rfl⟩ := List.mem_map.mp hl
    exact (neutral_quote c.value).between _ _
      ((h.cases c hc).neutral.between _ _ (by decide) (by decide)) (by decide)
  have closing : ∀ line ∈ ["\x7d);"] ++ JavascriptFile.exportLines v.className, Neutral line :=
    List.forall_mem_append.mpr ⟨by decide, JavascriptFile.neutral_exportLines h.className⟩
  have woven := (woven_classComment v.description).append
    (.code declaration (.of_neutral (List.forall_mem_append.mpr ⟨constants, closing⟩)))
  refine isWoven_of_head [] ?_ nofun (isHead_classComment v.description _ _ ?_)
    (by simpa [comments, JavascriptFile.comments] using woven)
  · simp [lines, JavascriptFile.lines, JavascriptFile.enumerationLines]
  · simp [isHead]

theorem isWoven_phpEntity (space common : String) :
    IsWoven (.php (.entity space common v)) := by
  have declaration : Neutral ("class " ++ v.className ++ " extends " ++ v.base.name) :=
    .append (neutral_word h.className (by decide) (by decide)) (neutral_of_isWord h.base)
  have members : Woven (PhpFile.separated (v.item.toList.map PhpFile.itemLines ++
      v.properties.map PhpFile.propertyLines))
      (v.properties.flatMap (Comment.ofProperty .php)) := by
    have items : List.Forall₂ Woven (v.item.toList.map PhpFile.itemLines)
        (v.item.toList.map fun _ => []) := by
      rw [List.forall₂_map_left_iff, List.forall₂_map_right_iff, List.forall₂_same]
      exact fun i hi => .of_neutral (PhpFile.neutral_itemLines (h.item i (Option.mem_toList.mp hi)))
    have properties : List.Forall₂ Woven (v.properties.map PhpFile.propertyLines)
        (v.properties.map (Comment.ofProperty .php)) := by
      rw [List.forall₂_map_left_iff, List.forall₂_map_right_iff, List.forall₂_same]
      exact fun w hw => PhpFile.woven_propertyLines (h.properties w hw)
    have woven := PhpFile.woven_separated (List.rel_append items properties)
    simpa [List.flatMap_def] using woven
  have woven := (woven_classComment v.description).append
    (.code declaration (.code (by decide : Neutral "\x7b")
      (members.append (.code (by decide : Neutral "\x7d") .nil))))
  refine isWoven_of_head (PhpFile.header (PhpFile.entitySpace space) ++
    (PhpFile.entity space common v).uses.map (·.line) ++
    (if v.base.isCommon || v.usesDate then [""] else [])) ?_ ?_
    (isHead_classComment v.description _ _ ?_)
    (by simpa [comments, PhpFile.comments] using woven)
  · simp [lines, PhpFile.lines, PhpFile.space?, PhpFile.body, PhpFile.entityLines]
  · have gap : ∀ line ∈ (if v.base.isCommon || v.usesDate then [""] else []),
        isHead line = true := by
      split <;> decide
    simp only [List.forall_mem_append]
    exact ⟨⟨isHead_header _, isHead_uses _⟩, gap⟩
  · simp [isHead]

theorem isWoven_phpEnumeration (space : String) : IsWoven (.php (.enumeration space v)) := by
  have declaration : Neutral ("class " ++ v.className) :=
    .append (by decide) (neutral_of_isWord h.className)
  have constants : ∀ line ∈ v.cases.map fun c =>
      "    const " ++ c.constant ++ " = " ++ c.literal ++ ";", Neutral line := by
    intro line hl
    obtain ⟨c, hc, rfl⟩ := List.mem_map.mp hl
    exact (neutral_quote c.value).between _ _
      ((h.cases c hc).neutral.between _ _ (by decide) (by decide)) (by decide)
  have closing : ∀ line ∈ ["\x7d"], Neutral line := by decide
  have woven := (woven_classComment v.description).append
    (.code declaration (.code (by decide : Neutral "\x7b")
      (.of_neutral (List.forall_mem_append.mpr ⟨constants, closing⟩))))
  refine isWoven_of_head (PhpFile.header (PhpFile.entitySpace space)) ?_ (isHead_header _)
    (isHead_classComment v.description _ _ ?_)
    (by simpa [comments, PhpFile.comments] using woven)
  · simp [lines, PhpFile.lines, PhpFile.space?, PhpFile.body, PhpFile.enumerationLines]
  · simp [isHead]

end Entity

section Client

variable {v : ClientView} (className : IsWord v.className) (methods : ∀ m ∈ v.methods, m.IsPlain)
include className methods

theorem isWoven_javascriptClient (common : String) : IsWoven (.javascript (.client common v)) := by
  have declaration := neutral_word (s := "class ") (u := " \x7b") className (by decide) (by decide)
  have members : Woven (v.methods.flatMap JavascriptFile.methodLines)
      (v.methods.map (Comment.ofMethod .javascript)) := by
    rw [List.map_eq_flatMap]
    exact .flatMap fun m hm => JavascriptFile.woven_methodLines (methods m hm)
  have closing : Woven (["\x7d"] ++ JavascriptFile.exportLines v.className) [] :=
    .of_neutral (List.forall_mem_append.mpr
      ⟨by decide, JavascriptFile.neutral_exportLines className⟩)
  have start : Woven ([""] ++ ((Comment.mk true ["@param \x7bClientWrapper\x7d client"]).source ++
      ["    constructor(client) \x7b", "        this.client = client;", "    \x7d"]))
      [⟨true, ["@param \x7bClientWrapper\x7d client"]⟩] :=
    .around _ (by decide) (.of_neutral (by decide))
  have woven := Woven.code declaration (start.append (members.append closing))
  refine isWoven_of_head ([(JavascriptFile.requestImport common).line] ++
    (if v.imports.isEmpty then [] else [""]) ++ (JavascriptFile.clientImports v).map (·.line) ++
    [""]) ?_ ?_ ?_ (by simpa [comments, JavascriptFile.comments] using woven)
  · simp [lines, JavascriptFile.lines, JavascriptFile.clientLines]
    rfl
  · have gap : ∀ line ∈ (if v.imports.isEmpty then [] else [""]), isHead line = true := by
      split <;> decide
    have first : ∀ line ∈ [(JavascriptFile.requestImport common).line], isHead line = true :=
      List.forall_mem_singleton.mpr (isHead_import _)
    simp only [List.forall_mem_append]
    exact ⟨⟨⟨first, gap⟩, isHead_imports _⟩, by decide⟩
  · simp [isHead]

theorem isWoven_phpClient (space common : String) : IsWoven (.php (.client space common v)) := by
  have declaration : Neutral ("class " ++ v.className) :=
    .append (by decide) (neutral_of_isWord className)
  have members : Woven (v.methods.flatMap PhpFile.methodLines)
      (v.methods.map (Comment.ofMethod .php)) := by
    rw [List.map_eq_flatMap]
    exact .flatMap fun m hm => PhpFile.woven_methodLines (methods m hm)
  have start : Woven ["\x7b", "    private $apiClient;", "",
      "    public function __construct(ApiClient $apiClient)", "    \x7b",
      "        $this->apiClient = $apiClient;", "    \x7d"] [] :=
    .of_neutral (by decide)
  have closing : Woven ["\x7d"] [] := .of_neutral (by decide)
  have woven := Woven.code declaration (start.append (members.append closing))
  refine isWoven_of_head (PhpFile.header (PhpFile.serviceSpace space) ++
    (PhpFile.client space common v).uses.map (·.line) ++ [""]) ?_ ?_ ?_
    (by simpa [comments, PhpFile.comments] using woven)
  · simp [lines, PhpFile.lines, PhpFile.space?, PhpFile.body, PhpFile.clientLines]
  · simp only [List.forall_mem_append]
    exact ⟨⟨isHead_header _, isHead_uses _⟩, by decide⟩
  · simp [isHead]

end Client

end SourceFile

end ClientForge.Emission
