import ClientForge.Emission.PhpFile
import ClientForge.Proofs.Imports
import ClientForge.Proofs.ModuleText

/-!
# The text of a class file

A file of a PHP package holds one class. Below the opening tag it declares its namespace,
names what it uses and declares the class; whatever else stands in it is indented or
opens with a sign. So these three kinds of statements can be read back off the lines, as
the language reads them, and nothing of the specification can pass for one.
-/

namespace ClientForge.Emission

open ClientForge.Text

/-- The words behind a keyword at the head of a line. -/
def behind? (keyword line : String) : Option (List String) :=
  match split ' ' line with
  | first :: rest => if first = keyword then some rest else none
  | [] => none

theorem split_of_behind? {keyword line : String} {rest : List String}
    (h : behind? keyword line = some rest) : split ' ' line = keyword :: rest := by
  unfold behind? at h
  split at h
  next first others words =>
    split at h
    next same =>
      obtain rfl := Option.some.inj h
      rw [words, same]
    next => cases h
  next => cases h

theorem behind?_append {keyword : String} (blank : ' ' ∉ keyword.toList) (other rest : String) :
    behind? other (keyword ++ " " ++ rest) =
      if keyword = other then some (split ' ' rest) else none := by
  have words : split ' ' (keyword ++ " " ++ rest) = keyword :: split ' ' rest := split_append blank
  rw [behind?, words]

theorem takeWhile_append_cons {α : Type} {p : α → Bool} {body : List α} {stop : α}
    (inside : ∀ x ∈ body, p x = true) (outside : p stop = false) (rest : List α) :
    (body ++ stop :: rest).takeWhile p = body := by
  rw [List.takeWhile_append_of_pos inside, List.takeWhile_cons_of_neg (by simp [outside]),
    List.append_nil]

namespace PhpFile

/-- The namespace that a line declares. -/
def namespaceOf? (line : String) : Option String :=
  ((behind? "namespace" line).bind (·.head?)).map fun name =>
    String.ofList (name.toList.takeWhile (· ≠ ';'))

/-- The class that a line declares. -/
def classOf? (line : String) : Option String := (behind? "class" line).bind (·.head?)

/-- The short name under which a line makes something known: what stands behind its last
separator, without the semicolon. -/
def usedOf? (line : String) : Option String :=
  (behind? "use" line).map fun _ =>
    String.ofList ((line.toList.reverse.drop 1).takeWhile fun c => c ≠ '\x5c' ∧ c ≠ ' ').reverse

/-- The namespaces that the lines of a file declare. -/
def namespaces (f : PhpFile) : List String := f.lines.filterMap namespaceOf?

/-- The classes that the lines of a file declare. -/
def classes (f : PhpFile) : List String := f.lines.filterMap classOf?

/-- The short names that the lines of a file make known. -/
def shortNames (f : PhpFile) : List String := f.lines.filterMap usedOf?

/-- The line that declares the namespace of a file. -/
def spaceLine? (f : PhpFile) : Option String := f.space?.map fun s => "namespace " ++ s ++ ";"

/-- The line that declares the class of a file. -/
def declarationLine? : PhpFile → Option String
  | entity _ _ v => some ("class " ++ v.className ++ " extends " ++ v.base.name)
  | enumeration _ v => some ("class " ++ v.className)
  | client _ _ v => some ("class " ++ v.className)
  | dateFactory _ => some "class DateFactory"
  | clientFactory _ _ _ _ => some "class ClientFactory extends ClientFactoryAbstract"
  | manifest _ _ _ _ => none

/-- Between blocks there are empty lines only. -/
theorem forall_mem_separated {P : String → Prop} (gap : P "") {blocks : List (List String)}
    (h : ∀ block ∈ blocks, ∀ line ∈ block, P line) : ∀ line ∈ separated blocks, P line := by
  fun_induction separated blocks with
  | case1 => exact List.forall_mem_nil P
  | case2 block => exact h block List.mem_cons_self
  | case3 block rest _ ih =>
      obtain ⟨first, others⟩ := List.forall_mem_cons.mp h
      exact List.forall_mem_append.mpr ⟨first, List.forall_mem_cons.mpr ⟨gap, ih others⟩⟩

theorem plain_separated {blocks : List (List String)} (h : ∀ block ∈ blocks, Plain block) :
    Plain (separated blocks) :=
  forall_mem_separated (by decide) h

theorem plain_body (b : Body) : Plain b.phpLines := by
  cases b <;> simp [Plain, Body.phpLines, opensStatement]

theorem plain_itemLines (i : ItemView) : Plain (itemLines i) := by
  simp only [itemLines, plain_append, plain_body]
  simp [Plain, opensStatement]

theorem plain_propertyLines (w : PropertyView) : Plain (propertyLines w) := by
  simp only [propertyLines, plain_append, plain_body, plain_memberComment]
  split <;> simp [Plain, opensStatement]

theorem plain_methodLines (m : MethodView) : Plain (methodLines m) := by
  have reply : Plain (replyLines m.reply) := by
    unfold replyLines
    split <;> simp [Plain, opensStatement]
  simp only [methodLines, plain_append, plain_memberComment, reply]
  simp [Plain, opensStatement]

theorem plain_factoryMethodLines (client : String) : Plain (factoryMethodLines client) := by
  simp [Plain, factoryMethodLines, opensStatement]

theorem opensStatement_use (u : Use) : opensStatement u.line = true := by
  simp [opensStatement, Use.line]

theorem filter_uses (uses : List Use) :
    (uses.map (·.line)).filter opensStatement = uses.map (·.line) := by
  refine List.filter_eq_self.mpr fun line hl => ?_
  obtain ⟨u, -, rfl⟩ := List.mem_map.mp hl
  exact opensStatement_use u

theorem filter_header (space : String) :
    (header space).filter opensStatement = ["namespace " ++ space ++ ";"] := by
  have opens : opensStatement ("namespace " ++ space ++ ";") = true := by simp [opensStatement]
  have opening : Plain ["<?php", ""] := by decide
  have gap : Plain [""] := by decide
  change (["<?php", ""] ++ ("namespace " ++ space ++ ";") :: [""]).filter opensStatement = _
  rw [List.filter_append, opening.filter, List.filter_cons_of_pos opens, gap.filter,
    List.nil_append]

/-- The statements below the namespace are the uses of a file and what it declares. -/
theorem filter_body (f : PhpFile) :
    f.body.filter opensStatement = f.uses.map (·.line) ++ f.declarationLine?.toList := by
  have opening : opensStatement "\x7b" = false := by decide
  have closing : Plain ["\x7d"] := by decide
  cases f with
  | entity space common v =>
      have gap : Plain (if v.base.isCommon || v.usesDate then [""] else []) := by
        split <;> decide
      have declared : opensStatement ("class " ++ v.className ++ " extends " ++ v.base.name) =
          true := by
        simp [opensStatement]
      have members : Plain (separated (v.item.toList.map itemLines ++
          v.properties.map propertyLines)) := by
        refine plain_separated fun block hb => ?_
        rcases List.mem_append.mp hb with hb | hb
        · obtain ⟨i, -, rfl⟩ := List.mem_map.mp hb
          exact plain_itemLines i
        · obtain ⟨p, -, rfl⟩ := List.mem_map.mp hb
          exact plain_propertyLines p
      simp only [body, entityLines, List.filter_append, filter_uses, gap.filter,
        (plain_classComment _).filter, members.filter, closing.filter,
        List.filter_cons_of_pos declared, List.append_nil]
      rfl
  | enumeration space v =>
      have declared : opensStatement ("class " ++ v.className) = true := by
        simp [opensStatement]
      have cases_ : Plain (v.cases.map fun c => "    const " ++ c.constant ++ " = " ++ c.literal ++
          ";") :=
        plain_map (fun c => by simp [opensStatement]) v.cases
      simp only [body, enumerationLines, List.filter_append, (plain_classComment _).filter,
        cases_.filter, closing.filter, List.filter_cons_of_pos declared, List.append_nil,
        List.nil_append]
      rfl
  | client space common v =>
      have declared : opensStatement ("class " ++ v.className) = true := by
        simp [opensStatement]
      have head : Plain ["\x7b", "    private $apiClient;", "",
          "    public function __construct(ApiClient $apiClient)", "    \x7b",
          "        $this->apiClient = $apiClient;", "    \x7d"] := by
        decide
      simp only [body, clientLines, List.filter_append, filter_uses, closing.filter,
        List.filter_cons_of_neg (show ¬ opensStatement "" = true by decide),
        List.filter_cons_of_pos declared, head.filter,
        (plain_flatMap plain_methodLines _).filter, List.append_nil]
      rfl
  | dateFactory space =>
      have members : Plain (dateFactoryLines.drop 1) := by
        simp [Plain, opensStatement, dateFactoryLines]
      exact congrArg ("class DateFactory" :: ·) members.filter
  | clientFactory space common baseUrl clients =>
      have declared :
          opensStatement "class ClientFactory extends ClientFactoryAbstract" = true := by
        decide
      have head : Plain ["\x7b",
          "    const DEFAULT_BASE_URL = " ++ Literal.quote baseUrl ++ ";", "",
          "    private $apiClient;", "", "    public function __construct($options)", "    \x7b",
          "        $this->apiClient = $this->createApiClient($options);", "    \x7d"] := by
        simp [Plain, opensStatement]
      simp only [body, clientFactoryLines, List.filter_append, filter_uses, closing.filter,
        List.filter_cons_of_neg (show ¬ opensStatement "" = true by decide),
        List.filter_cons_of_pos declared, head.filter,
        (plain_flatMap plain_factoryMethodLines _).filter, List.append_nil]
      rfl
  | manifest packageName version requirement autoload =>
      have plain : Plain (manifestLines packageName version requirement autoload) := by
        simp [Plain, opensStatement, manifestLines]
      exact plain.filter

/-- The statements of a file are its namespace, its uses and what it declares, in this
order. -/
theorem filter_opensStatement (f : PhpFile) :
    f.lines.filter opensStatement =
      f.spaceLine?.toList ++ (f.uses.map (·.line) ++ f.declarationLine?.toList) := by
  rw [lines, List.filter_append, filter_body, spaceLine?]
  cases f.space? with
  | none => rfl
  | some space => exact congrArg (· ++ _) (filter_header space)

/-- The short names that a file makes known by its uses. -/
def imported : PhpFile → List String
  | entity _ _ v => v.base.library?.toList ++ (if v.usesDate then ["DateFactory"] else [])
  | client _ _ v =>
    ["RequestMethodInterface", "ApiClient"] ++ (if v.imports.isEmpty then [] else ["Entities"])
  | clientFactory _ _ _ _ => ["ClientFactoryAbstract"]
  | _ => []

/-- The short name of a use is the word behind its last separator. -/
theorem usedOf?_eq {line name : String} {sep : Char} (before : String)
    (known : sep = '\x5c' ∨ sep = ' ') (word : Naming.IsWord name)
    (shape : line = "use " ++ (before ++ String.singleton sep ++ name) ++ ";") :
    usedOf? line = some name := by
  have words : behind? "use" line =
      some (split ' ' (before ++ String.singleton sep ++ name ++ ";")) := by
    have keyword : line = "use" ++ " " ++ (before ++ String.singleton sep ++ name ++ ";") := by
      rw [shape]
      simp only [String.append_assoc]
      rfl
    rw [keyword, behind?_append (by decide), if_pos rfl]
  have chars : line.toList.reverse.drop 1 =
      name.toList.reverse ++ sep :: (before.toList.reverse ++ [' ', 'e', 's', 'u']) := by
    rw [shape]
    simp
  rw [usedOf?, words, Option.map_some, chars, takeWhile_append_cons, List.reverse_reverse,
    String.ofList_toList]
  · intro c hc
    have letter := word c (List.mem_reverse.mp hc)
    refine decide_eq_true ⟨?_, ?_⟩ <;> · rintro rfl; exact absurd letter (by decide)
  · rcases known with rfl | rfl <;> decide

/-- A class is known by the last part of its name. -/
theorem usedOf?_class {full : String} (space : String) {name : String}
    (parts : full = space ++ ("\\" ++ name)) (word : Naming.IsWord name) :
    usedOf? (Use.mk full none).line = some name := by
  refine usedOf?_eq space (.inl rfl) word ?_
  simp only [Use.line, parts, Option.map_none, Option.getD_none, String.append_empty,
    String.append_assoc]
  rfl

/-- A namespace is known by the name that it is given. -/
theorem usedOf?_alias (space : String) {name : String} (word : Naming.IsWord name) :
    usedOf? (Use.mk space (some name)).line = some name := by
  refine usedOf?_eq (space ++ " as") (.inr rfl) word ?_
  simp only [Use.line, Option.map_some, Option.getD_some, String.append_assoc]
  rfl

theorem filterMap_uses {f : PhpFile} (known : ∀ name ∈ f.imported, Naming.IsWord name) :
    (f.uses.map (·.line)).filterMap usedOf? = f.imported := by
  -- The name of a class of the library, cut before its last separator.
  have library (common folder name : String) :
      common ++ (folder ++ "\\" ++ name) = common ++ folder ++ ("\\" ++ name) := by
    simp only [String.append_assoc]
  rw [List.filterMap_map]
  cases f with
  | entity space common v =>
      have date : usedOf? (Use.mk (serviceSpace space ++ "\\DateFactory") none).line =
          some "DateFactory" := usedOf?_class (serviceSpace space) rfl (by decide)
      have base (name : String) (word : Naming.IsWord name) :
          usedOf? (Use.mk (common ++ "\\Entity\\" ++ name) none).line = some name := by
        refine usedOf?_class (common ++ "\\Entity") ?_ word
        rw [String.append_assoc]
        exact library common "\\Entity" name
      cases extends_ : v.base with
      | generated _ =>
          by_cases uses : v.usesDate = true <;>
            simp [PhpFile.uses, imported, BaseClass.library?, extends_, uses, date]
      | common name =>
          have word : Naming.IsWord name :=
            known name (by simp [imported, BaseClass.library?, extends_])
          by_cases uses : v.usesDate = true <;>
            simp [PhpFile.uses, imported, BaseClass.library?, extends_, uses, base name word, date]
  | client space common v =>
      have request : usedOf? (Use.mk "Fig\\Http\\Message\\RequestMethodInterface" none).line =
          some "RequestMethodInterface" := usedOf?_class "Fig\\Http\\Message" rfl (by decide)
      have client : usedOf? (Use.mk (common ++ "\\Client\\ApiClient") none).line =
          some "ApiClient" :=
        usedOf?_class (common ++ "\\Client") (library common "\\Client" "ApiClient") (by decide)
      have entities : usedOf? (Use.mk (entitySpace space) (some "Entities")).line =
          some "Entities" := usedOf?_alias _ (by decide)
      by_cases alone : v.imports.isEmpty = true <;>
        simp [PhpFile.uses, imported, alone, request, client, entities]
  | clientFactory space common baseUrl clients =>
      have base : usedOf? (Use.mk (common ++ "\\Client\\ClientFactoryAbstract") none).line =
          some "ClientFactoryAbstract" :=
        usedOf?_class (common ++ "\\Client") (library common "\\Client" "ClientFactoryAbstract")
          (by decide)
      simp [PhpFile.uses, imported, base]
  | _ => rfl

/-- Whether a reader finds something only in lines that open with a keyword. -/
def ReadsBehind (keyword : String) (read : String → Option String) : Prop :=
  ∀ line x, read line = some x → ∃ rest, behind? keyword line = some rest

theorem readsBehind_namespaceOf? : ReadsBehind "namespace" namespaceOf? := by
  intro line name h
  obtain ⟨first, found, -⟩ := Option.map_eq_some_iff.mp h
  obtain ⟨rest, words, -⟩ := Option.bind_eq_some_iff.mp found
  exact ⟨rest, words⟩

theorem readsBehind_classOf? : ReadsBehind "class" classOf? := by
  intro line name h
  obtain ⟨rest, words, -⟩ := Option.bind_eq_some_iff.mp h
  exact ⟨rest, words⟩

theorem readsBehind_usedOf? : ReadsBehind "use" usedOf? := by
  intro line name h
  obtain ⟨rest, words, -⟩ := Option.map_eq_some_iff.mp h
  exact ⟨rest, words⟩

namespace ReadsBehind

variable {keyword : String} {read : String → Option String} (reads : ReadsBehind keyword read)
include reads

/-- A reader finds nothing in lines that open with other keywords. -/
theorem filterMap_eq_nil {lines : List String}
    (other : ∀ line ∈ lines, behind? keyword line = none) : lines.filterMap read = [] := by
  refine List.filterMap_eq_nil_iff.mpr fun line hl => ?_
  cases found : read line with
  | none => rfl
  | some x =>
      obtain ⟨rest, words⟩ := reads line x found
      rw [other line hl] at words
      cases words

/-- A reader of statements finds in a file what it finds in its statements. -/
theorem filterMap_lines (opens : opensStatement keyword = true) (f : PhpFile) :
    f.lines.filterMap read = f.spaceLine?.toList.filterMap read ++
      ((f.uses.map (·.line)).filterMap read ++ f.declarationLine?.toList.filterMap read) := by
  have statements (line x : String) (h : read line = some x) : opensStatement line = true := by
    obtain ⟨rest, words⟩ := reads line x h
    exact opensStatement_of_split (split_of_behind? words) opens
  rw [← filterMap_filter_opensStatement statements, filter_opensStatement, List.filterMap_append,
    List.filterMap_append]

end ReadsBehind

theorem behind?_uses {f : PhpFile} {keyword : String} (different : "use" ≠ keyword) :
    ∀ line ∈ f.uses.map (·.line), behind? keyword line = none := by
  intro line hl
  obtain ⟨u, -, rfl⟩ := List.mem_map.mp hl
  have shape : u.line =
      "use" ++ " " ++ (u.name ++ ((u.alias?.map (" as " ++ ·)).getD "") ++ ";") := by
    simp only [Use.line, String.append_assoc]
    rfl
  rw [shape, behind?_append (by decide), if_neg different]

theorem spaceLine_eq (space : String) :
    "namespace " ++ space ++ ";" = "namespace" ++ " " ++ (space ++ ";") := by
  simp only [String.append_assoc]
  rfl

theorem behind?_spaceLine? {f : PhpFile} {keyword : String} (different : "namespace" ≠ keyword) :
    ∀ line ∈ f.spaceLine?.toList, behind? keyword line = none := by
  intro line hl
  obtain ⟨space, -, rfl⟩ := Option.map_eq_some_iff.mp (Option.mem_toList.mp hl)
  rw [spaceLine_eq, behind?_append (by decide), if_neg different]

/-- The line of a declaration opens with the keyword and the class. -/
theorem exists_split_declarationLine? {f : PhpFile} {line : String}
    (words : ∀ name ∈ f.declares?, Naming.IsWord name) (h : f.declarationLine? = some line) :
    ∃ name rest, f.declares? = some name ∧ split ' ' line = "class" :: name :: rest := by
  have extending {name : String} (word : Naming.IsWord name) (base : String) :
      split ' ' ("class " ++ name ++ " extends " ++ base) =
        "class" :: name :: split ' ' ("extends " ++ base) := by
    have shape : "class " ++ name ++ " extends " ++ base =
        "class" ++ " " ++ name ++ " " ++ ("extends " ++ base) := by
      simp only [String.append_assoc]
      rfl
    rw [shape, split_words (by decide) (word.notMem (by decide))]
  have alone {name : String} (word : Naming.IsWord name) :
      split ' ' ("class " ++ name) = ["class", name] := by
    have shape : "class " ++ name = "class" ++ String.singleton ' ' ++ name := rfl
    rw [shape, split_append (by decide), split_of_notMem (word.notMem (by decide))]
  cases f with
  | entity space common v =>
      obtain rfl := Option.some.inj h
      exact ⟨_, _, rfl, extending (words _ rfl) _⟩
  | enumeration space v =>
      obtain rfl := Option.some.inj h
      exact ⟨_, _, rfl, alone (words _ rfl)⟩
  | client space common v =>
      obtain rfl := Option.some.inj h
      exact ⟨_, _, rfl, alone (words _ rfl)⟩
  | dateFactory space =>
      obtain rfl := Option.some.inj h
      exact ⟨"DateFactory", [], rfl, by decide⟩
  | clientFactory space common baseUrl clients =>
      obtain rfl := Option.some.inj h
      exact ⟨"ClientFactory", ["extends", "ClientFactoryAbstract"], rfl, by decide⟩
  | manifest _ _ _ _ => cases h

theorem declares?_eq_none {f : PhpFile} (h : f.declarationLine? = none) : f.declares? = none := by
  cases f with
  | manifest _ _ _ _ => rfl
  | _ => cases h

theorem behind?_declarationLine? {f : PhpFile} {keyword : String}
    (words : ∀ name ∈ f.declares?, Naming.IsWord name) (different : "class" ≠ keyword) :
    ∀ line ∈ f.declarationLine?.toList, behind? keyword line = none := by
  intro line hl
  obtain ⟨name, rest, -, split⟩ := exists_split_declarationLine? words (Option.mem_toList.mp hl)
  simp [behind?, split, different]

/-- The one class that a file declares is read off its lines. -/
theorem classes_eq {f : PhpFile} (words : ∀ name ∈ f.declares?, Naming.IsWord name) :
    f.classes = f.declares?.toList := by
  have declared : f.declarationLine?.toList.filterMap classOf? = f.declares?.toList := by
    cases found : f.declarationLine? with
    | none =>
        rw [declares?_eq_none found]
        rfl
    | some line =>
        obtain ⟨name, rest, declares, split⟩ := exists_split_declarationLine? words found
        have read : classOf? line = some name := by simp [classOf?, behind?, split]
        simp [declares, read]
  rw [classes, readsBehind_classOf?.filterMap_lines (by decide),
    readsBehind_classOf?.filterMap_eq_nil (behind?_spaceLine? (by decide)),
    readsBehind_classOf?.filterMap_eq_nil (behind?_uses (by decide)), declared, List.nil_append,
    List.nil_append]

/-- The one namespace that a file declares is read off its lines. -/
theorem namespaces_eq {f : PhpFile} (words : ∀ name ∈ f.declares?, Naming.IsWord name)
    (chars : ∀ space ∈ f.space?, ' ' ∉ space.toList ∧ ';' ∉ space.toList) :
    f.namespaces = f.space?.toList := by
  have declared : f.spaceLine?.toList.filterMap namespaceOf? = f.space?.toList := by
    rw [spaceLine?]
    cases found : f.space? with
    | none => rfl
    | some space =>
        obtain ⟨blank, semicolon⟩ := chars space found
        have word : ' ' ∉ (space ++ ";").toList := by simpa using blank
        have whole :
            (space ++ ";").toList.takeWhile (fun c => decide (c ≠ ';')) = space.toList := by
          rw [String.toList_append]
          refine takeWhile_append_cons (fun c hc => ?_) (by decide) []
          exact decide_eq_true fun same => semicolon (same ▸ hc)
        have read : namespaceOf? ("namespace " ++ space ++ ";") = some space := by
          rw [spaceLine_eq, namespaceOf?, behind?_append (by decide), if_pos rfl,
            split_of_notMem word, Option.bind_some, List.head?_cons, Option.map_some, whole,
            String.ofList_toList]
        simp [read]
  rw [namespaces, readsBehind_namespaceOf?.filterMap_lines (by decide), declared,
    readsBehind_namespaceOf?.filterMap_eq_nil (behind?_uses (by decide)),
    readsBehind_namespaceOf?.filterMap_eq_nil (behind?_declarationLine? words (by decide)),
    List.append_nil, List.append_nil]

/-- The short names of what a file uses are read off its lines. -/
theorem shortNames_eq {f : PhpFile} (words : ∀ name ∈ f.declares?, Naming.IsWord name)
    (known : ∀ name ∈ f.imported, Naming.IsWord name) : f.shortNames = f.imported := by
  rw [shortNames, readsBehind_usedOf?.filterMap_lines (by decide), filterMap_uses known,
    readsBehind_usedOf?.filterMap_eq_nil (behind?_spaceLine? (by decide)),
    readsBehind_usedOf?.filterMap_eq_nil (behind?_declarationLine? words (by decide)),
    List.append_nil, List.nil_append]

end PhpFile

end ClientForge.Emission
