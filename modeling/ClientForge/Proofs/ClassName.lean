import ClientForge.Proofs.Binding
import ClientForge.Proofs.Emitted
import ClientForge.Proofs.Identifier

/-!
# Names of declared classes

The file of an entity, of an enumeration and of a client declares one class, or one constant
that takes the place of a class, and its name can be read off the line that declares it. The
name is made of the words of a type or of a client and is used as it comes out. So the classes
of a tree are identifiers exactly if the name of every type leads with a letter and the name of
no client leads with a digit; the name of a client may be without words, since its class ends
in a word of its own.
-/

namespace ClientForge

namespace Naming

open ClientForge.Text

/-- The class of a client is an identifier exactly if the client does not lead with a digit. -/
theorem isIdentifier_clientClass_iff {client : String} :
    IsIdentifier (clientClass client) ↔ ∀ c ∈ leading? client, isAsciiLetter c = true := by
  have head : (clientClass client).toList.head?.any isAsciiLetter =
      ((leading? client).map capital).all isAsciiLetter := by
    rw [clientClass, String.toList_append, List.head?_append, head?_pascal]
    cases leading? client with
    | none => rfl
    | some c => rfl
  rw [isIdentifier_iff_of_isWord (isWord_clientClass client), head]
  cases leading? client with
  | none => simp
  | some c => simp [isAsciiLetter_capital]

end Naming

namespace Emission

open ClientForge.Naming ClientForge.Outcome ClientForge.Text

variable {e : Emitter} {index definitions : List Definition} {actions : List Action}
  {tree : Tree} {file : SourceFile}

namespace JavascriptFile

/-- The class that a line declares, or the constant that takes the place of one. -/
def classOf? (line : String) : Option String :=
  ((behind? "class" line).or (behind? "const" line)).bind (·.head?)

/-- The classes that the lines of a file declare. -/
def classes (f : JavascriptFile) : List String := f.lines.filterMap classOf?

theorem opensStatement_of_classOf? {line name : String} (h : classOf? line = some name) :
    opensStatement line = true := by
  obtain ⟨words, found, -⟩ := Option.bind_eq_some_iff.mp h
  rcases Option.or_eq_some_iff.mp found with declares | ⟨-, declares⟩
  · exact opensStatement_of_split (split_of_behind? declares) (by decide)
  · exact opensStatement_of_split (split_of_behind? declares) (by decide)

theorem classOf?_import (i : Import) : classOf? i.line = none := by
  have shape : i.line = "import" ++ " " ++ ((if i.named then braced (" " ++ i.binding ++ " ")
      else i.binding) ++ " from '" ++ i.source ++ "';") := by
    simp only [Import.line, String.append_assoc]
    rfl
  rw [classOf?, shape, behind?_append (by decide), behind?_append (by decide),
    if_neg (by decide), if_neg (by decide)]
  rfl

theorem classOf?_keyword {keyword name : String} (rest : String)
    (known : keyword = "class" ∨ keyword = "const") (word : IsWord name) :
    classOf? (keyword ++ " " ++ name ++ " " ++ rest) = some name := by
  have blank : ' ' ∉ keyword.toList := by
    rcases known with rfl | rfl <;> decide
  have words := split_words blank (word.notMem (by decide)) rest
  simp only [classOf?, behind?, words]
  rcases known with rfl | rfl
  · rfl
  · rfl

/-- The one class that a file declares is read off its lines. -/
theorem classes_eq {f : JavascriptFile} (words : ∀ name ∈ f.declares?, IsWord name) :
    f.classes = f.declares?.toList := by
  have imported : (f.imports.map (·.line)).filterMap classOf? = [] := by
    rw [List.filterMap_map, List.filterMap_eq_nil_iff]
    exact fun i _ => classOf?_import i
  have declared : f.declarationLine?.toList.filterMap classOf? = f.declares?.toList := by
    cases found : f.declarationLine? with
    | none =>
        rw [declares?_eq_none found]
        rfl
    | some line =>
        obtain ⟨keyword, name, rest, known, declares, rfl⟩ :=
          exists_words_of_declarationLine? found
        have read := classOf?_keyword rest known (words name declares)
        simp [declares, read]
  rw [classes, ← filterMap_filter_opensStatement fun _ _ => opensStatement_of_classOf?,
    filter_opensStatement, List.filterMap_append, imported, declared, List.nil_append]

end JavascriptFile

namespace SourceFile

/-- The class or constant that a file declares. -/
def declares? : SourceFile → Option String
  | javascript f => f.declares?
  | php f => f.declares?

/-- The classes that the lines of a file declare. -/
def classes : SourceFile → List String
  | javascript f => f.classes
  | php f => f.classes

theorem classes_eq (words : ∀ name ∈ file.declares?, IsWord name) :
    file.classes = file.declares?.toList := by
  cases file with
  | javascript f => exact JavascriptFile.classes_eq words
  | php f => exact PhpFile.classes_eq words

end SourceFile

/-- The file of a definition declares the class of the type. -/
theorem classes_of_entitySource {d : Definition} (source : entitySource e index d = .ok file) :
    file.classes = [className d.name] := by
  obtain ⟨v, view, same⟩ := exists_view_of_entitySource source
  have declared : file.declares? = some (className d.name) := by
    rw [← view.className]
    rcases same with rfl | ⟨space, rfl⟩
    · split
      · rfl
      · rfl
    · split
      · rfl
      · rfl
  have word : ∀ name ∈ file.declares?, IsWord name := by
    rw [declared]
    rintro _ ⟨⟩
    exact isWord_className d.name
  rw [SourceFile.classes_eq word, declared, Option.toList_some]

/-- The file of a client declares the class of the client. -/
theorem classes_of_clientSource {client : String}
    (source : clientSource e index client actions = .ok file) :
    file.classes = [clientClass client] := by
  obtain ⟨v, view, same⟩ := exists_view_of_clientSource source
  have declared : file.declares? = some (clientClass client) := by
    rw [← view.className]
    rcases same with ⟨-, rfl⟩ | ⟨-, space, rfl⟩
    · rfl
    · rfl
  have word : ∀ name ∈ file.declares?, IsWord name := by
    rw [declared]
    rintro _ ⟨⟩
    exact isWord_clientClass client
  rw [SourceFile.classes_eq word, declared, Option.toList_some]

/-- The files that every package has declare classes with names of their own. -/
theorem isIdentifier_of_supportFiles {clients : List String} {support : Tree}
    (made : supportFiles e index clients = .ok support) :
    ∀ entry ∈ support, ∀ name ∈ entry.2.classes, IsIdentifier name := by
  have own : ∀ name ∈ ["DateFactory", "ClientFactory"], IsWord name ∧ IsIdentifier name := by
    decide
  have known : ∀ entry ∈ support, ∀ name ∈ entry.2.declares?,
      name ∈ ["DateFactory", "ClientFactory"] := by
    cases l : e.language with
    | javascript =>
        obtain ⟨name, version, rfl⟩ := supportFiles_javascript l made
        simp [SourceFile.declares?, JavascriptFile.declares?]
    | php =>
        obtain ⟨space, name, version, requirement, baseUrl, -, rfl⟩ := supportFiles_php l made
        simp [SourceFile.declares?, PhpFile.declares?]
  intro entry he name declared
  rw [SourceFile.classes_eq fun name h => (own name (known entry he name h)).1] at declared
  exact (own name (known entry he name (Option.mem_toList.mp declared))).2

/-- The classes that the files of a rendered tree declare are identifiers exactly if the name of
every type leads with a letter and the name of every client leads with one or has no words. -/
theorem render_classes_isIdentifier_iff (rendered : render e definitions actions = .ok tree) :
    (∀ entry ∈ tree, ∀ name ∈ entry.2.classes, IsIdentifier name) ↔
      (∀ d ∈ definitions, LeadsWithLetter d.name) ∧
        ∀ a ∈ actions, ∀ c ∈ leading? a.client, isAsciiLetter c = true := by
  obtain ⟨-, entities, clients, support, rfl, parts⟩ := render_eq_ok.mp rendered
  constructor
  · intro all
    constructor
    · intro d hd
      obtain ⟨file, source, there⟩ := parts.exists_entity hd
      refine isIdentifier_className_iff.mp (all _ there _ ?_)
      rw [classes_of_entitySource source]
      exact List.mem_singleton_self _
    · intro a ha
      obtain ⟨group, hg, -⟩ := exists_group ha
      obtain ⟨file, source, there⟩ := parts.exists_client hg
      refine isIdentifier_clientClass_iff.mp (all _ there _ ?_)
      rw [classes_of_clientSource source]
      exact List.mem_singleton_self _
  · rintro ⟨types, clients_⟩ entry there name declared
    rcases parts.cases_of_mem there with ⟨d, hd, -, source⟩ | ⟨group, hg, -, -, source⟩ | other
    · rw [classes_of_entitySource source] at declared
      obtain rfl := List.mem_singleton.mp declared
      exact isIdentifier_className_iff.mpr (types d hd)
    · rw [classes_of_clientSource source] at declared
      obtain rfl := List.mem_singleton.mp declared
      obtain ⟨a, ha, same⟩ := mem_names_groupByClient.mp (List.mem_map_of_mem hg)
      rw [← same]
      exact isIdentifier_clientClass_iff.mpr (clients_ a ha)
    · exact isIdentifier_of_supportFiles parts.others entry other name declared

/-- A type of two words, and a client that is named by a sign. -/
theorem money_amount_classes : ∃ tree,
    render ⟨⟨.php, .str "acme", .str "bank", .null⟩, .str "Lib", .str "", .str "1", true⟩
      [{ name := "money amount" }] [{ client := "*", path := "/sums" }] = .ok tree ∧
    ∀ entry ∈ tree, ∀ name ∈ entry.2.classes, IsIdentifier name := by
  have rendered : render
      ⟨⟨.php, .str "acme", .str "bank", .null⟩, .str "Lib", .str "", .str "1", true⟩
      [{ name := "money amount" }] [{ client := "*", path := "/sums" }] = .ok _ := rfl
  refine ⟨_, rendered, (render_classes_isIdentifier_iff rendered).mpr ⟨by decide, ?_⟩⟩
  intro a ha
  obtain rfl := List.mem_singleton.mp ha
  have wordless : leading? "*" = none := by decide
  rw [wordless]
  rintro _ ⟨⟩

/-- A type that leads with a digit declares a class that does so, and a type named by a sign one
without a name. -/
theorem classes_without_identifier : ∃ tree digit sign,
    render ⟨⟨.javascript, .str "", .str "bank", .null⟩, .str "common", .str "", .str "1", true⟩
      [{ name := "2fa" }, { name := "-" }] [] = .ok tree ∧
    ("src/entity/2Fa.js", .javascript digit) ∈ tree ∧
      "class 2Fa extends Entity \x7b" ∈ digit.lines ∧ digit.classes = ["2Fa"] ∧
      ¬ IsIdentifier "2Fa" ∧
    ("src/entity/.js", .javascript sign) ∈ tree ∧
      "class  extends Entity \x7b" ∈ sign.lines ∧ sign.classes = [""] ∧ ¬ IsIdentifier "" := by
  refine ⟨_, _, _, rfl, .head _, by decide, ?_, by decide, .tail _ (.head _), by decide, ?_,
    by decide⟩
  · exact JavascriptFile.classes_eq (by decide)
  · exact JavascriptFile.classes_eq (by decide)

end Emission

end ClientForge
