import ClientForge.Proofs.Imports
import ClientForge.Proofs.ModuleText
import ClientForge.Proofs.Naming
import ClientForge.Proofs.Rendering

/-!
# The graph of generated modules

The modules of a JavaScript package refer to one another by relative paths. In a tree
that is rendered each of these leads to a file of the same tree, and each class or
helper that a module uses is imported into it or is its own. The runtime library is
imported by name from wherever the settings say, and that can be a relative path too, which
then need not lead to a file of the tree. Two things are not bound by imports: the date
class of the language itself, which only the date helper constructs, and the class `None`
that stands for an innermost element without a class, which is an array that lacks its
items.
-/

namespace ClientForge.Emission

open ClientForge.Outcome ClientForge.Text

/-- One step of a module path: a dot stays in the folder, a double dot leaves it. -/
def enter (folder : List String) (segment : String) : List String :=
  if segment = "." then folder
  else if segment = ".." then folder.dropLast
  else folder ++ [segment]

/-- The file that a module path leads to from the file at another path. The segments
before the last one are followed from the folder of the file; the last one, with the
extension behind it, is the name of the module. -/
def resolve (path source : String) : String :=
  let segments := split '/' source
  let folder := segments.dropLast.foldl enter (split '/' path).dropLast
  "/".intercalate (folder ++ [segments.getLastD ""]) ++ ".js"

/-- Whether a module path is relative: it starts at the folder of the module or above it. -/
def isRelative (source : String) : Bool :=
  (split '/' source).head? == some "." || (split '/' source).head? == some ".."

section Paths

theorem split_dot (source : String) : split '/' ("./" ++ source) = "." :: split '/' source :=
  split_append (s := ".") (by decide)

theorem split_dots (source : String) : split '/' ("../" ++ source) = ".." :: split '/' source :=
  split_append (s := "..") (by decide)

theorem isRelative_dot (source : String) : isRelative ("./" ++ source) = true := by
  simp [isRelative, split_dot]

theorem isRelative_dots (source : String) : isRelative ("../" ++ source) = true := by
  simp [isRelative, split_dots]

theorem sourcePath_eq (folder target : String) :
    Naming.sourcePath .javascript folder target =
      "/".intercalate ["src", folder, target] ++ ".js" := by
  have joined : "/".intercalate ["src", folder, target] =
      "src" ++ "/" ++ folder ++ "/" ++ target := rfl
  simp [joined, Naming.sourcePath, Naming.extension, String.append_assoc]

/-- A path with a dot leads to a neighbour in the same folder. -/
theorem resolve_sibling (folder name target : String) (hf : '/' ∉ folder.toList)
    (hn : '/' ∉ name.toList) (ht : '/' ∉ target.toList) :
    resolve (Naming.sourcePath .javascript folder name) ("./" ++ target) =
      Naming.sourcePath .javascript folder target := by
  rw [sourcePath_eq folder target, resolve, Naming.split_sourcePath _ hf hn, split_dot,
    split_of_notMem ht]
  rfl

/-- A path with a double dot leads to the other folder of sources. -/
theorem resolve_other (folder name other target : String) (hf : '/' ∉ folder.toList)
    (hn : '/' ∉ name.toList) (ho : '/' ∉ other.toList) (plain : other ≠ "." ∧ other ≠ "..")
    (ht : '/' ∉ target.toList) :
    resolve (Naming.sourcePath .javascript folder name)
        ("../" ++ (other ++ String.singleton '/' ++ target)) =
      Naming.sourcePath .javascript other target := by
  rw [sourcePath_eq other target, resolve, Naming.split_sourcePath _ hf hn, split_dots,
    split_append ho, split_of_notMem ht]
  simp [enter, plain]

/-- A path from the index leads into a folder of sources. -/
theorem resolve_index (folder target : String) (hf : '/' ∉ folder.toList)
    (plain : folder ≠ "." ∧ folder ≠ "..")
    (ht : '/' ∉ target.toList) :
    resolve "src/index.js" ("./" ++ (folder ++ String.singleton '/' ++ target)) =
      Naming.sourcePath .javascript folder target := by
  have home : split '/' "src/index.js" = ["src", "index.js"] := by decide
  rw [sourcePath_eq, resolve, home, split_dot, split_append hf, split_of_notMem ht]
  simp [enter, plain]

end Paths

/-- A module is closed in a tree: its own paths are relative and lead to files of the tree,
its named imports come from the runtime library, and its base and the date helper are bound. -/
structure JavascriptFile.IsClosed (common : String) (tree : Tree) (path : String)
    (f : JavascriptFile) : Prop where
  imports : ∀ i ∈ f.imports, i.named = false →
    isRelative i.source = true ∧ resolve path i.source ∈ Table.names tree
  library : ∀ i ∈ f.imports, i.named = true → i.source = common
  base : ∀ cls, f.extends? = some cls → cls ∈ f.bound
  dates : f.callsDateFactory = true → "DateFactory" ∈ f.bound

/-- Every import of a closed module is from the runtime library, or leads to a file. -/
theorem JavascriptFile.IsClosed.resolves {common path : String} {tree : Tree}
    {f : JavascriptFile} (closed : f.IsClosed common tree path) {i : Import} (hi : i ∈ f.imports) :
    resolve path i.source ∈ Table.names tree ∨ (i.named = true ∧ i.source = common) := by
  cases named : i.named with
  | false => exact .inl (closed.imports i hi named).2
  | true => exact .inr ⟨rfl, closed.library i hi named⟩

variable {e : Emitter} {definitions : List Definition} {actions : List Action}
  {entities clients support tree : Tree} {common : String}

section Sources

variable {file : SourceFile} {clientNames : List String}

/-- The module of a definition. -/
theorem entitySource_javascript (js : e.language = .javascript) {d : Definition}
    (source : entitySource e definitions d = .ok file) :
    ∃ v, IsEntityView .javascript definitions d v ∧ file = .javascript
      (if d.kind = .enum then .enumeration v else .entity e.common.text v) := by
  simp only [entitySource, js] at source
  obtain ⟨v, viewed, source⟩ := bind_eq_ok.mp source
  obtain ⟨-, -, source⟩ := bind_eq_ok.mp source
  obtain rfl := Except.ok.inj source
  exact ⟨v, isEntityView viewed, rfl⟩

/-- The module of a client. -/
theorem clientSource_javascript (js : e.language = .javascript) {client : String}
    {group : List Action} (source : clientSource e definitions client group = .ok file) :
    ∃ v, IsClientView .javascript definitions client group v ∧
      file = .javascript (.client e.common.text v) := by
  simp only [clientSource, js] at source
  obtain ⟨v, viewed, source⟩ := bind_eq_ok.mp source
  obtain ⟨common, wrote, source⟩ := bind_eq_ok.mp source
  obtain rfl := text_of_written wrote
  simp only [pure_eq, ok_bind] at source
  split at source
  · cases source
  · obtain rfl := Except.ok.inj source
    exact ⟨v, isClientView viewed, rfl⟩

/-- The modules that every package has, and its manifest. -/
theorem supportFiles_javascript (js : e.language = .javascript)
    (made : supportFiles e definitions clientNames = .ok support) :
    ∃ name version, support =
      [("src/service/DateFactory.js", .javascript .dateFactory),
        ("src/index.js", .javascript (.index (exportsOf definitions clientNames))),
        ("package.json", .javascript (.manifest name version e.common.text))] := by
  simp only [supportFiles, js] at made
  obtain ⟨name, -, made⟩ := bind_eq_ok.mp made
  obtain ⟨-, -, made⟩ := bind_eq_ok.mp made
  exact ⟨_, _, (Except.ok.inj made).symm⟩

end Sources

/-- What a tree holds as seen from a module: a file for each type that is defined, one
for each client, and the date helper. -/
structure Offers (definitions : List Definition) (clientNames : List String) (tree : Tree) :
    Prop where
  entity : ∀ n ∈ definitions.map (·.name),
    Naming.sourcePath .javascript "entity" (Naming.className n) ∈ Table.names tree
  client : ∀ c ∈ clientNames,
    Naming.sourcePath .javascript "service" (Naming.clientClass c) ∈ Table.names tree
  dates : Naming.sourcePath .javascript "service" "DateFactory" ∈ Table.names tree

theorem Consists.offers (js : e.language = .javascript)
    (parts : Consists e definitions actions entities clients support) :
    Offers definitions (groupByClient actions).names (entities ++ clients ++ support) := by
  refine ⟨?_, ?_, ?_⟩
  · intro n hn
    obtain ⟨d, hd, rfl⟩ := List.mem_map.mp hn
    have file := parts.entityFile_mem hd
    rw [js] at file
    exact file
  · intro c hc
    have file := parts.clientFile_mem hc
    rw [js] at file
    exact file
  · obtain ⟨name, version, rfl⟩ := supportFiles_javascript js parts.others
    rw [Table.names_append]
    exact List.mem_append_right _ List.mem_cons_self

section Entity

variable {d : Definition} {v : EntityView}

theorem entity_bound_of_imported (common : String) {cls : String}
    (h : cls = v.className ∨ cls ∈ v.imports) :
    cls ∈ (JavascriptFile.entity common v).bound := by
  rcases h with rfl | h
  · exact List.mem_append_right _ List.mem_cons_self
  · refine List.mem_append_left _ (List.mem_map.mpr ⟨⟨cls, false, "./" ++ cls⟩, ?_, rfl⟩)
    exact List.mem_append_right _ (List.mem_append_right _ (List.mem_map.mpr ⟨cls, h, rfl⟩))

/-- The date helper is called where the view says so. -/
theorem entity_callsDateFactory (common : String) (v : EntityView) :
    (JavascriptFile.entity common v).callsDateFactory = v.usesDate := by
  have item : (v.item.toList.map fun i => Body.creating .javascript i.conversion).any (·.usesDate) =
      v.item.any (·.conversion.usesDate) := by
    cases v.item <;> simp
  have bodies : (JavascriptFile.entity common v).callsDateFactory =
      ((v.item.toList.map fun i => Body.creating .javascript i.conversion).any (·.usesDate) ||
        (v.properties.flatMap fun p => [Body.reading p.key p.conversion,
          Body.writing p.key p.variableName p.conversion]).any (·.usesDate)) := by
    change ((_ ++ _ : List Body).any _ || ([] : List Code).any _) = _
    rw [List.any_append, List.any_nil, Bool.or_false]
  rw [bodies, item, List.any_flatMap, EntityView.usesDate, Bool.or_comm]
  simp

/-- The module of a definition is closed. -/
theorem entity_isClosed {clientNames : List String} (offers : Offers definitions clientNames tree)
    (view : IsEntityView .javascript definitions d v)
    (parent : ∀ n, d.parentName? = some n → n ∈ definitions.map (·.name)) (common : String) :
    (JavascriptFile.entity common v).IsClosed common tree
      (Naming.entityFile .javascript d.name) := by
  have slash := Naming.slash_notMem_className
  have ofBase : ∀ i ∈ JavascriptFile.baseImports common v, i.named = true ∧ i.source = common := by
    intro i hi
    unfold JavascriptFile.baseImports at hi
    split at hi
    · obtain rfl := List.mem_singleton.mp hi
      exact ⟨rfl, rfl⟩
    · cases hi
  have ofNeighbours : ∀ i ∈ JavascriptFile.entityImports v, i.named = false ∧
      isRelative i.source = true ∧
      resolve (Naming.entityFile .javascript d.name) i.source ∈ Table.names tree := by
    intro i hi
    rcases List.mem_append.mp hi with hi | hi
    · split at hi
      · obtain rfl := List.mem_singleton.mp hi
        refine ⟨rfl, isRelative_dots "service/DateFactory", ?_⟩
        have led : resolve (Naming.entityFile .javascript d.name) "../service/DateFactory" =
            Naming.sourcePath .javascript "service" "DateFactory" :=
          resolve_other "entity" _ "service" "DateFactory" (by decide) (slash d.name) (by decide)
            (by decide) (by decide)
        exact led ▸ offers.dates
      · cases hi
    · obtain ⟨cls, hcls, rfl⟩ := List.mem_map.mp hi
      obtain ⟨n, hn, rfl⟩ := view.import_defined parent hcls
      refine ⟨rfl, isRelative_dot _, ?_⟩
      have led : resolve (Naming.entityFile .javascript d.name) ("./" ++ Naming.className n) =
          Naming.sourcePath .javascript "entity" (Naming.className n) :=
        resolve_sibling "entity" _ _ (by decide) (slash d.name) (slash n)
      exact led ▸ offers.entity n hn
  refine ⟨?_, ?_, ?_, ?_⟩
  · intro i hi plain
    rcases List.mem_append.mp hi with hi | hi
    · exact absurd (ofBase i hi).1 (by simp [plain])
    · exact (ofNeighbours i hi).2
  · intro i hi named
    rcases List.mem_append.mp hi with hi | hi
    · exact (ofBase i hi).2
    · exact absurd (ofNeighbours i hi).1 (by simp [named])
  · rintro cls ⟨⟩
    cases base : v.base with
    | common name =>
        refine List.mem_append_left _ (List.mem_map.mpr ⟨⟨name, true, common⟩, ?_, rfl⟩)
        exact List.mem_append_left _ (by simp [JavascriptFile.baseImports, base])
    | generated cls => exact entity_bound_of_imported common (view.base_imported base)
  · intro calls
    rw [entity_callsDateFactory] at calls
    refine List.mem_append_left _ (List.mem_map.mpr ⟨JavascriptFile.dateImport, ?_, rfl⟩)
    exact List.mem_append_right _
      (List.mem_append_left _ (by rw [if_pos calls]; exact List.mem_cons_self))

/-- The classes that the module of a definition constructs are bound, if there are any to
bind. -/
theorem entity_constructs_bound (view : IsEntityView .javascript definitions d v)
    (common : String) :
    ∀ cls ∈ (JavascriptFile.entity common v).constructs,
      cls ∈ (JavascriptFile.entity common v).bound ∨ (cls = "None" ∧ d.LacksItems) := by
  intro cls h
  have bound : (cls = v.className ∨ cls ∈ v.imports) →
      cls ∈ (JavascriptFile.entity common v).bound := entity_bound_of_imported common
  have constructed : cls ∈ (JavascriptFile.entity common v).bodies.flatMap (·.constructs) := by
    simpa [JavascriptFile.constructs, JavascriptFile.replies] using h
  obtain ⟨b, hb, hc⟩ := List.mem_flatMap.mp constructed
  rcases List.mem_append.mp hb with hb | hb
  · obtain ⟨i, hi, rfl⟩ := List.mem_map.mp hb
    rw [Body.constructs_creating, Option.mem_toList] at hc
    rcases view.item_imported (Option.mem_toList.mp hi) hc with own | imported | lacks
    · exact .inl (bound (.inl own))
    · exact .inl (bound (.inr imported))
    · exact .inr lacks
  · obtain ⟨w, hw, hb⟩ := List.mem_flatMap.mp hb
    rcases List.mem_pair.mp hb with rfl | rfl
    · rw [Body.constructs_reading, Option.mem_toList] at hc
      rcases view.property_imported hw hc with own | imported | lacks
      · exact .inl (bound (.inl own))
      · exact .inl (bound (.inr imported))
      · exact .inr lacks
    · rw [Body.constructs_writing] at hc
      cases hc

end Entity

section Client

variable {client : String} {group : List Action} {v : ClientView} {clientNames : List String}

/-- The module of a client is closed. -/
theorem client_isClosed (offers : Offers definitions clientNames tree)
    (view : IsClientView .javascript definitions client group v)
    (defined : ∀ a ∈ group, ∀ n ∈ a.dependsOn, n ∈ definitions.map (·.name)) (common : String) :
    (JavascriptFile.client common v).IsClosed common tree
      (Naming.clientFile .javascript client) := by
  have ofNeighbours : ∀ i ∈ JavascriptFile.clientImports v, i.named = false ∧
      isRelative i.source = true ∧
      resolve (Naming.clientFile .javascript client) i.source ∈ Table.names tree := by
    intro i hi
    obtain ⟨cls, hcls, rfl⟩ := List.mem_map.mp hi
    rw [view.imports, mem_clientImports] at hcls
    obtain ⟨a, ha, n, hn, rfl⟩ := hcls
    have source : "../entity/" ++ Naming.className n =
        "../" ++ ("entity" ++ String.singleton '/' ++ Naming.className n) := by
      rw [← String.append_assoc, ← String.append_assoc]
      rfl
    have relative : isRelative ("../entity/" ++ Naming.className n) = true := by
      rw [source]
      exact isRelative_dots _
    refine ⟨rfl, relative, ?_⟩
    have led : resolve (Naming.clientFile .javascript client) ("../entity/" ++ Naming.className n) =
        Naming.sourcePath .javascript "entity" (Naming.className n) := by
      rw [source]
      exact resolve_other "service" _ "entity" _ (by decide)
        (Naming.slash_notMem_clientClass client) (by decide) (by decide)
        (Naming.slash_notMem_className n)
    exact led ▸ offers.entity n (defined a ha n hn)
  refine ⟨?_, ?_, nofun, ?_⟩
  · intro i hi plain
    rcases List.mem_cons.mp hi with rfl | hi
    · cases plain
    · exact (ofNeighbours i hi).2
  · intro i hi named
    rcases List.mem_cons.mp hi with rfl | hi
    · rfl
    · exact absurd (ofNeighbours i hi).1 (by simp [named])
  · intro calls
    obtain ⟨c, hc, uses⟩ := List.any_eq_true.mp calls
    obtain ⟨m, -, replied⟩ := List.mem_filterMap.mp hc
    rw [(Reply.constructs_of_code? replied).2] at uses
    cases uses

/-- The classes that the module of a client constructs are bound, if there are any to
bind. -/
theorem client_constructs_bound (view : IsClientView .javascript definitions client group v)
    (common : String) :
    ∀ cls ∈ (JavascriptFile.client common v).constructs,
      cls ∈ (JavascriptFile.client common v).bound ∨
        (cls = "None" ∧ ∃ a ∈ group, a.LacksItems) := by
  intro cls h
  have constructed : cls ∈ (JavascriptFile.client common v).replies.flatMap (·.constructs) := by
    simpa [JavascriptFile.constructs, JavascriptFile.bodies] using h
  obtain ⟨c, hc, constructs⟩ := List.mem_flatMap.mp constructed
  obtain ⟨m, hm, replied⟩ := List.mem_filterMap.mp hc
  rw [(Reply.constructs_of_code? replied).1, Option.mem_toList] at constructs
  rcases view.reply_imported hm constructs with imported | lacks
  · left
    refine List.mem_append_left _ (List.mem_map.mpr ⟨⟨cls, false, "../entity/" ++ cls⟩, ?_, rfl⟩)
    exact List.mem_cons_of_mem _ (List.mem_map.mpr ⟨cls, imported, rfl⟩)
  · exact .inr lacks

end Client

/-- The index is closed: it exports what the tree offers. -/
theorem index_isClosed {clientNames : List String}
    (offers : Offers definitions clientNames tree) (common : String) :
    (JavascriptFile.index (exportsOf definitions clientNames)).IsClosed common tree
      "src/index.js" := by
  have plain : ∀ i ∈ (JavascriptFile.index (exportsOf definitions clientNames)).imports,
      i.named = false := by
    intro i hi
    obtain ⟨x, -, rfl⟩ := List.mem_map.mp hi
    rfl
  have source (folder name : String) : "./" ++ folder ++ "/" ++ name =
      "./" ++ (folder ++ String.singleton '/' ++ name) := by
    simp only [String.append_assoc]
    rfl
  have service (name : String) (h : '/' ∉ name.toList) :
      isRelative ("./service/" ++ name) = true ∧
        resolve "src/index.js" ("./service/" ++ name) =
          Naming.sourcePath .javascript "service" name := by
    rw [show "./service/" ++ name = "./" ++ "service" ++ "/" ++ name from rfl, source]
    exact ⟨isRelative_dot _, resolve_index "service" name (by decide) (by decide) h⟩
  have entity (name : String) (h : '/' ∉ name.toList) :
      isRelative ("./entity/" ++ name) = true ∧
        resolve "src/index.js" ("./entity/" ++ name) =
          Naming.sourcePath .javascript "entity" name := by
    rw [show "./entity/" ++ name = "./" ++ "entity" ++ "/" ++ name from rfl, source]
    exact ⟨isRelative_dot _, resolve_index "entity" name (by decide) (by decide) h⟩
  refine ⟨?_, fun i hi named => absurd (plain i hi) (by simp [named]), nofun, nofun⟩
  intro i hi _
  obtain ⟨x, hx, rfl⟩ := List.mem_map.mp hi
  rcases List.mem_cons.mp hx with rfl | hx
  · obtain ⟨relative, led⟩ := service "DateFactory" (by decide)
    exact ⟨relative, led ▸ offers.dates⟩
  · rcases List.mem_append.mp hx with hx | hx
    · obtain ⟨c, hc, rfl⟩ := List.mem_map.mp hx
      obtain ⟨relative, led⟩ := service _ (Naming.slash_notMem_clientClass c)
      exact ⟨relative, led ▸ offers.client c hc⟩
    · obtain ⟨d, hd, rfl⟩ := List.mem_map.mp hx
      obtain ⟨relative, led⟩ := entity _ (Naming.slash_notMem_className d.name)
      exact ⟨relative, led ▸ offers.entity d.name (List.mem_map_of_mem hd)⟩

/-- Where the check passes, everything that a definition or an action depends on is
defined. -/
theorem defined_of_dangling?_eq_none (h : dangling? definitions actions = none) :
    (∀ d ∈ definitions, ∀ n ∈ d.dependsOn, n ∈ definitions.map (·.name)) ∧
      ∀ a ∈ actions, ∀ n ∈ a.dependsOn, n ∈ definitions.map (·.name) := by
  have passes := List.find?_eq_none.mp h
  refine ⟨fun d hd n hn => ?_, fun a ha n hn => ?_⟩
  · have noted := passes (n, "type " ++ d.name) (List.mem_append_left _
      (List.mem_flatMap.mpr ⟨d, hd, List.mem_map_of_mem hn⟩))
    simpa using noted
  · have noted := passes (n, a.describe) (List.mem_append_right _
      (List.mem_flatMap.mpr ⟨a, ha, List.mem_map_of_mem hn⟩))
    simpa using noted

/-- Whether every class that a module constructs is imported or its own, but for the dates
of the date helper and for an array without items, which has no class. -/
def JavascriptFile.ConstructsBound (definitions : List Definition) (actions : List Action)
    (f : JavascriptFile) : Prop :=
  ∀ cls ∈ f.constructs, cls ∈ f.bound ∨ (f = .dateFactory ∧ cls = "Date") ∨
    (cls = "None" ∧ ((∃ d ∈ definitions, d.LacksItems) ∨ ∃ a ∈ actions, a.LacksItems))

/-- A module that needs nothing is closed. -/
theorem isClosed_of_alone {f : JavascriptFile} {path : String} (imports : f.imports = [])
    (base : f.extends? = none) (dates : f.callsDateFactory = false) :
    f.IsClosed common tree path := by
  refine ⟨?_, ?_, ?_, ?_⟩
  · simp [imports]
  · simp [imports]
  · simp [base]
  · simp [dates]

section Files

variable {clientNames : List String} {file : SourceFile} {path : String}

/-- The file of a definition. -/
theorem entity_module (js : e.language = .javascript)
    (offers : Offers definitions clientNames tree) {d : Definition} (hd : d ∈ definitions)
    (defined : ∀ n ∈ d.dependsOn, n ∈ definitions.map (·.name))
    (entity : entitySource e definitions d = .ok file) :
    ∃ f, file = .javascript f ∧
      f.IsClosed e.common.text tree (Naming.entityFile .javascript d.name) ∧
      f.ConstructsBound definitions actions := by
  obtain ⟨v, view, rfl⟩ := entitySource_javascript js entity
  by_cases enum : d.kind = .enum
  · refine ⟨.enumeration v, by simp [enum], isClosed_of_alone rfl rfl rfl, ?_⟩
    intro cls hc
    cases hc
  · refine ⟨.entity e.common.text v, by simp [enum], ?_, ?_⟩
    · apply entity_isClosed offers view
      intro n hn
      apply defined
      simp [Definition.dependsOn, hn]
    · intro cls hc
      rcases entity_constructs_bound view _ cls hc with bound | ⟨none, lacks⟩
      · exact .inl bound
      · exact .inr (.inr ⟨none, .inl ⟨d, hd, lacks⟩⟩)

/-- The file of a client. -/
theorem client_module (js : e.language = .javascript)
    (offers : Offers definitions clientNames tree) {client : String} {group : List Action}
    (member : ∀ a ∈ group, a ∈ actions)
    (defined : ∀ a ∈ actions, ∀ n ∈ a.dependsOn, n ∈ definitions.map (·.name))
    (source : clientSource e definitions client group = .ok file) :
    ∃ f, file = .javascript f ∧
      f.IsClosed e.common.text tree (Naming.clientFile .javascript client) ∧
      f.ConstructsBound definitions actions := by
  obtain ⟨v, view, rfl⟩ := clientSource_javascript js source
  refine ⟨.client e.common.text v, rfl, ?_, ?_⟩
  · apply client_isClosed offers view
    intro a ha
    exact defined a (member a ha)
  · intro cls hc
    rcases client_constructs_bound view _ cls hc with bound | ⟨none, a, ha, lacks⟩
    · exact .inl bound
    · exact .inr (.inr ⟨none, .inr ⟨a, member a ha, lacks⟩⟩)

/-- The files that every package has. -/
theorem support_module (js : e.language = .javascript)
    (offers : Offers definitions clientNames tree) {support : Tree}
    (made : supportFiles e definitions clientNames = .ok support) (h : (path, file) ∈ support) :
    ∃ f, file = .javascript f ∧ f.IsClosed e.common.text tree path ∧
      f.ConstructsBound definitions actions := by
  obtain ⟨name, version, rfl⟩ := supportFiles_javascript js made
  simp only [List.mem_cons, Prod.mk.injEq, List.not_mem_nil, or_false] at h
  rcases h with ⟨rfl, rfl⟩ | ⟨rfl, rfl⟩ | ⟨rfl, rfl⟩
  · refine ⟨_, rfl, isClosed_of_alone rfl rfl rfl, ?_⟩
    intro cls hc
    exact .inr (.inl ⟨rfl, List.mem_singleton.mp hc⟩)
  · refine ⟨_, rfl, index_isClosed offers _, ?_⟩
    intro cls hc
    cases hc
  · refine ⟨_, rfl, isClosed_of_alone rfl rfl rfl, ?_⟩
    intro cls hc
    cases hc

end Files

/-- The modules of a package. The lines of a file that open as imports do are its imports,
and every file of a rendered JavaScript tree is closed: each of its relative imports leads
to a file of the tree, unless it is that of the runtime library, what it takes by name comes
from the runtime library, its base class is imported or its own, and so is the date helper if
it calls it. Every class that it constructs is bound, but for the ones that nothing could
bind. -/
theorem render_modules_closed (js : e.language = .javascript)
    (rendered : render e definitions actions = .ok tree) {path : String} {file : SourceFile}
    (h : (path, file) ∈ tree) :
    ∃ f, file = .javascript f ∧
      (∀ line ∈ f.lines, line.toList.head? = some 'i' → ∃ i ∈ f.imports, line = i.line) ∧
      (∀ i ∈ f.imports, isRelative i.source = true → resolve path i.source ∈ Table.names tree ∨
        (i.named = true ∧ i.source = e.common.text)) ∧
      f.IsClosed e.common.text tree path ∧ f.ConstructsBound definitions actions := by
  obtain ⟨passes, entities, clients, support, rfl, parts⟩ := render_eq_ok.mp rendered
  obtain ⟨ofDefinition, ofAction⟩ := defined_of_dangling?_eq_none passes
  have offers := parts.offers js
  have closed : ∃ f, file = .javascript f ∧
      f.IsClosed e.common.text (entities ++ clients ++ support) path ∧
      f.ConstructsBound definitions actions := by
    rcases parts.cases_of_mem h with ⟨d, hd, rfl, entity⟩ | ⟨group, hg, -, rfl, client⟩ | others
    · rw [js]
      exact entity_module js offers hd (ofDefinition d hd) entity
    · rw [js]
      exact client_module js offers (fun a ha => (mem_groupByClient hg ha).1) ofAction client
    · exact support_module js offers parts.others others
  obtain ⟨f, same, closed, bound⟩ := closed
  refine ⟨f, same, ?_, fun i hi _ => closed.resolves hi, closed, bound⟩
  intro line h opens
  exact JavascriptFile.import_of_line h opens

/-- An entity that extends, lists and dates: its base, its items' class and the date
helper are all imported. -/
theorem transfer_module_closed : ∃ tree file,
    render ⟨⟨.javascript, .str "", .str "bank", .null⟩, .str "common", .str "", .str "1", true⟩
      [{ name := "Entry" }, { name := "Money" }, ⟨"Transfer", .object,
        [⟨"sums", "Money[]", .array (.named "Money"), false, none⟩,
          ⟨"at", "datetime", .scalar .datetime, true, none⟩],
        some "Entry", none, [], none, none, false, false⟩] [] = .ok tree ∧
    ("src/entity/Transfer.js", file) ∈ tree ∧ ∃ f, file = .javascript f ∧
      f.IsClosed "common" tree "src/entity/Transfer.js" ∧
      ∀ cls ∈ f.constructs, cls ∈ f.bound ∨ (f = .dateFactory ∧ cls = "Date") := by
  have rendered : render
      ⟨⟨.javascript, .str "", .str "bank", .null⟩, .str "common", .str "", .str "1", true⟩
      [{ name := "Entry" }, { name := "Money" }, ⟨"Transfer", .object,
        [⟨"sums", "Money[]", .array (.named "Money"), false, none⟩,
          ⟨"at", "datetime", .scalar .datetime, true, none⟩],
        some "Entry", none, [], none, none, false, false⟩] [] = .ok _ := rfl
  refine ⟨_, _, rendered, .tail _ (.tail _ (.head _)), ?_⟩
  obtain ⟨f, same, -, -, closed, constructs⟩ :=
    render_modules_closed rfl rendered (.tail _ (.tail _ (.head _)))
  refine ⟨f, same, closed, fun cls hc => ?_⟩
  rcases constructs cls hc with bound | date | ⟨-, lacks⟩
  · exact .inl bound
  · exact .inr date
  · simp [Definition.LacksItems, Action.LacksItems, Reference.LacksItems] at lacks

/-- The runtime library of a package is a module above its sources. The class of a type is
taken from it by a relative import that leads to no file of the tree. -/
theorem relative_library_leads_out : ∃ tree f i,
    render ⟨⟨.javascript, .str "", .str "bank", .null⟩, .str "../runtime", .str "", .str "1",
      true⟩ [{ name := "Foo" }] [] = .ok tree ∧
    ("src/entity/Foo.js", .javascript f) ∈ tree ∧ i ∈ f.imports ∧
      i.line = "import \x7b Entity \x7d from '../runtime';" ∧ i.line ∈ f.lines ∧
      isRelative i.source = true ∧ resolve "src/entity/Foo.js" i.source = "src/runtime.js" ∧
      "src/runtime.js" ∉ Table.names tree := by
  refine ⟨_, _, ⟨"Entity", true, "../runtime"⟩, rfl, .head _, .head _, ?_⟩
  refine ⟨by decide, by decide, by decide, by decide, by decide⟩

/-- A property that is a type over an array without items is wrapped in a class that is
neither imported nor declared. -/
theorem none_unbound : ∃ tree f,
    render ⟨⟨.javascript, .str "", .str "bank", .null⟩, .str "common", .str "", .str "1", true⟩
      [{ name := "Foo" }, ⟨"Bar", .object, [⟨"p", "string",
        .holding .type "Foo" (.leaf .array "Foo"), false, none⟩], none, none, [], none, none,
        false, false⟩] [] = .ok tree ∧
    ("src/entity/Bar.js", .javascript f) ∈ tree ∧
      "        return data === null || typeof data === 'undefined' ? null : new None(data);" ∈
        f.lines ∧
      "None" ∈ f.constructs ∧ "None" ∉ f.bound := by
  refine ⟨_, _, rfl, .tail _ (.head _), ?_, ?_, ?_⟩
  · decide
  · decide
  · decide

end ClientForge.Emission
