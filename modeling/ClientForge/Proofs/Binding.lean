import ClientForge.Proofs.ModuleGraph

/-!
# Names bound at the top of a module

A module binds names at its top level by its import statements and by the one class or
constant that it declares. These names come from three sides: the types of the
specification, the clients, and the runtime library with its helpers. Only files with one
path are refused, so names of different sides can meet in one module. Exactly when they
do not is said here over the definitions and actions alone.
-/

namespace ClientForge.Emission

open ClientForge.Outcome ClientForge.Text

namespace JavascriptFile

/-- The name that a line binds if it is an import, a class or a constant, read off its
words. -/
def bindingOf? (line : String) : Option String :=
  match split ' ' line with
  | keyword :: name :: rest =>
    if keyword = "import" ∧ name = "\x7b" then rest.head?
    else if keyword = "import" ∨ keyword = "class" ∨ keyword = "const" then some name
    else none
  | _ => none

/-- The names that the lines of a module bind at its top level. -/
def bindings (f : JavascriptFile) : List String := f.lines.filterMap bindingOf?

/-- A line that binds a name opens a statement. -/
theorem opensStatement_of_bindingOf? {line name : String} (h : bindingOf? line = some name) :
    opensStatement line = true := by
  unfold bindingOf? at h
  split at h
  next keyword other rest words =>
    have known : keyword = "import" ∨ keyword = "class" ∨ keyword = "const" := by
      split at h
      next both => exact .inl both.1
      next =>
        split at h
        next known => exact known
        next => cases h
    rcases known with rfl | rfl | rfl <;> exact opensStatement_of_split words (by decide)
  next => cases h

/-- A line of a keyword, a word and something behind it binds the word. -/
theorem bindingOf?_keyword {keyword name : String} (rest : String)
    (known : keyword = "import" ∨ keyword = "class" ∨ keyword = "const")
    (word : Naming.IsWord name) :
    bindingOf? (keyword ++ " " ++ name ++ " " ++ rest) = some name := by
  have blank : ' ' ∉ keyword.toList := by
    rcases known with rfl | rfl | rfl <;> decide
  have words := split_words blank (word.notMem (by decide)) rest
  have noBrace : name ≠ "\x7b" := by
    rintro rfl
    exact absurd word (by decide)
  simp only [bindingOf?, words]
  rw [if_neg fun h => noBrace h.2, if_pos known]

theorem bindingOf?_import {i : Import} (word : Naming.IsWord i.binding) :
    bindingOf? i.line = some i.binding := by
  cases named : i.named with
  | false =>
      have shape : i.line = "import" ++ " " ++ i.binding ++ " " ++
          ("from '" ++ i.source ++ "';") := by
        simp only [Import.line, named, String.append_assoc]
        rfl
      rw [shape, bindingOf?_keyword _ (.inl rfl) word]
  | true =>
      have shape : i.line = "import" ++ String.singleton ' ' ++ ("\x7b" ++ String.singleton ' ' ++
          (i.binding ++ String.singleton ' ' ++ ("\x7d from '" ++ i.source ++ "';"))) := by
        simp only [Import.line, named, braced, if_true, String.append_assoc]
        rfl
      have words : split ' ' i.line = "import" :: "\x7b" :: i.binding ::
          split ' ' ("\x7d from '" ++ i.source ++ "';") := by
        rw [shape, split_append (by decide), split_append (by decide),
          split_append (word.notMem (by decide))]
      simp [bindingOf?, words]

/-- The line of a declaration is a keyword, what is declared and something behind it. -/
theorem exists_words_of_declarationLine? {f : JavascriptFile} {line : String}
    (h : f.declarationLine? = some line) : ∃ keyword name rest,
      (keyword = "class" ∨ keyword = "const") ∧ f.declares? = some name ∧
        line = keyword ++ " " ++ name ++ " " ++ rest := by
  cases f with
  | entity common v =>
      obtain rfl := Option.some.inj h
      refine ⟨"class", v.className, "extends " ++ v.base.name ++ " \x7b", .inl rfl, rfl, ?_⟩
      simp only [String.append_assoc]
      rfl
  | enumeration v =>
      obtain rfl := Option.some.inj h
      refine ⟨"const", v.className, "= Object.freeze(\x7b", .inr rfl, rfl, ?_⟩
      simp only [String.append_assoc]
      rfl
  | client common v =>
      obtain rfl := Option.some.inj h
      refine ⟨"class", v.className, "\x7b", .inl rfl, rfl, ?_⟩
      simp only [String.append_assoc]
      rfl
  | dateFactory =>
      obtain rfl := Option.some.inj h
      exact ⟨"class", "DateFactory", "\x7b", .inl rfl, rfl, by decide⟩
  | index _ => cases h
  | manifest _ _ _ => cases h

theorem declares?_eq_none {f : JavascriptFile} (h : f.declarationLine? = none) :
    f.declares? = none := by
  cases f with
  | index _ => rfl
  | manifest _ _ _ => rfl
  | _ => cases h

/-- The line of a declaration binds what is declared. -/
theorem bindingOf?_declaration (f : JavascriptFile)
    (words : ∀ name ∈ f.declares?, Naming.IsWord name) :
    f.declarationLine?.bind bindingOf? = f.declares? := by
  cases found : f.declarationLine? with
  | none => rw [declares?_eq_none found, Option.bind_none]
  | some line =>
      obtain ⟨keyword, name, rest, known, declared, rfl⟩ := exists_words_of_declarationLine? found
      rw [Option.bind_some, bindingOf?_keyword rest (.inr known) (words name declared), declared]

/-- What the lines of a module bind is what it imports and, behind that, what it declares. -/
theorem bindings_eq_bound (f : JavascriptFile) (words : ∀ name ∈ f.bound, Naming.IsWord name) :
    f.bindings = f.bound := by
  have imported : (f.imports.map (·.line)).filterMap bindingOf? = f.imports.map (·.binding) := by
    rw [List.filterMap_map, ← List.filterMap_eq_map]
    apply List.filterMap_congr
    intro i hi
    exact bindingOf?_import (words _ (List.mem_append_left _ (List.mem_map_of_mem hi)))
  have declared : f.declarationLine?.toList.filterMap bindingOf? = f.declares?.toList := by
    rw [← bindingOf?_declaration f fun name h =>
      words name (List.mem_append_right _ (Option.mem_toList.mpr h))]
    cases f.declarationLine? with
    | none => rfl
    | some line => cases bound : bindingOf? line <;> simp [bound]
  rw [bindings, ← filterMap_filter_opensStatement fun _ _ => opensStatement_of_bindingOf?,
    filter_opensStatement, List.filterMap_append, imported, declared, bound]

end JavascriptFile

section Modules

variable {definitions : List Definition} {d : Definition} {actions : List Action}

/-- The names that the module of an entity binds are words. -/
theorem IsEntityView.isWord_bound {v : EntityView}
    (view : IsEntityView .javascript definitions d v) (common : String) :
    ∀ name ∈ (JavascriptFile.entity common v).bound, Naming.IsWord name := by
  intro name bound
  have own : Naming.IsWord v.className := view.className ▸ Naming.isWord_className d.name
  simp only [JavascriptFile.bound, JavascriptFile.imports, JavascriptFile.baseImports,
    JavascriptFile.entityImports, JavascriptFile.declares?, List.map_append, List.mem_append,
    Option.toList_some, List.mem_singleton, List.map_map] at bound
  rcases bound with (base | date | imported) | rfl
  · cases extends_ : v.base with
    | generated cls => simp [extends_] at base
    | common library =>
        obtain rfl : name = library := by simpa [extends_] using base
        exact isWord_of_baseClass_eq_common (view.base.symm.trans extends_)
  · split at date
    · obtain rfl := List.mem_singleton.mp date
      decide
    · cases date
  · obtain ⟨cls, hcls, rfl⟩ := List.mem_map.mp imported
    obtain ⟨-, ⟨n, -, rfl⟩ | ⟨n, -, rfl⟩⟩ := view.mem_imports_iff.mp hcls
    · exact Naming.isWord_className n
    · exact Naming.isWord_className n
  · exact own

theorem IsEntityView.bindings_eq {v : EntityView}
    (view : IsEntityView .javascript definitions d v) (common : String) :
    (JavascriptFile.entity common v).bindings = (JavascriptFile.entity common v).bound :=
  JavascriptFile.bindings_eq_bound _ (view.isWord_bound common)

/-- The names of an entity's module meet in two ways only: the base from the library is the
own class or an import, or so is the date helper. -/
theorem IsEntityView.nodup_bindings_iff {v : EntityView}
    (view : IsEntityView .javascript definitions d v) (common : String) :
    (JavascriptFile.entity common v).bindings.Nodup ↔
      (∀ base, v.base = .common base → base ≠ v.className ∧ base ∉ v.imports) ∧
        (v.usesDate = true → "DateFactory" ≠ v.className ∧ "DateFactory" ∉ v.imports) := by
  have own : v.className ∉ v.imports := fun h => (view.mem_imports_iff.mp h).1 rfl
  have neighbours : (v.imports ++ [v.className]).Nodup :=
    view.nodup_imports.append (List.nodup_singleton _) (by simpa using own)
  have layout : (JavascriptFile.entity common v).bound =
      v.base.library?.toList ++ ((if v.usesDate then ["DateFactory"] else []) ++
        (v.imports ++ [v.className])) := by
    have same : v.imports.map ((·.binding) ∘ fun cls => Import.mk cls false ("./" ++ cls)) =
        v.imports := by simp [Function.comp_def]
    simp only [JavascriptFile.bound, JavascriptFile.imports, JavascriptFile.entityImports,
      JavascriptFile.declares?, Option.toList_some, List.map_append, List.map_map, same,
      List.append_assoc]
    congr 1
    · unfold JavascriptFile.baseImports
      cases v.base <;> rfl
    · congr 1
      split <;> rfl
  rw [view.bindings_eq, layout]
  cases extends_ : v.base with
  | generated cls =>
      by_cases date : v.usesDate = true <;>
        simp [BaseClass.library?, date, neighbours, or_comm, eq_comm]
  | common library =>
      have known := (mem_of_baseClass_eq_common (view.base ▸ extends_)).2
      have noDate : library ≠ "DateFactory" := by
        rintro rfl
        exact absurd known (by decide)
      by_cases date : v.usesDate = true <;>
        simp [BaseClass.library?, date, neighbours, noDate, or_comm]

section Clients

variable {client : String} {group : List Action}

theorem IsClientView.bindings_eq {v : ClientView}
    (view : IsClientView .javascript definitions client group v) (common : String) :
    (JavascriptFile.client common v).bindings =
      "RequestFactory" :: (v.imports ++ [v.className]) := by
  have bound : (JavascriptFile.client common v).bound =
      "RequestFactory" :: (v.imports ++ [v.className]) := by
    have same : v.imports.map ((·.binding) ∘ fun cls =>
        Import.mk cls false ("../entity/" ++ cls)) = v.imports := by simp [Function.comp_def]
    simp only [JavascriptFile.bound, JavascriptFile.imports, JavascriptFile.clientImports,
      JavascriptFile.declares?, Option.toList_some, List.map_cons, List.map_map, same]
    rfl
  rw [JavascriptFile.bindings_eq_bound, bound]
  intro name h
  rw [bound, List.mem_cons, List.mem_append, List.mem_singleton] at h
  rcases h with rfl | imported | rfl
  · decide
  · rw [view.imports, mem_clientImports] at imported
    obtain ⟨a, -, n, -, rfl⟩ := imported
    exact Naming.isWord_className n
  · exact view.className ▸ Naming.isWord_clientClass client

/-- The names of a client's module meet if a class that it imports is called as the request
factory or as the client. -/
theorem IsClientView.nodup_bindings_iff {v : ClientView}
    (view : IsClientView .javascript definitions client group v) (common : String) :
    (JavascriptFile.client common v).bindings.Nodup ↔
      ∀ a ∈ group, ∀ n ∈ a.dependsOn,
        Naming.className n ≠ "RequestFactory" ∧ Naming.className n ≠ Naming.clientClass client := by
  have own : "RequestFactory" ≠ v.className := by
    rw [view.className]
    exact (Naming.clientClass_ne (by decide) client).symm
  have once : v.imports.Nodup := view.imports ▸ nodup_clientImports group
  have clash : (∀ a ∈ group, ∀ n ∈ a.dependsOn,
      Naming.className n ≠ "RequestFactory" ∧ Naming.className n ≠ Naming.clientClass client) ↔
      "RequestFactory" ∉ v.imports ∧ v.className ∉ v.imports := by
    rw [view.imports, view.className, mem_clientImports, mem_clientImports]
    constructor
    · intro apart
      constructor
      · rintro ⟨a, ha, n, hn, same⟩
        exact (apart a ha n hn).1 same
      · rintro ⟨a, ha, n, hn, same⟩
        exact (apart a ha n hn).2 same
    · rintro ⟨request, client⟩ a ha n hn
      exact ⟨fun same => request ⟨a, ha, n, hn, same⟩, fun same => client ⟨a, ha, n, hn, same⟩⟩
  rw [view.bindings_eq, clash]
  simp [List.nodup_append', once, own]

/-- The names of the index meet if a defined class is called as the date helper or as a
client. -/
theorem nodup_index_bindings_iff {clientNames : List String}
    (classes : (definitions.map fun d => Naming.className d.name).Nodup)
    (clients : (clientNames.map Naming.clientClass).Nodup) :
    (JavascriptFile.index (exportsOf definitions clientNames)).bindings.Nodup ↔
      ∀ d ∈ definitions, Naming.className d.name ≠ "DateFactory" ∧
        ∀ c ∈ clientNames, Naming.className d.name ≠ Naming.clientClass c := by
  have bound : (JavascriptFile.index (exportsOf definitions clientNames)).bound =
      "DateFactory" :: (clientNames.map Naming.clientClass ++
        definitions.map fun d => Naming.className d.name) := by
    simp [JavascriptFile.bound, JavascriptFile.imports, JavascriptFile.declares?, exportsOf,
      Function.comp_def]
  have helper (c : String) : Naming.clientClass c ≠ "DateFactory" :=
    Naming.clientClass_ne (by decide) c
  rw [JavascriptFile.bindings_eq_bound, bound]
  · rw [List.nodup_cons, List.nodup_append']
    simp only [classes, clients, true_and, List.mem_append, List.mem_map, not_or, not_exists,
      not_and, List.disjoint_left, forall_exists_index, and_imp, forall_apply_eq_imp_iff₂]
    constructor
    · rintro ⟨⟨-, date⟩, apart⟩ d hd
      exact ⟨date d hd, fun c hc same => apart c hc d hd same⟩
    · intro apart
      exact ⟨⟨fun c _ => helper c, fun d hd => (apart d hd).1⟩,
        fun c hc d hd same => (apart d hd).2 c hc same⟩
  · intro name h
    rw [bound, List.mem_cons, List.mem_append, List.mem_map, List.mem_map] at h
    rcases h with rfl | ⟨c, -, rfl⟩ | ⟨d, -, rfl⟩
    · decide
    · exact Naming.isWord_clientClass c
    · exact Naming.isWord_className d.name

end Clients

/-- The names that would bind one identifier twice in a module keep out of each other's way.
No class is called as the date helper or as a client, none that a client uses as the
request factory, and where a class extends one of the runtime library, neither it nor a
class that it wraps values in is called as that one. -/
structure BindsOnce (definitions : List Definition) (actions : List Action) : Prop where
  helper : ∀ d ∈ definitions, Naming.className d.name ≠ "DateFactory"
  clients : ∀ d ∈ definitions, ∀ a ∈ actions,
    Naming.className d.name ≠ Naming.clientClass a.client
  requests : ∀ a ∈ actions, ∀ n ∈ a.dependsOn, Naming.className n ≠ "RequestFactory"
  bases : ∀ d ∈ definitions, d.kind ≠ .enum → ∀ base, baseClass d = .common base →
    Naming.className d.name ≠ base ∧
      ∀ n, WrapsType definitions d n → Naming.className n ≠ base

namespace BindsOnce

variable (apart : BindsOnce definitions actions)
include apart

/-- The classes around an entity are classes of definitions, so none of them is the date
helper. -/
theorem nodup_entity_bindings {v : EntityView}
    (defined : ∀ n, d.parentName? = some n → n ∈ definitions.map (·.name)) (hd : d ∈ definitions)
    (notEnum : d.kind ≠ .enum) (view : IsEntityView .javascript definitions d v)
    (common : String) : (JavascriptFile.entity common v).bindings.Nodup := by
  refine (view.nodup_bindings_iff common).mpr ⟨?_, ?_⟩
  · intro base library
    have extends_ : baseClass d = .common base := view.base.symm.trans library
    have clash := apart.bases d hd notEnum base extends_
    refine ⟨fun same => clash.1 (same ▸ view.className.symm), fun imported => ?_⟩
    obtain ⟨-, ⟨n, parent, -⟩ | ⟨n, wraps, same⟩⟩ := view.mem_imports_iff.mp imported
    · rw [(mem_of_baseClass_eq_common extends_).1] at parent
      cases parent
    · exact clash.2 n wraps same
  · intro _
    constructor
    · rw [view.className]
      exact (apart.helper d hd).symm
    · intro imported
      obtain ⟨n, hn, same⟩ := view.import_defined defined imported
      obtain ⟨other, ho, rfl⟩ := List.mem_map.mp hn
      exact apart.helper other ho same.symm

/-- The classes that a client imports are classes of definitions, so none of them is that of
the client. -/
theorem nodup_client_bindings {client : String} {group : List Action} {v : ClientView}
    (defined : ∀ a ∈ actions, ∀ n ∈ a.dependsOn, n ∈ definitions.map (·.name))
    (hg : (client, group) ∈ groupByClient actions)
    (view : IsClientView .javascript definitions client group v) (common : String) :
    (JavascriptFile.client common v).bindings.Nodup := by
  refine (view.nodup_bindings_iff common).mpr fun a ha n hn => ?_
  obtain ⟨member, rfl⟩ := mem_groupByClient hg ha
  obtain ⟨d, hd, rfl⟩ := List.mem_map.mp (defined a member n hn)
  exact ⟨apart.requests a member _ hn, apart.clients d hd a member⟩

end BindsOnce

variable {e : Emitter} {tree : Tree}

/-- Modules that bind no name twice come from names that keep apart. -/
theorem bindsOnce_of_nodup (js : e.language = .javascript)
    (rendered : render e definitions actions = .ok tree)
    (once : ∀ path f, (path, .javascript f) ∈ tree → f.bindings.Nodup) :
    BindsOnce definitions actions := by
  obtain ⟨-, entities, clients, support, rfl, parts⟩ := render_eq_ok.mp rendered
  obtain ⟨name, version, others⟩ := supportFiles_javascript js parts.others
  have indexed := (nodup_index_bindings_iff parts.nodup_classNames parts.nodup_clientClasses).mp
    (once "src/index.js" _ (List.mem_append_right _ (by rw [others]; exact .tail _ (.head _))))
  refine ⟨fun d hd => (indexed d hd).1, ?_, ?_, ?_⟩
  · intro d hd a ha
    exact (indexed d hd).2 a.client (mem_names_groupByClient.mpr ⟨a, ha, rfl⟩)
  · intro a ha n hn
    obtain ⟨group, hg, member⟩ := exists_group ha
    obtain ⟨file, source, there⟩ := parts.exists_client hg
    obtain ⟨v, view, rfl⟩ := clientSource_javascript js source
    have apart := (view.nodup_bindings_iff e.common.text).mp (once _ _ there)
    exact (apart a member n hn).1
  · intro d hd notEnum base extends_
    obtain ⟨file, source, there⟩ := parts.exists_entity hd
    obtain ⟨v, view, rfl⟩ := entitySource_javascript js source
    rw [if_neg notEnum] at there
    have apart := ((view.nodup_bindings_iff e.common.text).mp (once _ _ there)).1 base
      (view.base.trans extends_)
    refine ⟨fun same => apart.1 (same ▸ view.className.symm), ?_⟩
    rintro n wraps rfl
    exact apart.2 (view.mem_imports_iff.mpr ⟨apart.1, .inr ⟨n, wraps, rfl⟩⟩)

/-- No module of a rendered tree binds a name twice exactly if the names keep apart. -/
theorem render_bindings_nodup_iff (js : e.language = .javascript)
    (rendered : render e definitions actions = .ok tree) :
    (∀ path f, (path, .javascript f) ∈ tree → f.bindings.Nodup) ↔
      BindsOnce definitions actions := by
  refine ⟨bindsOnce_of_nodup js rendered, fun apart path f h => ?_⟩
  obtain ⟨passes, entities, clients, support, rfl, parts⟩ := render_eq_ok.mp rendered
  obtain ⟨ofDefinition, ofAction⟩ := defined_of_dangling?_eq_none passes
  rcases parts.cases_of_mem h with ⟨d, hd, -, source⟩ | ⟨group, hg, -, -, source⟩ | h
  · obtain ⟨v, view, file⟩ := entitySource_javascript js source
    obtain rfl := SourceFile.javascript.inj file
    split
    next enum =>
      rw [JavascriptFile.bindings_eq_bound]
      · exact List.nodup_singleton _
      · intro name bound
        obtain rfl := List.mem_singleton.mp bound
        exact view.className ▸ Naming.isWord_className d.name
    next notEnum =>
      refine apart.nodup_entity_bindings (fun n hn => ofDefinition d hd n ?_) hd notEnum view _
      simp [Definition.dependsOn, hn]
  · obtain ⟨v, view, file⟩ := clientSource_javascript js source
    obtain rfl := SourceFile.javascript.inj file
    exact apart.nodup_client_bindings ofAction hg view _
  · obtain ⟨name, version, others⟩ := supportFiles_javascript js parts.others
    rw [others] at h
    simp only [List.mem_cons, Prod.mk.injEq, SourceFile.javascript.injEq, List.not_mem_nil,
      or_false] at h
    rcases h with ⟨-, rfl⟩ | ⟨-, rfl⟩ | ⟨-, rfl⟩
    · decide
    · refine (nodup_index_bindings_iff parts.nodup_classNames parts.nodup_clientClasses).mpr
        fun d hd => ⟨apart.helper d hd, fun c hc => ?_⟩
      obtain ⟨a, ha, rfl⟩ := mem_names_groupByClient.mp hc
      exact apart.clients d hd a ha
    · rw [JavascriptFile.bindings_eq_bound]
      · exact List.nodup_nil
      · intro name bound
        cases bound

/-- An entity with a date and an amount, and a client that gives it back. -/
theorem transfer_modules_bind_once : ∃ tree,
    render ⟨⟨.javascript, .str "", .str "bank", .null⟩, .str "common", .str "", .str "1", true⟩
      [{ name := "Money" }, { name := "Transfer", properties :=
        [⟨"sum", "Money", .named "Money", false, none⟩,
          ⟨"at", "datetime", .scalar .datetime, true, none⟩] }]
      [{ path := "/transfers/last", responseType := some (.named "Transfer") }] = .ok tree ∧
    ∀ path f, (path, .javascript f) ∈ tree → f.bindings.Nodup := by
  have rendered : render
      ⟨⟨.javascript, .str "", .str "bank", .null⟩, .str "common", .str "", .str "1", true⟩
      [{ name := "Money" }, { name := "Transfer", properties :=
        [⟨"sum", "Money", .named "Money", false, none⟩,
          ⟨"at", "datetime", .scalar .datetime, true, none⟩] }]
      [{ path := "/transfers/last", responseType := some (.named "Transfer") }] = .ok _ := rfl
  refine ⟨_, rendered, (render_bindings_nodup_iff rfl rendered).mpr ⟨?_, ?_, ?_, ?_⟩⟩
  · decide
  · decide
  · decide
  · intro d hd _ base common
    have library := (mem_of_baseClass_eq_common common).2
    have apart : ∀ base ∈ ["Entity", "Result", "Filter"],
        "Money" ≠ base ∧ "Transfer" ≠ base := by decide
    rcases List.mem_pair.mp hd with rfl | rfl
    · refine ⟨(apart base library).1, ?_⟩
      rintro n (⟨p, hp, -⟩ | ⟨result, -⟩)
      · cases hp
      · cases result
    · refine ⟨(apart base library).2, ?_⟩
      rintro n (⟨p, hp, wraps, rfl⟩ | ⟨result, -⟩)
      · rcases List.mem_pair.mp hp with rfl | rfl
        · exact (apart base library).1
        · exact absurd rfl wraps.1
      · cases result

/-- A type may be called as the class of a client. Where the client gives it back, its
module imports that class and declares one of the same name. -/
theorem client_imports_own_class : ∃ tree f,
    render ⟨⟨.javascript, .str "", .str "bank", .null⟩, .str "common", .str "", .str "1", true⟩
      [{ name := "TransferClient" }]
      [{ path := "/clients", responseType := some (.named "TransferClient") }] = .ok tree ∧
    ("src/service/TransferClient.js", .javascript f) ∈ tree ∧
      "import TransferClient from '../entity/TransferClient';" ∈ f.lines ∧
      "class TransferClient \x7b" ∈ f.lines ∧ ¬ f.bindings.Nodup := by
  have twice (f : JavascriptFile) (h : f.bindings = ["RequestFactory", "TransferClient",
      "TransferClient"]) : ¬ f.bindings.Nodup := by
    rw [h]
    decide
  refine ⟨_, _, rfl, .tail _ (.head _), ?_, ?_, twice _ ?_⟩
  · decide
  · decide
  · with_unfolding_all rfl

end Modules

end ClientForge.Emission
