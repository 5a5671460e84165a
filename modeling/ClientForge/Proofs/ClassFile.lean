import ClientForge.Proofs.ClassText
import ClientForge.Proofs.Rendering

/-!
# The class files of a tree

Every file of a rendered PHP tree belongs to one of six families, each at a path of its
own making, and all of them stand below one namespace. The namespace, the class and the
short names that a file declares and uses are words of letters and digits, whatever the
specification and the settings say, so that they can be read back off its lines.
-/

namespace ClientForge.Emission

open ClientForge.Outcome ClientForge.Text

variable {e : Emitter} {definitions : List Definition} {actions : List Action} {tree : Tree}
  {space path : String} {f : PhpFile}

/-- The prefix of a namespace in the manifest, its backslashes doubled. -/
def autoloadText (space : String) : String :=
  String.ofList ((space ++ "\\").toList.flatMap fun c =>
    if c = '\x5c' then ['\x5c', '\x5c'] else [c])

/-- The files of a package with their paths. -/
inductive IsClassFile (e : Emitter) (definitions : List Definition) (actions : List Action)
    (space : String) : String → PhpFile → Prop
  | entity {d v} (hd : d ∈ definitions) (other : d.kind ≠ .enum)
      (view : IsEntityView .php definitions d v) :
      IsClassFile e definitions actions space (Naming.entityFile .php d.name)
        (.entity space e.common.text v)
  | enumeration {d v} (hd : d ∈ definitions) (enum : d.kind = .enum)
      (view : IsEntityView .php definitions d v) :
      IsClassFile e definitions actions space (Naming.entityFile .php d.name) (.enumeration space v)
  | client {c group v} (hg : (c, group) ∈ groupByClient actions)
      (view : IsClientView .php definitions c group v) :
      IsClassFile e definitions actions space (Naming.clientFile .php c)
        (.client space e.common.text v)
  | dateFactory :
      IsClassFile e definitions actions space "src/Service/DateFactory.php" (.dateFactory space)
  | clientFactory (baseUrl : String) (clients : List String) :
      IsClassFile e definitions actions space "src/Service/ClientFactory.php"
        (.clientFactory space e.common.text baseUrl clients)
  | manifest (packageName version requirement : String) :
      IsClassFile e definitions actions space "composer.json"
        (.manifest packageName version requirement (autoloadText space))

theorem entitySource_php (php : e.language = .php)
    (named : e.resolver.namespaceName = .ok space) {d : Definition} {file : SourceFile}
    (source : entitySource e definitions d = .ok file) :
    ∃ v, IsEntityView .php definitions d v ∧ file = .php
      (if d.kind = .enum then .enumeration space v else .entity space e.common.text v) := by
  simp only [entitySource, php, named, ok_bind] at source
  obtain ⟨v, viewed, source⟩ := bind_eq_ok.mp source
  obtain ⟨-, -, source⟩ := bind_eq_ok.mp source
  obtain rfl := Except.ok.inj source
  exact ⟨v, isEntityView viewed, rfl⟩

theorem clientSource_php (php : e.language = .php)
    (named : e.resolver.namespaceName = .ok space) {client : String} {group : List Action}
    {file : SourceFile} (source : clientSource e definitions client group = .ok file) :
    ∃ v, IsClientView .php definitions client group v ∧
      file = .php (.client space e.common.text v) := by
  simp only [clientSource, php, named, ok_bind] at source
  obtain ⟨v, viewed, source⟩ := bind_eq_ok.mp source
  obtain ⟨common, wrote, source⟩ := bind_eq_ok.mp source
  obtain rfl := text_of_written wrote
  simp only [pure_eq, ok_bind] at source
  split at source
  · cases source
  · obtain rfl := Except.ok.inj source
    exact ⟨v, isClientView viewed, rfl⟩

theorem supportFiles_php (php : e.language = .php) {clientNames : List String} {support : Tree}
    (made : supportFiles e definitions clientNames = .ok support) :
    ∃ space name version requirement baseUrl, e.resolver.namespaceName = .ok space ∧ support =
      [("src/Service/DateFactory.php", .php (.dateFactory space)),
        ("src/Service/ClientFactory.php",
          .php (.clientFactory space e.common.text baseUrl (clientNames.map Naming.clientClass))),
        ("composer.json", .php (.manifest name version requirement (autoloadText space)))] := by
  simp only [supportFiles, php] at made
  obtain ⟨space, named, made⟩ := bind_eq_ok.mp made
  obtain ⟨name, -, made⟩ := bind_eq_ok.mp made
  obtain ⟨vendor, -, made⟩ := bind_eq_ok.mp made
  obtain ⟨common, wrote, made⟩ := bind_eq_ok.mp made
  obtain ⟨baseUrl, -, made⟩ := bind_eq_ok.mp made
  obtain ⟨version, -, made⟩ := bind_eq_ok.mp made
  obtain rfl := text_of_written wrote
  exact ⟨space, _, _, _, _, named, (Except.ok.inj made).symm⟩

/-- Every file of a PHP tree belongs to one of the families. -/
theorem isClassFile_of_mem (php : e.language = .php)
    (rendered : render e definitions actions = .ok tree) :
    ∃ space, e.resolver.namespaceName = .ok space ∧ ∀ path file, (path, file) ∈ tree →
      ∃ f, file = .php f ∧ IsClassFile e definitions actions space path f := by
  obtain ⟨-, entities, clients, support, rfl, parts⟩ := render_eq_ok.mp rendered
  obtain ⟨space, name, version, requirement, baseUrl, named, others⟩ :=
    supportFiles_php php parts.others
  refine ⟨space, named, fun path file h => ?_⟩
  rcases parts.cases_of_mem h with ⟨d, hd, rfl, source⟩ | ⟨group, hg, -, rfl, source⟩ | h
  · obtain ⟨v, view, rfl⟩ := entitySource_php php named source
    rw [php]
    split
    next enum => exact ⟨_, rfl, .enumeration hd enum view⟩
    next other => exact ⟨_, rfl, .entity hd other view⟩
  · obtain ⟨v, view, rfl⟩ := clientSource_php php named source
    rw [php]
    exact ⟨_, rfl, .client hg view⟩
  · rw [others] at h
    simp only [List.mem_cons, Prod.mk.injEq, List.not_mem_nil, or_false] at h
    rcases h with ⟨rfl, rfl⟩ | ⟨rfl, rfl⟩ | ⟨rfl, rfl⟩
    · exact ⟨_, rfl, .dateFactory⟩
    · exact ⟨_, rfl, .clientFactory _ _⟩
    · exact ⟨_, rfl, .manifest _ _ _⟩

/-- The last segment of a namespace is a word. -/
theorem isWord_interface (api : String) :
    Naming.IsWord (Naming.orName (Naming.pascal api) "Api" ++ "Client") := by
  refine Naming.IsWord.append ?_ (by decide)
  unfold Naming.orName
  split
  · decide
  · exact Naming.isWord_className api

/-- The namespace of texts: the interface, below the vendor if that has a name. -/
theorem namespaceName_of_texts {r : Naming.Resolver} {vendor api : String}
    (given : r.vendor = .str vendor) (named : r.apiName = .str api) :
    r.namespaceName = .ok (if Naming.pascal vendor = "" then
      Naming.orName (Naming.pascal api) "Api" ++ "Client"
      else Naming.pascal vendor ++ "\\" ++
        (Naming.orName (Naming.pascal api) "Api" ++ "Client")) := by
  have nonempty : Naming.orName (Naming.pascal api) "Api" ++ "Client" ≠ "" := by
    intro empty
    simpa using congrArg (·.toList.getLast?) empty
  by_cases alone : Naming.pascal vendor = "" <;>
    simp [Naming.Resolver.namespaceName, Naming.nameText, given, named, alone, nonempty]

theorem eq_str_of_nameText {v : Value} {t : String} (h : Naming.nameText v = .ok t) :
    v = .str t := by
  cases v with
  | str s => rw [Except.ok.inj h]
  | _ => cases h

/-- A namespace is the word of the interface, below that of the vendor if there is one. -/
theorem namespaceName_eq_ok {r : Naming.Resolver} (named : r.namespaceName = .ok space) :
    ∃ vendor api, Naming.IsWord vendor ∧ Naming.IsWord api ∧
      (space = api ∨ space = vendor ++ "\\" ++ api) := by
  obtain ⟨vendor, given, rest⟩ := bind_eq_ok.mp named
  obtain ⟨api, called, -⟩ := bind_eq_ok.mp rest
  rw [namespaceName_of_texts (eq_str_of_nameText given) (eq_str_of_nameText called)] at named
  refine ⟨Naming.pascal vendor, _, Naming.isWord_className vendor, isWord_interface api, ?_⟩
  rw [← Except.ok.inj named]
  split
  · exact .inl rfl
  · exact .inr rfl

theorem mem_namespaceName {r : Naming.Resolver} (named : r.namespaceName = .ok space) {c : Char}
    (h : c ∈ space.toList) : isWordChar c = true ∨ c = '\x5c' := by
  obtain ⟨vendor, api, hv, ha, rfl | rfl⟩ := namespaceName_eq_ok named
  · exact .inl (ha c h)
  · simp only [String.toList_append, List.mem_append] at h
    rcases h with (h | h) | h
    · exact .inl (hv c h)
    · exact .inr (List.mem_singleton.mp h)
    · exact .inl (ha c h)

namespace IsClassFile

variable (member : IsClassFile e definitions actions space path f)
include member

theorem isWord_declares : ∀ name ∈ f.declares?, Naming.IsWord name := by
  intro name declared
  cases member with
  | entity hd other view =>
      obtain rfl := Option.some.inj declared
      exact view.className ▸ Naming.isWord_className _
  | enumeration hd enum view =>
      obtain rfl := Option.some.inj declared
      exact view.className ▸ Naming.isWord_className _
  | client hg view =>
      obtain rfl := Option.some.inj declared
      exact view.className ▸ Naming.isWord_clientClass _
  | dateFactory =>
      obtain rfl := Option.some.inj declared
      decide
  | clientFactory baseUrl clients =>
      obtain rfl := Option.some.inj declared
      decide
  | manifest packageName version requirement => cases declared

theorem isWord_imported : ∀ name ∈ f.imported, Naming.IsWord name := by
  intro name imported
  cases member with
  | @entity d v hd other view =>
      rcases List.mem_append.mp imported with base | date
      · cases extends_ : v.base with
        | generated _ => simp [BaseClass.library?, extends_] at base
        | common library =>
            obtain rfl : name = library := by simpa [BaseClass.library?, extends_] using base
            exact isWord_of_baseClass_eq_common (view.base.symm.trans extends_)
      · split at date
        · obtain rfl := List.mem_singleton.mp date
          decide
        · cases date
  | client hg view =>
      rcases List.mem_append.mp imported with library | entities
      · rcases List.mem_pair.mp library with rfl | rfl <;> decide
      · split at entities
        · cases entities
        · obtain rfl := List.mem_singleton.mp entities
          decide
  | clientFactory baseUrl clients =>
      obtain rfl := List.mem_singleton.mp imported
      decide
  | _ => cases imported

end IsClassFile

end ClientForge.Emission
