import ClientForge.Proofs.ClassFile
import ClientForge.Text.Case

/-!
# Short names in a class file

A class file makes classes of the runtime library known by their short names, and it
declares a class of its own. The language takes two names for one if they differ in the
case of letters only, and it refuses a file in which the declared class has the name of
a class in use. Which classes a file uses is fixed by what the definition or the client
is; how its own class is called is up to the specification, and nothing is compared. The
one condition that keeps all files legal is stated here over definitions and actions.
-/

namespace ClientForge.Emission

open ClientForge.Outcome ClientForge.Text

/-- Whether two names are one to the language, which does not look at the case of letters. -/
def SameClass (a b : String) : Prop := lowerAscii a.toList = lowerAscii b.toList

instance (a b : String) : Decidable (SameClass a b) :=
  inferInstanceAs (Decidable (lowerAscii a.toList = lowerAscii b.toList))

theorem sameClass_append {a b : String} (ending : String) :
    SameClass (a ++ ending) (b ++ ending) ↔ SameClass a b := by
  simp only [SameClass, lowerAscii, String.toList_append, List.map_append,
    List.append_cancel_right_eq]

/-- A class of a client is no other than one that ends in the same letter. -/
theorem not_sameClass_clientClass {name : String}
    (h : (lowerAscii name.toList).getLast? ≠ some 't') (client : String) :
    ¬ SameClass (Naming.clientClass client) name := by
  intro same
  apply h
  rw [← same]
  simp [lowerAscii, Naming.clientClass]

/-- Every class file keeps its own class apart from what it uses. -/
structure NamesApart (definitions : List Definition) (actions : List Action) : Prop where
  bases : ∀ d ∈ definitions, d.kind ≠ .enum → ∀ base, baseClass d = .common base →
    ¬ SameClass (Naming.className d.name) base
  dates : ∀ d ∈ definitions, d.kind ≠ .enum → TurnsDates d →
    ¬ SameClass (Naming.className d.name) "DateFactory"
  clients : ∀ a ∈ actions, ¬ SameClass (Naming.className a.client) "Api"

/-- Whether the classes that a file declares are called as none that it uses. -/
def PhpFile.IsLegal (f : PhpFile) : Prop :=
  ∀ cls ∈ f.classes, ∀ short ∈ f.shortNames, ¬ SameClass cls short

variable {e : Emitter} {definitions : List Definition} {actions : List Action} {tree : Tree}
  {space path : String} {f : PhpFile}

theorem IsClassFile.isLegal_iff (member : IsClassFile e definitions actions space path f) :
    f.IsLegal ↔ ∀ cls ∈ f.declares?, ∀ short ∈ f.imported, ¬ SameClass cls short := by
  simp only [PhpFile.IsLegal, PhpFile.classes_eq member.isWord_declares,
    PhpFile.shortNames_eq member.isWord_declares member.isWord_imported, Option.mem_toList,
    Option.mem_def]

theorem isLegal_entity_iff {d : Definition} {v : EntityView}
    (view : IsEntityView .php definitions d v) (common : String) :
    (∀ cls ∈ (PhpFile.entity space common v).declares?,
        ∀ short ∈ (PhpFile.entity space common v).imported, ¬ SameClass cls short) ↔
      (∀ base, baseClass d = .common base → ¬ SameClass (Naming.className d.name) base) ∧
        (TurnsDates d → ¬ SameClass (Naming.className d.name) "DateFactory") := by
  rw [← view.usesDate_iff, ← view.base, ← view.className]
  simp only [PhpFile.declares?, PhpFile.imported, Option.mem_some_iff, forall_eq', List.mem_append,
    or_imp, forall_and]
  cases extends_ : v.base with
  | generated _ => by_cases date : v.usesDate = true <;> simp [BaseClass.library?, date]
  | common base => by_cases date : v.usesDate = true <;> simp [BaseClass.library?, date]

/-- A client uses one class that it can be called as. -/
theorem isLegal_client_iff {client : String} {group : List Action} {v : ClientView}
    (view : IsClientView .php definitions client group v) (common : String) :
    (∀ cls ∈ (PhpFile.client space common v).declares?,
        ∀ short ∈ (PhpFile.client space common v).imported, ¬ SameClass cls short) ↔
      ¬ SameClass (Naming.className client) "Api" := by
  have request := not_sameClass_clientClass (show (lowerAscii
    "RequestMethodInterface".toList).getLast? ≠ some 't' by decide) client
  have entities := not_sameClass_clientClass (show (lowerAscii
    "Entities".toList).getLast? ≠ some 't' by decide) client
  have own : SameClass (Naming.clientClass client) "ApiClient" ↔
      SameClass (Naming.className client) "Api" := sameClass_append (b := "Api") "Client"
  simp only [PhpFile.declares?, PhpFile.imported, view.className]
  by_cases alone : v.imports.isEmpty = true <;> simp [alone, request, entities, own]

/-- The class files of a rendered tree are legal exactly if the names keep apart. -/
theorem render_isLegal_iff (php : e.language = .php)
    (rendered : render e definitions actions = .ok tree) :
    (∀ path f, (path, .php f) ∈ tree → f.IsLegal) ↔ NamesApart definitions actions := by
  obtain ⟨space, named, families⟩ := isClassFile_of_mem php rendered
  have member {path : String} {f : PhpFile} (h : (path, .php f) ∈ tree) :
      IsClassFile e definitions actions space path f := by
    obtain ⟨g, same, family⟩ := families path _ h
    exact SourceFile.php.inj same ▸ family
  constructor
  · intro legal
    obtain ⟨-, entities, clients, support, rfl, parts⟩ := render_eq_ok.mp rendered
    have entity (d : Definition) (hd : d ∈ definitions) (other : d.kind ≠ .enum) :
        (∀ base, baseClass d = .common base → ¬ SameClass (Naming.className d.name) base) ∧
          (TurnsDates d → ¬ SameClass (Naming.className d.name) "DateFactory") := by
      obtain ⟨file, source, there⟩ := parts.exists_entity hd
      obtain ⟨v, view, rfl⟩ := entitySource_php php named source
      rw [if_neg other] at there
      exact (isLegal_entity_iff view _).mp ((member there).isLegal_iff.mp (legal _ _ there))
    refine ⟨fun d hd other => (entity d hd other).1, fun d hd other => (entity d hd other).2, ?_⟩
    intro a ha
    obtain ⟨group, hg, -⟩ := exists_group ha
    obtain ⟨file, source, there⟩ := parts.exists_client hg
    obtain ⟨v, view, rfl⟩ := clientSource_php php named source
    exact (isLegal_client_iff view _).mp ((member there).isLegal_iff.mp (legal _ _ there))
  · intro apart path f h
    have family := member h
    refine family.isLegal_iff.mpr ?_
    cases family with
    | @entity d v hd other view =>
        exact (isLegal_entity_iff view _).mpr ⟨apart.bases d hd other, apart.dates d hd other⟩
    | @client c group v hg view =>
        refine (isLegal_client_iff view _).mpr ?_
        obtain ⟨a, ha, rfl⟩ := mem_names_groupByClient.mp (Table.mem_names_of_mem hg)
        exact apart.clients a ha
    | clientFactory baseUrl clients =>
        rintro cls ⟨⟩ short used
        obtain rfl := List.mem_singleton.mp used
        decide
    | _ => exact fun _ _ _ => nofun

/-- A transfer with a date, given back by a client of its own. -/
theorem transfer_files_legal : ∃ tree,
    render ⟨⟨.php, .str "acme", .str "bank", .null⟩, .str "Lib", .str "", .str "1", true⟩
      [{ name := "Transfer", properties :=
        [⟨"at", "datetime", .scalar .datetime, true, none⟩] }]
      [{ path := "/transfers/last", responseType := some (.named "Transfer") }] = .ok tree ∧
    ∀ path f, (path, .php f) ∈ tree → f.IsLegal := by
  have rendered : render
      ⟨⟨.php, .str "acme", .str "bank", .null⟩, .str "Lib", .str "", .str "1", true⟩
      [{ name := "Transfer", properties :=
        [⟨"at", "datetime", .scalar .datetime, true, none⟩] }]
      [{ path := "/transfers/last", responseType := some (.named "Transfer") }] = .ok _ := rfl
  refine ⟨_, rendered, (render_isLegal_iff rfl rendered).mpr ⟨?_, ?_, ?_⟩⟩
  · intro d hd _ base extends_
    have apart : ∀ base ∈ ["Entity", "Result", "Filter"], ¬ SameClass "Transfer" base := by decide
    obtain rfl := List.mem_singleton.mp hd
    exact apart base (mem_of_baseClass_eq_common extends_).2
  · intro d hd _ _
    obtain rfl := List.mem_singleton.mp hd
    decide
  · decide

/-- A document without a title calls its client as the class that every client uses. -/
theorem untitled_client_uses_own_name : ∃ s tree f,
    Specification.ofDocument (.map [(.str "/items", .map [(.str "get", .null)])]) none none =
      .ok s ∧
    Catalog.definitions .standard .warn s.types s.traits = .ok [] ∧
    render ⟨⟨.php, .str "acme", .str "shop", .null⟩, .str "Lib", .str "", .str "1.0.0", true⟩ []
      s.actions = .ok tree ∧
    ("src/Service/ApiClient.php", .php f) ∈ tree ∧
      "use Lib\\Client\\ApiClient;" ∈ f.lines ∧ "class ApiClient" ∈ f.lines ∧ ¬ f.IsLegal := by
  have clash (f : PhpFile) (declared : f.classes = ["ApiClient"])
      (used : f.shortNames = ["RequestMethodInterface", "ApiClient"]) : ¬ f.IsLegal := by
    intro legal
    rw [PhpFile.IsLegal, declared, used] at legal
    exact legal "ApiClient" List.mem_cons_self "ApiClient" (by decide) rfl
  refine ⟨⟨"Api", [], [], [{ client := "Api", path := "/items" }], .null, none⟩, _, _, ?_, rfl, rfl,
    .head _, ?_, ?_, clash _ ?_ ?_⟩
  · with_unfolding_all rfl
  · decide
  · decide
  · with_unfolding_all rfl
  · with_unfolding_all rfl

end ClientForge.Emission
