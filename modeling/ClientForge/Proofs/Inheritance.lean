import ClientForge.Catalog
import ClientForge.Proofs.ClassName
import ClientForge.Specification
import Mathlib.Data.Finite.Defs
import Mathlib.Data.Set.Finite.List
import Mathlib.Logic.Relation

/-!
# Inheritance between generated classes

A class extends the class of the supertype that its type names, or a class of the runtime
library. Rendering asks of a supertype only that it is defined, so the types may form a
circle, and an enumeration, which becomes a frozen object and no class, may stand above
others. From the classes that are read off a tree, following the bases leads to the
runtime library if and only if neither is the case for the types above the first one. The
classes and their bases are told by the views of the modules, and they can be read off the
printed lines.
-/

namespace ClientForge.Emission

open ClientForge.Outcome ClientForge.Text Relation

/-- The classes of the runtime library that generated classes extend. -/
def runtimeClasses : List String := ["Entity", "Result", "Filter"]

/-- A module of a tree declares a class with its base. -/
def Tree.Declares (tree : Tree) (cls : String) (base : BaseClass) : Prop :=
  ∃ path common v, (path, SourceFile.javascript (.entity common v)) ∈ tree ∧
    v.className = cls ∧ v.base = base

/-- The classes above a class: each is declared and extends the next one, and the last one
extends a class of the runtime library. -/
inductive Tree.Lineage (tree : Tree) : String → List String → Prop
  | root {cls library : String} (declared : tree.Declares cls (.common library))
      (provided : library ∈ runtimeClasses) : Lineage tree cls []
  | step {cls base : String} {above : List String}
      (declared : tree.Declares cls (.generated base)) (rest : Lineage tree base above) :
      Lineage tree cls (base :: above)

/-- Following the bases from a class leads to the runtime library after finitely many
steps, through classes that the tree declares and never back to the first one. -/
def Tree.InheritsSoundly (tree : Tree) (cls : String) : Prop :=
  ∃ above, Tree.Lineage tree cls above ∧ cls ∉ above

/-- One definition is the supertype that another one names. -/
def HasSupertype (definitions : List Definition) (d p : Definition) : Prop :=
  p ∈ definitions ∧ d.parentName? = some p.name

variable {e : Emitter} {definitions : List Definition} {actions : List Action}
  {entities clients support tree : Tree} {d p : Definition} {cls : String} {above : List String}

section Classes

variable (js : e.language = .javascript)
  (parts : Consists e definitions actions entities clients support)
include js parts

/-- The classes that a tree declares are those of the definitions that are no
enumerations. -/
theorem Consists.declares_iff {base : BaseClass} :
    Tree.Declares (entities ++ clients ++ support) cls base ↔
      ∃ d ∈ definitions, d.kind ≠ .enum ∧ Naming.className d.name = cls ∧ baseClass d = base := by
  constructor
  · rintro ⟨path, common, v, member, rfl, rfl⟩
    rcases parts.cases_of_mem member with ⟨d, hd, -, entity⟩ | ⟨group, -, -, -, client⟩ | others
    · obtain ⟨w, view, same⟩ := entitySource_javascript js entity
      by_cases enum : d.kind = .enum
      · simp [enum] at same
      · obtain ⟨-, rfl⟩ : common = e.common.text ∧ v = w := by simpa [enum] using same
        exact ⟨d, hd, enum, view.className.symm, view.base.symm⟩
    · obtain ⟨w, -, same⟩ := clientSource_javascript js client
      simp at same
    · obtain ⟨name, version, rfl⟩ := supportFiles_javascript js parts.others
      simp at others
  · rintro ⟨d, hd, enum, rfl, rfl⟩
    obtain ⟨file, entity, member⟩ := parts.exists_entity hd
    obtain ⟨v, view, rfl⟩ := entitySource_javascript js entity
    rw [if_neg enum] at member
    exact ⟨_, _, v, member, view.className, view.base⟩

omit js in
/-- Definitions are told apart by their classes. -/
theorem Consists.eq_of_className (hd : d ∈ definitions) (hp : p ∈ definitions)
    (same : Naming.className d.name = Naming.className p.name) : d = p :=
  List.inj_on_of_nodup_map parts.nodup_classNames hd hp same

/-- The base of the class of a definition, as the tree declares it. -/
theorem Consists.base_eq (hd : d ∈ definitions) {base : BaseClass}
    (declared : Tree.Declares (entities ++ clients ++ support) (Naming.className d.name) base) :
    d.kind ≠ .enum ∧ baseClass d = base := by
  obtain ⟨p, hp, enum, same, rfl⟩ := (parts.declares_iff js).mp declared
  obtain rfl := parts.eq_of_className hp hd same
  exact ⟨enum, rfl⟩

omit js in
/-- A definition has one supertype. -/
theorem Consists.supertype_unique {q : Definition} (hp : HasSupertype definitions d p)
    (hq : HasSupertype definitions d q) : p = q := by
  have names : p.name = q.name := Option.some.inj (hp.2.symm.trans hq.2)
  exact parts.eq_of_className hp.1 hq.1 (congrArg Naming.className names)

end Classes

/-- A base is told by its name and by whether it comes from the runtime library. -/
theorem BaseClass.eq_of_name {b c : BaseClass} (named : b.name = c.name)
    (library : b.isCommon = c.isCommon) : b = c := by
  cases b <;> cases c <;> simp_all [name, isCommon]

section Text

/-- The class that a line declares with the class that it extends. -/
def extensionOf? (line : String) : Option (String × String) :=
  match behind? "class" line with
  | some (cls :: "extends" :: base :: _) => some (cls, base)
  | _ => none

/-- The classes that the lines of a module declare with the classes that they extend. -/
def JavascriptFile.extensions (f : JavascriptFile) : List (String × String) :=
  f.lines.filterMap extensionOf?

theorem opensStatement_of_extensionOf? {line : String} {pair : String × String}
    (h : extensionOf? line = some pair) : opensStatement line = true := by
  unfold extensionOf? at h
  split at h
  next words => exact opensStatement_of_split (split_of_behind? words) (by decide)
  next => cases h

theorem extensionOf?_import (i : Import) : extensionOf? i.line = none := by
  have shape : i.line = "import" ++ " " ++ ((if i.named then braced (" " ++ i.binding ++ " ")
      else i.binding) ++ " from '" ++ i.source ++ "';") := by
    simp only [Import.line, String.append_assoc]
    rfl
  rw [extensionOf?, shape, behind?_append (by decide), if_neg (by decide)]

/-- The line that declares a class is read as it is written. -/
theorem extensionOf?_extends {cls base : String} (own : Naming.IsWord cls)
    (above : Naming.IsWord base) :
    extensionOf? ("class " ++ cls ++ " extends " ++ base ++ " \x7b") = some (cls, base) := by
  have blank : ' ' ∉ cls.toList := own.notMem (by decide)
  have blank' : ' ' ∉ base.toList := above.notMem (by decide)
  have shape : "class " ++ cls ++ " extends " ++ base ++ " \x7b" = "class" ++ " " ++ cls ++ " " ++
      ("extends" ++ " " ++ base ++ " " ++ "\x7b") := by
    simp only [String.append_assoc]
    rfl
  have inner := split_words (by decide : ' ' ∉ "extends".toList) blank' "\x7b"
  have words := split_words (by decide : ' ' ∉ "class".toList) blank
    ("extends" ++ " " ++ base ++ " " ++ "\x7b")
  rw [shape, extensionOf?, behind?, words, inner]
  rfl

/-- A line that declares a class without a base, or a constant, is not read. -/
theorem extensionOf?_keyword {keyword name : String} (word : Naming.IsWord name) (rest : String)
    (known : keyword = "class" ∧ (split ' ' rest).head? ≠ some "extends" ∨ keyword = "const") :
    extensionOf? (keyword ++ " " ++ name ++ " " ++ rest) = none := by
  have shape (first : String) : first ++ " " ++ name ++ " " ++ rest =
      first ++ " " ++ (name ++ " " ++ rest) := by
    simp only [String.append_assoc]
  have words : split ' ' (name ++ " " ++ rest) = name :: split ' ' rest :=
    split_append (word.notMem (by decide))
  rcases known with ⟨rfl, other⟩ | rfl
  · rw [extensionOf?, shape, behind?_append (by decide), if_pos rfl, words]
    split
    next found =>
      rw [(List.cons.inj (Option.some.inj found)).2] at other
      exact absurd rfl other
    next => rfl
  · rw [extensionOf?, shape, behind?_append (by decide), if_neg (by decide)]

/-- The class of an entity with its base. -/
def JavascriptFile.extension? : JavascriptFile → Option (String × String)
  | entity _ v => some (v.className, v.base.name)
  | _ => none

/-- A module extends one class at most, and only the module of an entity does. -/
theorem JavascriptFile.extensions_eq {f : JavascriptFile}
    (own : ∀ cls ∈ f.declares?, Naming.IsWord cls)
    (above : ∀ base ∈ f.extends?, Naming.IsWord base) :
    f.extensions = f.extension?.toList := by
  have imported : (f.imports.map (·.line)).filterMap extensionOf? = [] := by
    rw [List.filterMap_map, List.filterMap_eq_nil_iff]
    exact fun i _ => extensionOf?_import i
  rw [extensions, ← filterMap_filter_opensStatement fun _ _ => opensStatement_of_extensionOf?,
    filter_opensStatement, List.filterMap_append, imported, List.nil_append]
  cases f with
  | entity common v =>
      have read := extensionOf?_extends (own v.className rfl) (above v.base.name rfl)
      simp [declarationLine?, extension?, read]
  | enumeration v =>
      have read := extensionOf?_keyword (own v.className rfl) "= Object.freeze(\x7b" (.inr rfl)
      have shape : "const " ++ v.className ++ " = Object.freeze(\x7b" =
          "const" ++ " " ++ v.className ++ " " ++ "= Object.freeze(\x7b" := by
        simp only [String.append_assoc]
        rfl
      rw [← shape] at read
      simp [declarationLine?, extension?, read]
  | client common v =>
      have read := extensionOf?_keyword (own v.className rfl) "\x7b" (.inl ⟨rfl, by decide⟩)
      have shape : "class " ++ v.className ++ " \x7b" =
          "class" ++ " " ++ v.className ++ " " ++ "\x7b" := by
        simp only [String.append_assoc]
        rfl
      rw [← shape] at read
      simp [declarationLine?, extension?, read]
  | dateFactory => rfl
  | index exports => rfl
  | manifest packageName version common => rfl

/-- Whether a base comes from the runtime library is told by an import by name. -/
theorem JavascriptFile.import_mem_lines_iff {common : String} {v : EntityView}
    (words : ∀ name ∈ (entity common v).bound, Naming.IsWord name) :
    (Import.mk v.base.name true common).line ∈ (entity common v).lines ↔
      v.base.isCommon = true := by
  constructor
  · intro printed
    have opens : (Import.mk v.base.name true common).line.toList.head? = some 'i' := by
      simp [Import.line]
    obtain ⟨i, imported, same⟩ := import_of_line printed opens
    cases base : v.base with
    | common name => rfl
    | generated cls =>
        have default : i.named = false := by
          simp only [imports, baseImports, base, List.nil_append, entityImports, List.mem_append,
            List.mem_map] at imported
          rcases imported with date | ⟨cls, -, rfl⟩
          · split at date
            · rw [List.mem_singleton.mp date]
              rfl
            · cases date
          · rfl
        have word := words i.binding (List.mem_append_left _ (List.mem_map_of_mem imported))
        have brace : i.line.toList[7]? = some '\x7b' := by
          rw [← same]
          simp [Import.line, braced]
        simp only [Import.line, default] at brace
        cases read : i.binding.toList with
        | nil => simp [read] at brace
        | cons c rest =>
            obtain rfl : c = '\x7b' := by simpa [read] using brace
            have known : isWordChar '\x7b' = true := word '\x7b' (read ▸ List.mem_cons_self)
            exact absurd known (by decide)
  · intro library
    cases base : v.base with
    | common name =>
        have imported : Import.mk name true common ∈ (entity common v).imports := by
          simp [imports, baseImports, base]
        exact (entity common v).mem_lines.1 _ imported
    | generated cls =>
        rw [base] at library
        cases library

/-- What extends a class in a module of a tree is the view of an entity. -/
theorem Consists.extensions_eq (js : e.language = .javascript)
    (parts : Consists e definitions actions entities clients support) {path : String}
    {f : JavascriptFile}
    (h : (path, SourceFile.javascript f) ∈ entities ++ clients ++ support) :
    f.extensions = f.extension?.toList ∧ ∀ common v, f = .entity common v →
      common = e.common.text ∧ ∃ d, IsEntityView .javascript definitions d v := by
  rcases parts.cases_of_mem h with ⟨d, hd, -, entity⟩ | ⟨group, -, -, -, client⟩ | others
  · obtain ⟨v, view, same⟩ := entitySource_javascript js entity
    obtain rfl := SourceFile.javascript.inj same
    have own : Naming.IsWord v.className := view.className ▸ Naming.isWord_className d.name
    have above : Naming.IsWord v.base.name := view.base ▸ isWord_baseClass d
    split
    · exact ⟨JavascriptFile.extensions_eq (by rintro _ ⟨⟩; exact own) nofun, nofun⟩
    · refine ⟨JavascriptFile.extensions_eq (by rintro _ ⟨⟩; exact own)
        (by rintro _ ⟨⟩; exact above), ?_⟩
      rintro _ _ ⟨⟩
      exact ⟨rfl, d, view⟩
  · obtain ⟨v, view, same⟩ := clientSource_javascript js client
    obtain rfl := SourceFile.javascript.inj same
    have own : Naming.IsWord v.className := view.className ▸ Naming.isWord_clientClass _
    exact ⟨JavascriptFile.extensions_eq (by rintro _ ⟨⟩; exact own) nofun, nofun⟩
  · obtain ⟨name, version, rfl⟩ := supportFiles_javascript js parts.others
    simp only [List.mem_cons, Prod.mk.injEq, SourceFile.javascript.injEq, List.not_mem_nil,
      or_false] at others
    rcases others with ⟨-, rfl⟩ | ⟨-, rfl⟩ | ⟨-, rfl⟩
    · exact ⟨JavascriptFile.extensions_eq (by rintro _ ⟨⟩; decide) nofun, nofun⟩
    · exact ⟨JavascriptFile.extensions_eq nofun nofun, nofun⟩
    · exact ⟨JavascriptFile.extensions_eq nofun nofun, nofun⟩

/-- The classes that a tree declares with their bases are read off the lines of its modules: a
class is declared with a base exactly if a line says so, and the base comes from the runtime
library exactly if the module imports it by name. -/
theorem declares_iff_lines (js : e.language = .javascript)
    (rendered : render e definitions actions = .ok tree) {base : BaseClass} :
    tree.Declares cls base ↔
      ∃ path f, (path, SourceFile.javascript f) ∈ tree ∧ (cls, base.name) ∈ f.extensions ∧
        (base.isCommon = true ↔ (Import.mk base.name true e.common.text).line ∈ f.lines) := by
  obtain ⟨-, entities, clients, support, rfl, parts⟩ := render_eq_ok.mp rendered
  constructor
  · rintro ⟨path, common, v, member, rfl, rfl⟩
    obtain ⟨read, entity⟩ := Consists.extensions_eq js parts member
    obtain ⟨rfl, d, view⟩ := entity common v rfl
    refine ⟨path, _, member, ?_, ?_⟩
    · rw [read]
      exact List.mem_singleton_self _
    · exact (JavascriptFile.import_mem_lines_iff (view.isWord_bound _)).symm
  · rintro ⟨path, f, member, extended, library⟩
    obtain ⟨read, entity⟩ := Consists.extensions_eq js parts member
    rw [read] at extended
    cases f with
    | entity common v =>
        obtain ⟨rfl, d, view⟩ := entity common v rfl
        obtain ⟨rfl, named⟩ := Prod.mk.inj (List.mem_singleton.mp extended)
        rw [named, JavascriptFile.import_mem_lines_iff (view.isWord_bound _)] at library
        exact ⟨path, _, v, member, rfl,
          BaseClass.eq_of_name named.symm (Bool.eq_iff_iff.mpr library.symm)⟩
    | _ => cases extended

end Text

theorem HasSupertype.baseClass_eq (h : HasSupertype definitions d p) :
    baseClass d = .generated (Naming.className p.name) := by
  simp [baseClass, h.2]

/-- A class that extends a generated one has a supertype. -/
theorem exists_hasSupertype (defined : ∀ n ∈ d.dependsOn, n ∈ definitions.map (·.name))
    (h : baseClass d = .generated cls) :
    ∃ p, HasSupertype definitions d p ∧ Naming.className p.name = cls := by
  unfold baseClass at h
  split at h
  next n named =>
    obtain rfl := BaseClass.generated.inj h
    have listed : n ∈ d.dependsOn := by simp [Definition.dependsOn, named]
    obtain ⟨p, hp, rfl⟩ := List.mem_map.mp (defined n listed)
    exact ⟨p, ⟨hp, named⟩, rfl⟩
  next =>
    split at h
    · cases h
    · split at h <;> cases h

/-- A definition whose types above it are neither enumerations nor above themselves. -/
def IsUpright (definitions : List Definition) (d : Definition) : Prop :=
  ∀ a, ReflTransGen (HasSupertype definitions) d a →
    a.kind ≠ .enum ∧ ¬ TransGen (HasSupertype definitions) a a

theorem IsUpright.supertype (h : IsUpright definitions d) (hp : HasSupertype definitions d p) :
    IsUpright definitions p :=
  fun a ha => h a (.head hp ha)

/-- A rank that falls at every supertype rules circles out. -/
theorem isUpright_of_rank (rank : Definition → Nat)
    (falls : ∀ d p, HasSupertype definitions d p → rank p < rank d)
    (classes : ∀ a ∈ definitions, a.kind ≠ .enum) (hd : d ∈ definitions) :
    IsUpright definitions d := by
  have lower : ∀ a b, TransGen (HasSupertype definitions) a b → rank b < rank a := by
    intro a b above
    induction above with
    | single supertype => exact falls _ _ supertype
    | tail _ supertype ih => exact (falls _ _ supertype).trans ih
  intro a above
  refine ⟨?_, fun circle => (lower a a circle).false⟩
  obtain rfl | ⟨q, -, supertype⟩ := above.cases_tail
  · exact classes a hd
  · exact classes a supertype.1

section Lineage

variable (js : e.language = .javascript)
  (parts : Consists e definitions actions entities clients support)
  (defined : ∀ d ∈ definitions, ∀ n ∈ d.dependsOn, n ∈ definitions.map (·.name))
include js parts

/-- The types above a definition that extends a class of the runtime library are none but
itself, and none of them is above itself. -/
theorem Consists.isUpright_of_common {library : String} (hd : d ∈ definitions)
    (declared : Tree.Declares (entities ++ clients ++ support) (Naming.className d.name)
      (.common library)) :
    IsUpright definitions d := by
  obtain ⟨enum, base⟩ := parts.base_eq js hd declared
  have top : ∀ p, ¬ HasSupertype definitions d p := by
    intro p supertype
    rw [supertype.baseClass_eq] at base
    cases base
  intro a above
  obtain rfl | ⟨p, supertype, -⟩ := above.cases_head
  · refine ⟨enum, fun circle => ?_⟩
    obtain ⟨p, supertype, -⟩ := TransGen.head'_iff.mp circle
    exact top p supertype
  · exact absurd supertype (top p)

/-- A definition is upright if its class is declared and its supertype is upright. -/
theorem Consists.isUpright_of_supertype (hd : d ∈ definitions)
    (declared : Tree.Declares (entities ++ clients ++ support) (Naming.className d.name)
      (.generated cls))
    (supertype : HasSupertype definitions d p) (upright : IsUpright definitions p) :
    IsUpright definitions d := by
  obtain ⟨enum, -⟩ := parts.base_eq js hd declared
  intro a above
  obtain rfl | ⟨q, other, above⟩ := above.cases_head
  · refine ⟨enum, fun circle => ?_⟩
    obtain ⟨q, other, back⟩ := TransGen.head'_iff.mp circle
    obtain rfl := parts.supertype_unique supertype other
    -- the circle through the definition is one through its supertype
    exact (upright p .refl).2 (TransGen.tail' back supertype)
  · obtain rfl := parts.supertype_unique supertype other
    exact upright a above

include defined

/-- Where the classes above a class are finitely many, its type is upright. -/
theorem Consists.isUpright_of_lineage (hd : d ∈ definitions)
    (lineage : Tree.Lineage (entities ++ clients ++ support) (Naming.className d.name) above) :
    IsUpright definitions d := by
  generalize same : Naming.className d.name = cls at lineage
  induction lineage generalizing d with
  | root declared _ =>
      subst same
      exact parts.isUpright_of_common js hd declared
  | step declared _ ih =>
      subst same
      obtain ⟨-, base⟩ := parts.base_eq js hd declared
      obtain ⟨p, supertype, same⟩ := exists_hasSupertype (defined d hd) base
      exact parts.isUpright_of_supertype js hd declared supertype (ih supertype.1 same)

/-- A class stands above another only if its type does. -/
theorem Consists.exists_of_mem_above (hd : d ∈ definitions)
    (lineage : Tree.Lineage (entities ++ clients ++ support) (Naming.className d.name) above)
    (h : cls ∈ above) :
    ∃ a ∈ definitions, TransGen (HasSupertype definitions) d a ∧
      Naming.className a.name = cls := by
  generalize same : Naming.className d.name = own at lineage
  induction lineage generalizing d with
  | root => cases h
  | step declared _ ih =>
      subst same
      obtain ⟨-, base⟩ := parts.base_eq js hd declared
      obtain ⟨p, supertype, same⟩ := exists_hasSupertype (defined d hd) base
      rcases List.mem_cons.mp h with rfl | h
      · exact ⟨p, supertype.1, .single supertype, same⟩
      · obtain ⟨a, ha, beyond, named⟩ := ih supertype.1 h same
        exact ⟨a, ha, .head supertype beyond, named⟩

omit js parts defined in
/-- Going up from an upright definition ends, since there are finitely many definitions. -/
theorem IsUpright.wellFounded (hd : d ∈ definitions) (upright : IsUpright definitions d) :
    WellFounded fun p q : {a // ReflTransGen (HasSupertype definitions) d a} =>
      HasSupertype definitions q p := by
  let Below (p q : {a // ReflTransGen (HasSupertype definitions) d a}) : Prop :=
    TransGen (HasSupertype definitions) q p
  have listed : ∀ a : {a // ReflTransGen (HasSupertype definitions) d a}, a.1 ∈ definitions := by
    rintro ⟨a, above⟩
    obtain rfl | ⟨q, -, supertype⟩ := above.cases_tail
    · exact hd
    · exact supertype.1
  have : Finite {a // ReflTransGen (HasSupertype definitions) d a} :=
    Set.Finite.subset (List.finite_toSet definitions) fun a above => listed ⟨a, above⟩
  have : IsTrans _ Below := ⟨fun _ _ _ first second => second.trans first⟩
  have : Std.Irrefl Below := ⟨fun a circle => (upright a a.2).2 circle⟩
  have ends : WellFounded Below := Finite.wellFounded_of_trans_of_irrefl Below
  exact Subrelation.wf (fun supertype => TransGen.single supertype) ends

/-- The class of an upright definition has its lineage. -/
theorem Consists.exists_lineage (hd : d ∈ definitions) (upright : IsUpright definitions d) :
    ∃ above, Tree.Lineage (entities ++ clients ++ support) (Naming.className d.name) above := by
  suffices each : ∀ a : {a // ReflTransGen (HasSupertype definitions) d a}, a.1 ∈ definitions →
      ∃ above, Tree.Lineage (entities ++ clients ++ support) (Naming.className a.1.name) above from
    each ⟨d, .refl⟩ hd
  intro a
  induction a using (upright.wellFounded hd).induction with
  | h a ih =>
      intro ha
      have declared : Tree.Declares (entities ++ clients ++ support)
          (Naming.className a.1.name) (baseClass a.1) :=
        (parts.declares_iff js).mpr ⟨a.1, ha, (upright a.1 a.2).1, rfl, rfl⟩
      cases base : baseClass a.1 with
      | common library =>
          rw [base] at declared
          exact ⟨[], .root declared (mem_of_baseClass_eq_common base).2⟩
      | generated cls =>
          rw [base] at declared
          obtain ⟨p, supertype, rfl⟩ := exists_hasSupertype (defined a.1 ha) base
          obtain ⟨above, lineage⟩ := ih ⟨p, a.2.tail supertype⟩ supertype supertype.1
          exact ⟨_, .step declared lineage⟩

/-- Inheritance from the class of a definition is sound if and only if the definition is
upright. -/
theorem Consists.inheritsSoundly_iff (hd : d ∈ definitions) :
    Tree.InheritsSoundly (entities ++ clients ++ support) (Naming.className d.name) ↔
      IsUpright definitions d := by
  constructor
  · rintro ⟨above, lineage, -⟩
    exact parts.isUpright_of_lineage js defined hd lineage
  · intro upright
    obtain ⟨above, lineage⟩ := parts.exists_lineage js defined hd upright
    refine ⟨above, lineage, fun back => ?_⟩
    obtain ⟨a, ha, beyond, same⟩ := parts.exists_of_mem_above js defined hd lineage back
    obtain rfl := parts.eq_of_className ha hd same
    exact (upright a .refl).2 beyond

end Lineage

/-- Inheritance in a package. Every entity module of a rendered JavaScript tree is the class
of a definition, and following the bases from it leads to a class of the runtime library,
through finitely many classes that the tree declares and never back, if and only if neither
its type nor one above it is an enumeration or is above itself. -/
theorem render_inherits_soundly_iff (js : e.language = .javascript)
    (rendered : render e definitions actions = .ok tree) {path common : String} {v : EntityView}
    (h : (path, .javascript (.entity common v)) ∈ tree) :
    ∃ d ∈ definitions, Naming.className d.name = v.className ∧
      (tree.InheritsSoundly v.className ↔
        ∀ a, ReflTransGen (HasSupertype definitions) d a →
          a.kind ≠ .enum ∧ ¬ TransGen (HasSupertype definitions) a a) := by
  obtain ⟨passes, entities, clients, support, rfl, parts⟩ := render_eq_ok.mp rendered
  obtain ⟨defined, -⟩ := defined_of_dangling?_eq_none passes
  obtain ⟨d, hd, -, named, -⟩ := (parts.declares_iff js).mp ⟨path, common, v, h, rfl, rfl⟩
  refine ⟨d, hd, named, ?_⟩
  rw [← named]
  exact parts.inheritsSoundly_iff js defined hd

/-- A refund is a transfer and a transfer an entry, which extends the runtime library. -/
theorem refund_inherits_soundly : ∃ tree v,
    render ⟨⟨.javascript, .str "", .str "bank", .null⟩, .str "common", .str "", .str "1", true⟩
      [{ name := "Entry" }, { name := "Transfer", parent := some "Entry" },
        { name := "Refund", parent := some "Transfer" }] [] = .ok tree ∧
    ("src/entity/Refund.js", .javascript (.entity "common" v)) ∈ tree ∧
      v.className = "Refund" ∧ tree.InheritsSoundly "Refund" := by
  have rendered : render
      ⟨⟨.javascript, .str "", .str "bank", .null⟩, .str "common", .str "", .str "1", true⟩
      [{ name := "Entry" }, { name := "Transfer", parent := some "Entry" },
        { name := "Refund", parent := some "Transfer" }] [] = .ok _ := rfl
  refine ⟨_, _, rendered, .tail _ (.tail _ (.head _)), rfl, ?_⟩
  obtain ⟨d, hd, named, sound⟩ :=
    render_inherits_soundly_iff rfl rendered (.tail _ (.tail _ (.head _)))
  let rank (d : Definition) : Nat :=
    match d.parentName? with
    | none => 0
    | some "Entry" => 1
    | some "Transfer" => 2
    | some _ => 3
  refine sound.mpr (isUpright_of_rank rank ?_ (by decide) hd)
  rintro a p ⟨listed, named⟩
  simp only [List.mem_cons, List.not_mem_nil, or_false] at listed
  rcases listed with rfl | rfl | rfl <;> · simp only [rank, named]; decide

/-- Two types of a document that are each other's supertype are rendered, and their classes
extend one another. -/
theorem circular_supertypes_rendered : ∃ tree v,
    Specification.ofDocument
      (.map [(.str "title", .str "Bank"),
        (.str "types", .map [(.str "Account", .map [(.str "type", .str "Customer")]),
          (.str "Customer", .map [(.str "type", .str "Account")])])]) none none =
      .ok ⟨"Bank", [("Account", .map [(.str "type", .str "Customer")]),
        ("Customer", .map [(.str "type", .str "Account")])], [], [], .null, none⟩ ∧
    Catalog.definitions .standard .warn
      [("Account", .map [(.str "type", .str "Customer")]),
        ("Customer", .map [(.str "type", .str "Account")])] [] =
      .ok [{ name := "Account", parent := some "Customer" },
        { name := "Customer", parent := some "Account" }] ∧
    render ⟨⟨.javascript, .str "", .str "bank", .null⟩, .str "common", .str "", .str "1", true⟩
      [{ name := "Account", parent := some "Customer" },
        { name := "Customer", parent := some "Account" }] [] = .ok tree ∧
    ("src/entity/Account.js", .javascript (.entity "common" v)) ∈ tree ∧
      v.className = "Account" ∧ ¬ tree.InheritsSoundly "Account" := by
  have rendered : render
      ⟨⟨.javascript, .str "", .str "bank", .null⟩, .str "common", .str "", .str "1", true⟩
      [{ name := "Account", parent := some "Customer" },
        { name := "Customer", parent := some "Account" }] [] = .ok _ := rfl
  refine ⟨_, _, ?parsed, ?built, rendered, .head _, rfl, ?circle⟩
  case parsed => with_unfolding_all rfl
  case built => with_unfolding_all rfl
  case circle =>
    obtain ⟨passes, entities, clients, support, same, parts⟩ := render_eq_ok.mp rendered
    obtain ⟨defined, -⟩ := defined_of_dangling?_eq_none passes
    rw [same]
    intro sound
    have upright := (parts.inheritsSoundly_iff rfl defined List.mem_cons_self).mp sound
    -- an account is a customer, and a customer is an account
    exact (upright _ .refl).2 (.head ⟨.tail _ (.head _), rfl⟩ (.single ⟨.head _, rfl⟩))

end ClientForge.Emission
