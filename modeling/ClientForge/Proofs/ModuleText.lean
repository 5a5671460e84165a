import ClientForge.Emission.JavascriptFile
import ClientForge.Proofs.Naming
import Mathlib.Data.List.Basic

/-!
# The text of a module

A module is printed line by line. What it imports, extends, constructs and calls is read
off its content here, and all of it stands in the lines; in the other direction, the lines
that open with the letter of a keyword are the imports and the declaration of the module,
in this order, and every line that opens as an import does is one of the imports. A
description cannot be taken for one, since its lines open as comments do.
-/

namespace ClientForge.Emission

open ClientForge.Text

/-- The comment of a class has a line for each line of the description, between two more. -/
theorem forall_mem_classComment {P : String → Prop} (opening : P "/**") (closing : P " */")
    (inner : ∀ line, P (commentLine "" line)) (description : List String) :
    ∀ line ∈ classComment description, P line := by
  unfold classComment
  split
  · exact List.forall_mem_nil P
  · refine List.forall_mem_cons.mpr ⟨opening, List.forall_mem_append.mpr ⟨?_, ?_⟩⟩
    · exact List.forall_mem_map.mpr fun line _ => inner line
    · exact List.forall_mem_singleton.mpr closing

section Statements

/-- Whether a line opens as the statements at the top of a file do: an import or a
declaration in one language, a namespace, a use or a class in the other. -/
def opensStatement (line : String) : Bool :=
  line.toList.head?.any fun c => ['i', 'c', 'n', 'u'].contains c

/-- Lines of which none opens a statement at the top of a module. -/
def Plain (lines : List String) : Prop := ∀ line ∈ lines, opensStatement line = false

instance (lines : List String) : Decidable (Plain lines) :=
  inferInstanceAs (Decidable (∀ line ∈ lines, opensStatement line = false))

theorem Plain.filter {lines : List String} (h : Plain lines) :
    lines.filter opensStatement = [] :=
  List.filter_eq_nil_iff.mpr fun line hl => by simp [h line hl]

theorem plain_append {a b : List String} : Plain (a ++ b) ↔ Plain a ∧ Plain b :=
  List.forall_mem_append

theorem plain_map {α : Type} {f : α → String} (h : ∀ x, opensStatement (f x) = false)
    (xs : List α) : Plain (xs.map f) :=
  List.forall_mem_map.mpr fun x _ => h x

theorem plain_flatMap {α : Type} {f : α → List String} (h : ∀ x, Plain (f x)) (xs : List α) :
    Plain (xs.flatMap f) :=
  List.forall_mem_flatMap.mpr fun x _ => h x

/-- A line of two words and something behind them. -/
theorem split_words {first second : String} (hf : ' ' ∉ first.toList) (hs : ' ' ∉ second.toList)
    (rest : String) :
    split ' ' (first ++ " " ++ second ++ " " ++ rest) = first :: second :: split ' ' rest := by
  have shape : first ++ " " ++ second ++ " " ++ rest =
      first ++ String.singleton ' ' ++ (second ++ String.singleton ' ' ++ rest) := by
    simp only [String.append_assoc]
    rfl
  rw [shape, split_append hf, split_append hs]

theorem opensStatement_of_split {line keyword : String} {rest : List String}
    (h : split ' ' line = keyword :: rest) (opens : opensStatement keyword = true) :
    opensStatement line = true := by
  have word : keyword ≠ "" := by
    rintro rfl
    cases opens
  rw [opensStatement, head?_of_split h word]
  exact opens

/-- A reader of statements needs to look at no other line. -/
theorem filterMap_filter_opensStatement {α : Type} {read : String → Option α}
    (h : ∀ line x, read line = some x → opensStatement line = true) (lines : List String) :
    (lines.filter opensStatement).filterMap read = lines.filterMap read := by
  rw [List.filterMap_filter]
  apply List.filterMap_congr
  intro line _
  cases found : read line with
  | none => simp
  | some x => simp [h line x found]

theorem plain_commentLine (indent : String) (blank : indent.toList.head?.all (· == ' '))
    (line : String) : opensStatement (commentLine indent line) = false := by
  unfold opensStatement commentLine
  cases first : indent.toList with
  | nil => simp [first]
  | cons c rest =>
      obtain rfl : c = ' ' := by simpa [first] using blank
      simp [first]

theorem plain_memberComment (description : List String) : Plain (memberComment description) :=
  plain_map (plain_commentLine "    " (by decide)) description

theorem plain_classComment (description : List String) : Plain (classComment description) :=
  forall_mem_classComment (by decide) (by decide) (plain_commentLine "" (by decide)) description

end Statements

namespace JavascriptFile

/-- The bodies of the methods of an entity. -/
def bodies : JavascriptFile → List Body
  | entity _ v =>
    v.item.toList.map (fun i => .creating .javascript i.conversion) ++
      v.properties.flatMap fun p =>
        [.reading p.key p.conversion, .writing p.key p.variableName p.conversion]
  | _ => []

/-- The expressions that the methods of a client reply with. -/
def replies : JavascriptFile → List Code
  | client _ v => v.methods.filterMap (·.reply.code?)
  | _ => []

/-- The classes of which a module constructs objects. -/
def constructs (f : JavascriptFile) : List String :=
  f.bodies.flatMap (·.constructs) ++ f.replies.flatMap (·.constructs) ++
    match f with
    | dateFactory => ["Date"]
    | _ => []

/-- The class that a module extends. -/
def extends? : JavascriptFile → Option String
  | entity _ v => some v.base.name
  | _ => none

/-- Whether a module calls the date helper. -/
def callsDateFactory (f : JavascriptFile) : Bool :=
  f.bodies.any (·.usesDate) || f.replies.any (·.usesDate)

/-- The names that a module binds: its imports and what it declares. -/
def bound (f : JavascriptFile) : List String := f.imports.map (·.binding) ++ f.declares?.toList

/-- What a module imports, extends and constructs stands in its lines. -/
theorem mem_lines (f : JavascriptFile) :
    (∀ i ∈ f.imports, i.line ∈ f.lines) ∧
      (∀ b ∈ f.bodies, ∀ line ∈ b.javascriptLines, line ∈ f.lines) ∧
      (∀ c ∈ f.replies, "                return " ++ c.javascript ++ ";" ∈ f.lines) ∧
      ∀ base, f.extends? = some base → ∀ cls, f.declares? = some cls →
        "class " ++ cls ++ " extends " ++ base ++ " \x7b" ∈ f.lines := by
  cases f with
  | entity common v =>
      refine ⟨?_, ?_, nofun, ?_⟩
      · intro i hi
        rcases List.mem_append.mp hi with hi | hi
        · simp [lines, entityLines, List.mem_map_of_mem hi]
        · simp [lines, entityLines, List.mem_map_of_mem hi]
      · intro b hb line h
        rcases List.mem_append.mp hb with hb | hb
        · obtain ⟨i, hi, rfl⟩ := List.mem_map.mp hb
          have item : line ∈ v.item.toList.flatMap itemLines :=
            List.mem_flatMap.mpr ⟨i, hi, by simp [itemLines, h]⟩
          simp [lines, entityLines, item]
        · obtain ⟨w, hw, hb⟩ := List.mem_flatMap.mp hb
          have property : line ∈ v.properties.flatMap propertyLines := by
            refine List.mem_flatMap.mpr ⟨w, hw, ?_⟩
            rcases List.mem_pair.mp hb with rfl | rfl
            · simp [propertyLines, h]
            · simp [propertyLines, h]
          simp [lines, entityLines, property]
      · rintro base ⟨⟩ cls ⟨⟩
        simp [lines, entityLines]
  | client common v =>
      refine ⟨?_, nofun, ?_, nofun⟩
      · intro i hi
        rcases List.mem_cons.mp hi with rfl | hi
        · simp [lines, clientLines]
        · simp [lines, clientLines, List.mem_map_of_mem hi]
      · intro c hc
        obtain ⟨m, hm, replied⟩ := List.mem_filterMap.mp hc
        have method : "                return " ++ c.javascript ++ ";" ∈
            v.methods.flatMap methodLines :=
          List.mem_flatMap.mpr ⟨m, hm, by simp [methodLines, replyLines, replied]⟩
        simp [lines, clientLines, method]
  | index exports =>
      refine ⟨?_, nofun, nofun, nofun⟩
      intro i hi
      obtain ⟨x, hx, rfl⟩ := List.mem_map.mp hi
      exact List.mem_append_left _ (List.mem_append_left _
        (List.mem_append_left _ (List.mem_map.mpr ⟨x, hx, rfl⟩)))
  | _ => exact ⟨nofun, nofun, nofun, nofun⟩

/-- The line that declares the class or the constant of a module. -/
def declarationLine? : JavascriptFile → Option String
  | entity _ v => some ("class " ++ v.className ++ " extends " ++ v.base.name ++ " \x7b")
  | enumeration v => some ("const " ++ v.className ++ " = Object.freeze(\x7b")
  | client _ v => some ("class " ++ v.className ++ " \x7b")
  | dateFactory => some "class DateFactory \x7b"
  | index _ => none
  | manifest _ _ _ => none

theorem plain_body (b : Body) : Plain b.javascriptLines := by
  cases b <;> simp [Plain, Body.javascriptLines, opensStatement]

theorem plain_itemLines (i : ItemView) : Plain (itemLines i) := by
  simp only [itemLines, plain_append, plain_body]
  simp [Plain, opensStatement]

theorem plain_propertyLines (w : PropertyView) : Plain (propertyLines w) := by
  simp only [propertyLines, plain_append, plain_body, plain_memberComment]
  split <;> simp [Plain, opensStatement]

theorem plain_methodLines (m : MethodView) : Plain (methodLines m) := by
  have reply : Plain (replyLines m.reply) := by
    unfold replyLines
    split <;> simp [Plain, opensStatement]
  simp only [methodLines, plain_append, plain_memberComment, reply]
  simp [Plain, opensStatement]

theorem plain_exportLines (name : String) : Plain (exportLines name) := by
  simp [Plain, exportLines, opensStatement]

theorem opensStatement_import (i : Import) : opensStatement i.line = true := by
  simp [opensStatement, Import.line]

theorem filter_imports (imports : List Import) :
    (imports.map (·.line)).filter opensStatement = imports.map (·.line) := by
  refine List.filter_eq_self.mpr fun line hl => ?_
  obtain ⟨i, -, rfl⟩ := List.mem_map.mp hl
  exact opensStatement_import i

/-- The statements at the top of a module are its imports and, behind them, what it
declares. -/
theorem filter_opensStatement (f : JavascriptFile) :
    f.lines.filter opensStatement = f.imports.map (·.line) ++ f.declarationLine?.toList := by
  cases f with
  | entity common v =>
      have space : Plain (if v.base.isCommon && (v.usesDate || !v.imports.isEmpty) then [""]
          else []) := by
        split <;> decide
      have declared : opensStatement ("class " ++ v.className ++ " extends " ++ v.base.name ++
          " \x7b") = true := by
        simp [opensStatement]
      simp only [lines, entityLines, List.filter_append, filter_imports, space.filter,
        (plain_classComment _).filter, (plain_flatMap plain_itemLines _).filter,
        (plain_flatMap plain_propertyLines _).filter, (plain_exportLines _).filter,
        List.filter_cons_of_pos declared, List.append_nil]
      rw [imports, declarationLine?, List.map_append, List.append_assoc, List.append_assoc]
      rfl
  | enumeration v =>
      have cases_ : Plain (v.cases.map fun c => "    " ++ c.constant ++ ": " ++ c.literal ++ ",") :=
        plain_map (fun c => by simp [opensStatement]) v.cases
      have declared :
          opensStatement ("const " ++ v.className ++ " = Object.freeze(\x7b") = true := by
        simp [opensStatement]
      simp only [lines, enumerationLines, List.filter_append, (plain_classComment _).filter,
        cases_.filter, (plain_exportLines _).filter, List.filter_cons_of_pos declared,
        List.append_nil, List.nil_append]
      rfl
  | client common v =>
      have space : Plain (if v.imports.isEmpty then [] else [""]) := by
        split <;> decide
      have declared : opensStatement ("class " ++ v.className ++ " \x7b") = true := by
        simp [opensStatement]
      have constructor_ : Plain ["    /**", "     * @param \x7bClientWrapper\x7d client",
          "     */", "    constructor(client) \x7b", "        this.client = client;",
          "    \x7d"] := by
        decide
      have opening := opensStatement_import (requestImport common)
      have closing : Plain ["\x7d"] := by decide
      simp only [lines, clientLines, List.filter_append, filter_imports, space.filter,
        List.filter_cons_of_pos opening, List.filter_nil,
        List.filter_cons_of_neg (show ¬ opensStatement "" = true by decide),
        List.filter_cons_of_pos declared, constructor_.filter, closing.filter,
        (plain_flatMap plain_methodLines _).filter, (plain_exportLines _).filter,
        List.append_nil]
      rfl
  | dateFactory =>
      have members : Plain (dateFactoryLines.drop 1) := by
        simp [Plain, opensStatement, dateFactoryLines, exportLines]
      exact congrArg ("class DateFactory \x7b" :: ·) members.filter
  | index exports =>
      have exported : Plain (exports.map fun e => "    " ++ e.1 ++ ",") :=
        plain_map (fun e => by simp [opensStatement]) exports
      have opening : Plain ["", "export \x7b"] := by decide
      have closing : Plain ["\x7d;"] := by decide
      have imported : exports.map (fun e => (Import.mk e.1 false e.2).line) =
          (exports.map fun e => Import.mk e.1 false e.2).map (·.line) := by
        rw [List.map_map]
        rfl
      simp only [lines, indexLines, List.filter_append, imported, filter_imports, opening.filter,
        exported.filter, closing.filter, List.append_nil]
      exact (List.append_nil _).symm
  | manifest packageName version common =>
      have plain : Plain (manifestLines packageName version common) := by
        simp [Plain, opensStatement, manifestLines]
      exact plain.filter

/-- Every line that opens as an import does is an import of the module. -/
theorem import_of_line {f : JavascriptFile} {line : String} (h : line ∈ f.lines)
    (opens : line.toList.head? = some 'i') : ∃ i ∈ f.imports, line = i.line := by
  have statement : line ∈ f.lines.filter opensStatement :=
    List.mem_filter.mpr ⟨h, by simp [opensStatement, opens]⟩
  rw [filter_opensStatement, List.mem_append, List.mem_map] at statement
  rcases statement with ⟨i, hi, rfl⟩ | declared
  · exact ⟨i, hi, rfl⟩
  · cases f <;> simp_all [declarationLine?]

end JavascriptFile

end ClientForge.Emission
