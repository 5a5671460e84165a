import ClientForge.Catalog
import ClientForge.Proofs.Registry
import ClientForge.Proofs.Table
import Mathlib.Data.List.Nodup

/-!
# What a catalog holds

The pass over the declarations marks the base filter wherever it comes up, so what it
finds does not depend on the order in which filters and their base are declared. The
description here looks at the declarations one by one and at the whole list once: each
declaration goes to the supporting builder of lowest position, each definition that is
emitted stands where its declaration stood, and one question about all declarations,
whether any of them built a base filter, decides about the mark on every filter.
-/

namespace ClientForge

/-- A builder answers a declaration if it can write out what it has to and gives nothing
or a definition of the declared name. -/
structure Builder.Answers (b : Builder) (name : String) (declaration : Value) : Prop where
  writable : Value.areWritable (b.texts declaration) = true
  named : ∀ d, b.build name declaration = some d → d.name = name

namespace Catalog

variable {r : Registry} {types traits : Table Value}

/-- The declarations of a document: the types in their places, overlaid by the traits. -/
def declared (types traits : Table Value) : Table Value := Table.overlay types traits

/-- What its builder makes of a declaration. -/
def built? (r : Registry) (e : String × Value) : Option Definition :=
  (r.firstMatch e.1 e.2).bind fun b => b.build e.1 e.2

/-- A filter that carries the base mark. -/
def IsBaseFilter (d : Definition) : Prop := d.kind = .filter ∧ d.isBaseFilter = true

instance : DecidablePred IsBaseFilter := fun d =>
  inferInstanceAs (Decidable (d.kind = .filter ∧ d.isBaseFilter = true))

/-- What is emitted for a declaration: all that is built, except base filters. -/
def emitted? (r : Registry) (e : String × Value) : Option Definition :=
  (built? r e).filter fun d => ¬ IsBaseFilter d

/-- Whether a declaration builds a base filter. -/
def buildsBase (r : Registry) (e : String × Value) : Bool :=
  (built? r e).any fun d => IsBaseFilter d

/-- The names of the declarations that no builder supports. -/
def unsupported (r : Registry) (declared : Table Value) : List String :=
  Table.names (declared.filter fun e => (r.firstMatch e.1 e.2).isNone)

/-- A definition as it is emitted: a filter extends the base filter if there is one. -/
def marked (base : Bool) (d : Definition) : Definition :=
  { d with extendsBaseFilter := d.extendsBaseFilter || (base && d.kind = .filter) }

/-- The definitions that are emitted for some declarations. -/
def emitted (r : Registry) (declared : Table Value) : List Definition :=
  (declared.filterMap (emitted? r)).map (marked (declared.any (buildsBase r)))

@[simp] theorem marked_name (base : Bool) (d : Definition) : (marked base d).name = d.name := rfl

@[simp] theorem marked_kind (base : Bool) (d : Definition) : (marked base d).kind = d.kind := rfl

theorem marked_of_ne_filter (base : Bool) {d : Definition} (h : d.kind ≠ .filter) :
    marked base d = d := by
  simp [marked, h]

@[simp] theorem marked_false (d : Definition) : marked false d = d := by
  simp [marked]

theorem marked_true (d : Definition) : marked true d = extend d := by
  by_cases h : d.kind = .filter <;> simp [marked, extend, Definition.isFilter, h]

theorem isBase_iff (d : Definition) : isBase d = true ↔ IsBaseFilter d := by
  simp [isBase, IsBaseFilter, Definition.isFilter]

/-- One step of the pass, by what the declaration builds. -/
theorem step_eq (r : Registry) (name : String) (declaration : Value) (rest : Pass) :
    (step r name declaration rest).definitions =
        (emitted? r (name, declaration)).toList ++ rest.definitions ∧
      (step r name declaration rest).sawBase =
        (buildsBase r (name, declaration) || rest.sawBase) ∧
      (step r name declaration rest).skipped =
        (if (r.firstMatch name declaration).isNone then [name] else []) ++ rest.skipped := by
  cases found : r.firstMatch name declaration with
  | none => simp [step, emitted?, buildsBase, built?, found]
  | some b =>
      cases made : b.build name declaration with
      | none => simp [step, emitted?, buildsBase, built?, found, made]
      | some d =>
          by_cases base : isBase d = true
          · have hd := (isBase_iff d).mp base
            simp [step, emitted?, buildsBase, built?, found, made, base, hd]
          · have hd := mt (isBase_iff d).mpr base
            simp [step, emitted?, buildsBase, built?, found, made, base, hd, Option.filter]

/-- The whole pass: what is emitted, whether there is a base filter, what is skipped. -/
theorem pass_eq (r : Registry) (declared : Table Value) :
    (pass r declared).definitions = declared.filterMap (emitted? r) ∧
      (pass r declared).sawBase = declared.any (buildsBase r) ∧
      (pass r declared).skipped = unsupported r declared := by
  induction declared with
  | nil => simp [pass, Pass.empty, unsupported]
  | cons e rest ih =>
      obtain ⟨definitions, sawBase, skipped⟩ := step_eq r e.1 e.2 (pass r rest)
      refine ⟨?_, ?_, ?_⟩
      · rw [pass, definitions, ih.1, List.filterMap_cons]
        cases emitted? r e <;> simp
      · rw [pass, sawBase, ih.2.1, List.any_cons]
      · rw [pass, skipped, ih.2.2, unsupported, unsupported, List.filter_cons]
        split <;> simp_all

/-- A finished pass marks what it emits. -/
theorem pass_result (r : Registry) (declared : Table Value) :
    (pass r declared).result = emitted r declared := by
  obtain ⟨definitions, sawBase, -⟩ := pass_eq r declared
  rw [Pass.result, definitions, sawBase, emitted]
  cases base : declared.any (buildsBase r) with
  | true => exact List.map_congr_left fun d _ => (marked_true d).symm
  | false => simp [show marked false = id from funext marked_false]

/-- What is emitted bears the names of its declarations in their order. -/
theorem names_emitted_sublist {declared : Table Value}
    (named : ∀ e ∈ declared, ∀ d, built? r e = some d → d.name = e.1) :
    ((emitted r declared).map (·.name)).Sublist declared.names := by
  rw [emitted, List.map_map]
  change ((declared.filterMap (emitted? r)).map (·.name)).Sublist declared.names
  induction declared with
  | nil => exact List.Sublist.refl _
  | cons e rest ih =>
      have tail := ih fun f hf => named f (List.mem_cons_of_mem _ hf)
      cases h : emitted? r e with
      | none =>
          rw [List.filterMap_cons_none h]
          exact tail.cons _
      | some d =>
          have made : built? r e = some d := (Option.filter_eq_some_iff.mp h).1
          rw [List.filterMap_cons_some h, List.map_cons,
            named e List.mem_cons_self d made]
          exact tail.cons_cons _

/-- Building succeeds with what is emitted, or refuses what nobody supports, once every
builder answers. -/
theorem definitions_eq (policy : Policy)
    (answers : ∀ e ∈ merge types traits, ∀ b, r.firstMatch e.1 e.2 = some b →
      b.Answers e.1 e.2) :
    definitions r policy types traits =
      if policy = .refuse ∧ unsupported r (merge types traits) ≠ [] then
        .error (.unrecognized (unsupported r (merge types traits)))
      else .ok (emitted r (merge types traits)) := by
  have buildable : ((merge types traits).any fun e => !isBuildable r e.1 e.2) = false := by
    rw [List.any_eq_false]
    intro e he
    cases found : r.firstMatch e.1 e.2 with
    | none => simp [isBuildable, found]
    | some b => simp [isBuildable, found, (answers e he b found).writable]
  simp only [definitions, buildable, Bool.false_eq_true, if_false, pass_result,
    (pass_eq r (merge types traits)).2.2]

theorem merge_eq_declared (typesOnce : (Table.names types).Nodup)
    (traitsOnce : (Table.names traits).Nodup) : merge types traits = declared types traits :=
  Table.update_eq_overlay typesOnce traitsOnce

/-- The definitions of a document. Its declarations are the types, overlaid by the
traits. Each goes to the first builder that supports it, the one of lowest position where
the entries ascend. Unsupported ones are refused, all of them and in their order, if the
policy says so. Otherwise what is built comes out in the order of the declarations, no
name twice, without absent definitions and base filters; every filter extends the base
filter if any declaration built one, and nothing else of a definition is touched. -/
theorem definitions_of_registry (r : Registry) (policy : Policy) (types traits : Table Value)
    (typesOnce : (Table.names types).Nodup) (traitsOnce : (Table.names traits).Nodup)
    (answers : ∀ p ∈ r.entries, ∀ e ∈ declared types traits,
      p.builder.supports e.1 e.2 = true → p.builder.Answers e.1 e.2) :
    (∀ e ∈ declared types traits, r.Gives e.1 e.2 (r.firstMatch e.1 e.2)) ∧
    (policy = .refuse → unsupported r (declared types traits) ≠ [] →
      definitions r policy types traits =
        .error (.unrecognized (unsupported r (declared types traits)))) ∧
    (¬ (policy = .refuse ∧ unsupported r (declared types traits) ≠ []) →
      definitions r policy types traits = .ok (emitted r (declared types traits))) ∧
    ((emitted r (declared types traits)).map (·.name)).Nodup ∧
    ((emitted r (declared types traits)).map (·.name)).Sublist
      (Table.names (declared types traits)) ∧
    ∀ d ∈ emitted r (declared types traits), d.kind ≠ .filter →
      ∃ e ∈ declared types traits, built? r e = some d := by
  have answered : ∀ e ∈ declared types traits, ∀ b, r.firstMatch e.1 e.2 = some b →
      b.Answers e.1 e.2 := by
    intro e he b found
    obtain ⟨p, hp, rfl, supports⟩ := Registry.firstMatch_eq_some found
    exact answers p hp e he supports
  have merged := merge_eq_declared typesOnce traitsOnce
  have outcome := definitions_eq policy (merged ▸ answered)
  rw [merged] at outcome
  have order : ((emitted r (declared types traits)).map (·.name)).Sublist
      (Table.names (declared types traits)) := by
    apply names_emitted_sublist
    intro e he d made
    obtain ⟨b, found, build⟩ := Option.bind_eq_some_iff.mp made
    exact (answered e he b found).named d build
  refine ⟨fun e _ => Registry.gives_firstMatch r e.1 e.2, ?_, ?_, ?_, order, ?_⟩
  · intro refuse unknown
    rw [outcome, if_pos ⟨refuse, unknown⟩]
  · intro accepted
    rw [outcome, if_neg accepted]
  · exact (Table.nodup_names_overlay typesOnce traitsOnce).sublist order
  · intro d hd other
    obtain ⟨c, hc, rfl⟩ := List.mem_map.mp hd
    obtain ⟨e, he, kept⟩ := List.mem_filterMap.mp hc
    refine ⟨e, he, ?_⟩
    rw [marked_of_ne_filter _ (by simpa using other)]
    exact (Option.filter_eq_some_iff.mp kept).1

/-- A base filter that is declared last and as a trait still marks the filter before it. -/
theorem definitions_base_filter_last :
    definitions .standard .warn
      [("OwnFilter", .map [(.str "type", .str "Filter")]), ("Mystery", .int 42),
        ("Money", .map [(.str "type", .str "object")])]
      [("Money", .map [(.str "properties", .map []), (.str "description", .str "Sum")]),
        ("Filter", .map [(.str "queryParameters", .map [])])] =
    .ok [{ name := "OwnFilter", kind := .filter, extendsBaseFilter := true },
      { name := "Money", description := some "Sum" }] := by
  rw [(definitions_of_registry .standard .warn _ _ (by decide) (by decide) ?_).2.2.1
    (by simp)]
  · rfl
  · intro p hp e he _
    refine ⟨?_, fun d made => Registry.name_of_standard hp made⟩
    revert p e
    decide

end Catalog

end ClientForge
