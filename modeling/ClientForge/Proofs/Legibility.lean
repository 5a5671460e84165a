import ClientForge.Proofs.Misuse
import ClientForge.Proofs.Refusal

/-!
# Legible documents

A document is legible if what is read off it has the type that it is read as. Its title
and its version, the keys of its sections, the descriptions of its methods and the codes
of their responses have to be written out, and applied traits have to be listed by a
value that can list them. The traits of a method with a body are never looked at. A
specification is only read off a legible document, and where a legible one is refused,
the refusal is reported.
-/

namespace ClientForge.Specification

open ClientForge.Outcome ClientForge.Value

/-- Whether applied traits are listed by a value that can list them, under names that can
be written out. -/
structure ListsTraits (v : Value) : Prop where
  typed : isApplication v = true
  writable : areWritable (applicationTexts v) = true

/-- Whether what a method node says can be read as what it stands for. -/
structure IsLegibleMethod (node : Value) : Prop where
  applied : bodyType (node.field "body") = none → ListsTraits (node.field "is")
  writable : areWritable (node.field "description" :: responseCodes (node.field "responses")) =
    true

/-- Whether what a document says can be read as what it stands for. -/
structure IsLegible (document : Value) : Prop where
  title : isWritable ((document.field "title").orElse (.str "Api")) = true
  types : areWritable (sectionToll (document.field "types")).texts = true
  traits : areWritable (sectionToll (document.field "traits")).texts = true
  resource : ∀ place keys es, keys ≠ [] → Leads document place keys (.map es) →
    ListsTraits (applications es)
  method : ∀ place m, MethodNode.IsAt document place m → IsLegibleMethod m.node
  version : isWritable (document.field "version") = true

theorem Takes.needs {α : Type} {source : Option String} {x : Outcome α} {toll : Toll}
    (takes : Takes source x toll) : Needs x (areWritable toll.texts = true) := by
  unfold Takes at takes
  cases writable : areWritable toll.texts with
  | false =>
      rw [if_pos writable] at takes
      rw [takes]
      exact .misused nofun
  | true =>
      simp only [writable, Bool.true_eq_false, if_false] at takes
      split at takes
      · obtain ⟨fault, rfl⟩ := takes
        exact .error rfl _
      · obtain ⟨a, rfl⟩ := takes
        exact (Needs.ok a).congr (by simp)

theorem needs_traitNames (v : Value) : Needs (traitNames v) (ListsTraits v) := by
  cases typed : isApplication v with
  | true =>
      have takes : Takes none (traitNames v) (.writing (applicationTexts v)) :=
        takes_traitNames typed
      refine takes.needs.congr ?_
      exact ⟨fun writable => ⟨typed, writable⟩, fun lists => lists.writable⟩
  | false =>
      have never : ¬ ListsTraits v := fun lists => by simp [lists.typed] at typed
      cases v with
      | bool _ => exact .misused never
      | int _ => exact .misused never
      | float _ => exact .misused never
      | date _ => exact .misused never
      | dateTime _ => exact .misused never
      | time _ => exact .misused never
      | _ => cases typed

variable {s : Setting}

theorem needs_requestOf (node : Value) (inherited : List String) :
    Needs (requestOf s node inherited)
      (bodyType (node.field "body") = none → ListsTraits (node.field "is")) := by
  unfold requestOf
  cases bodyType (node.field "body") with
  | some r => exact (Needs.ok _).congr (by simp)
  | none => exact ((needs_traitNames _).map _).congr (by simp)

/-- Whether what is found at a stop of the walk can be read as what it stands for. -/
def Stop.IsLegible : Stop → Prop
  | resource es => ListsTraits (applications es)
  | method m => IsLegibleMethod m.node

theorem needs_visit (stop : Stop) : Needs (visit s stop) stop.IsLegible := by
  cases stop with
  | resource es => exact (needs_traitNames _).map fun _ => []
  | method m =>
      rw [visit, methodAction]
      split
      · refine Needs.map ?_ fun a => [a]
        rw [action_eq]
        refine ((needs_requestOf m.node _).bind fun _ _ => (Needs.needWritable _).map _).congr ?_
        constructor
        · rintro ⟨applied, writable⟩
          exact ⟨applied, writable⟩
        · rintro ⟨applied, writable⟩
          exact ⟨applied, writable⟩
      · exact .error rfl _

theorem needs_visitAll (xs : List (List Nat × Stop)) :
    Needs (visitAll s xs) (∀ x ∈ xs, x.2.IsLegible) := by
  induction xs with
  | nil => exact (Needs.ok []).congr (by simp)
  | cons x xs ih =>
      exact ((needs_visit x.2).bind fun here _ => ih.map (here ++ ·)).congr (by simp)

/-- To read a specification off a document needs that the document is legible. -/
theorem needs_ofDocument (document : Value) (client source : Option String) :
    Needs (ofDocument document client source) (IsLegible document) := by
  cases document with
  | map es =>
      have walk (s : Setting) : Needs (documentActions s es)
          (∀ x ∈ documentStops 0 es, x.2.IsLegible) := by
        rw [documentActions_eq_visitAll 0]
        exact needs_visitAll _
      refine ((Needs.written _).bind fun title _ =>
        (takes_declarations "types" _).needs.bind fun types _ =>
        (takes_declarations "traits" _).needs.bind fun traits _ =>
        (walk _).bind fun actions _ => (Needs.needWritable _).map _).congr ?_
      rw [forall_documentStops_iff (P := Stop.IsLegible)]
      constructor
      · rintro ⟨title, types, traits, ⟨resource, method⟩, version⟩
        exact ⟨title, types, traits, resource, method, by simpa [areWritable] using version⟩
      · rintro ⟨title, types, traits, resource, method, version⟩
        exact ⟨title, types, traits, ⟨resource, method⟩, by simpa [areWritable] using version⟩
  | _ => exact .error rfl _

end ClientForge.Specification
