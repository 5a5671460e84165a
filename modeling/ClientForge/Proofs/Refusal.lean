import ClientForge.Proofs.Specification

/-!
# Documents that are refused

Reading a document writes some of its values out as texts: its title, the names of what
it declares and applies, descriptions and codes of responses. Somewhere on the way it
may meet a part that it refuses. What a part takes is therefore a list of values and
whether it is refused after these. One part after another takes the values of both, up
to the first refusal. Where all of the values can be written the document is refused or
read, as its parts say; one value that cannot be written is a failure of another kind,
and a refusal that comes after it is not reported.
-/

namespace ClientForge

@[simp] theorem Value.areWritable_append (xs ys : List Value) :
    Value.areWritable (xs ++ ys) = (Value.areWritable xs && Value.areWritable ys) := by
  induction xs with
  | nil => rfl
  | cons x xs ih => rw [List.cons_append, areWritable, areWritable, ih, Bool.and_assoc]

/-- An integer of too many digits is not written out. -/
theorem Value.isWritable_int_eq_false {n : Int} (long : writingBound ≤ n.natAbs) :
    Value.isWritable (.int n) = false := by
  rw [isWritable, decide_eq_false_iff_not, Nat.not_lt]
  exact long

namespace Specification

open ClientForge.Outcome ClientForge.Value

/-- What reading a part takes: the values that are written out, and whether the part is
refused after that. -/
structure Toll where
  texts : List Value
  refused : Bool

namespace Toll

def none : Toll := ⟨[], false⟩

def refusal : Toll := ⟨[], true⟩

def writing (vs : List Value) : Toll := ⟨vs, false⟩

/-- One part after another; nothing comes after a refusal. -/
def andThen (a b : Toll) : Toll := if a.refused then a else ⟨a.texts ++ b.texts, b.refused⟩

/-- Parts one after another. -/
def all : List Toll → Toll
  | [] => none
  | t :: rest => t.andThen (all rest)

@[simp] theorem andThen_none (a : Toll) : a.andThen none = a := by
  obtain ⟨texts, refused⟩ := a
  cases refused <;> simp [andThen, none]

@[simp] theorem refused_andThen (a b : Toll) :
    (a.andThen b).refused = (a.refused || b.refused) := by
  unfold andThen
  cases refused : a.refused <;> simp [refused]

/-- Parts are refused if one of them is. -/
theorem refused_all {ts : List Toll} : (all ts).refused = true ↔ ∃ t ∈ ts, t.refused = true := by
  induction ts with
  | nil => simp [all, none]
  | cons t ts ih => simp [all, ih]

end Toll

/-- A computation that takes something: it gives up where a value cannot be written, is
refused where the toll says so, and succeeds otherwise. -/
def Takes {α : Type} (source : Option String) (x : Outcome α) (t : Toll) : Prop :=
  if Value.areWritable t.texts = false then x = misused .badValue
  else if t.refused then ∃ fault, x = .error (.specification fault source)
  else ∃ a, x = .ok a

namespace Takes

variable {α β : Type} {source : Option String} {x : Outcome α} {g : α → Outcome β} {a b : Toll}

theorem ok (v : α) : Takes source (.ok v) .none := ⟨v, rfl⟩

theorem refusal (fault : SpecificationFault) :
    Takes source (.error (.specification fault source) : Outcome α) .refusal := ⟨fault, rfl⟩

theorem needWritable (vs : List Value) :
    Takes source (ClientForge.needWritable vs) (.writing vs) := by
  unfold Takes ClientForge.needWritable
  cases writable : Value.areWritable vs with
  | false => simp [Toll.writing, writable]
  | true => simp [Toll.writing, writable]

theorem bind (first : Takes source x a) (rest : ∀ v, x = .ok v → Takes source (g v) b) :
    Takes source (x >>= g) (a.andThen b) := by
  obtain ⟨texts, refused⟩ := a
  cases writable : Value.areWritable texts with
  | false =>
      have failed : x = misused .badValue := by rwa [Takes, if_pos writable] at first
      have all : Value.areWritable (Toll.andThen ⟨texts, refused⟩ b).texts = false := by
        cases refused <;> simp [Toll.andThen, writable]
      simp [Takes, all, failed, misused]
  | true =>
      cases refused with
      | true =>
          obtain ⟨fault, rfl⟩ : ∃ fault, x = .error (.specification fault source) := by
            simpa [Takes, writable] using first
          simp [Takes, Toll.andThen, writable]
      | false =>
          obtain ⟨v, rfl⟩ : ∃ v, x = .ok v := by simpa [Takes, writable] using first
          simpa [Takes, Toll.andThen, writable] using rest v rfl

/-- What follows without taking anything does not count. -/
theorem map (first : Takes source x a) (f : α → β) :
    Takes source (x >>= fun v => pure (f v)) a := by
  have both := first.bind (g := fun v => pure (f v)) fun v _ => ok (f v)
  rwa [Toll.andThen_none] at both

theorem eq_misused (takes : Takes source x a) (unwritable : Value.areWritable a.texts = false) :
    x = misused .badValue := by
  rwa [Takes, if_pos unwritable] at takes

/-- A part that is refused is reported as such where all of its values can be written. -/
theorem isRefused_iff (takes : Takes source x a) (refused : a.refused = true) :
    (∃ fault, x = .error (.specification fault source)) ↔ Value.areWritable a.texts = true := by
  cases writable : Value.areWritable a.texts with
  | false => simp [takes.eq_misused writable, misused]
  | true => simpa [Takes, writable, refused] using takes

end Takes

section Document

variable {s : Setting} {source : Option String}

/-- Whether a value can list applied traits: it is one name, or has parts. -/
def isApplication : Value → Bool
  | .null => true
  | .str _ => true
  | .list _ => true
  | .tuple _ => true
  | .set _ => true
  | .map _ => true
  | .bytes _ => true
  | _ => false

/-- The names that are written out where traits are applied. -/
def applicationTexts : Value → List Value
  | .list items => items.flatMap appliedKeys
  | .tuple items => items.flatMap appliedKeys
  | .set items => items.flatMap appliedKeys
  | _ => []

theorem takes_traitNames {v : Value} (typed : isApplication v = true) :
    Takes source (traitNames v) (.writing (applicationTexts v)) := by
  have listed (items : List Value) :
      Takes source (allAppliedNames items) (.writing (items.flatMap appliedKeys)) :=
    (Takes.needWritable _).map fun _ => items.flatMap appliedNames
  cases v with
  | list items => exact listed items
  | tuple items => exact listed items
  | set items => exact listed items
  | null => exact .ok _
  | str _ => exact .ok _
  | map _ => exact .ok _
  | bytes _ => exact .ok _
  | _ => cases typed

/-- What one entry of a list of declarations takes. -/
def entryToll : Value → Toll
  | .map es => .writing (es.map (·.1))
  | v => ⟨[v], true⟩

/-- What a section of declarations takes. -/
def sectionToll : Value → Toll
  | .null => .none
  | .map es => .writing (es.map (·.1))
  | .list entries => .all (entries.map entryToll)
  | _ => .refusal

theorem takes_entryDeclarations (section_ : String) (v : Value) :
    Takes source (entryDeclarations (.specification · source) section_ v) (entryToll v) := by
  have refused (v : Value) : Takes source (needWritable [v] >>= fun _ =>
      (.error (.specification (.badEntry section_ v) source) : Outcome (List (String × Value))))
      ⟨[v], true⟩ :=
    (Takes.needWritable [v]).bind fun _ _ => .refusal _
  cases v with
  | map es => exact (Takes.needWritable _).map _
  | _ => exact refused _

theorem Takes.mapM {α β : Type} {g : α → Outcome β} {toll : α → Toll}
    (each : ∀ a, Takes source (g a) (toll a)) (as : List α) :
    Takes source (as.mapM g) (.all (as.map toll)) := by
  induction as with
  | nil => exact .ok []
  | cons a as ih =>
      rw [List.mapM_cons]
      exact (each a).bind fun b _ => ih.map _

theorem takes_declarations (section_ : String) (v : Value) :
    Takes source (declarations (.specification · source) section_ v) (sectionToll v) := by
  cases v with
  | null => exact .ok _
  | map es => exact (Takes.needWritable _).map _
  | list entries => exact (Takes.mapM (takes_entryDeclarations section_) entries).map _
  | _ => exact .refusal _

/-- What a method node takes. -/
def methodToll (node : Value) : Toll :=
  if node.isNull || node.isMap then
    (if (bodyType (node.field "body")).isSome then Toll.none
      else .writing (applicationTexts (node.field "is"))).andThen
      (.writing (node.field "description" :: responseCodes (node.field "responses")))
  else .refusal

namespace Stop

/-- What a stop of the walk takes. -/
def toll : Stop → Toll
  | resource es => .writing (applicationTexts (applications es))
  | method m => methodToll m.node

/-- Whether the traits that are applied at a stop are given by a value that can list them. -/
def isTyped : Stop → Bool
  | resource es => isApplication (applications es)
  | method m => isApplication (m.node.field "is")

end Stop

theorem takes_requestOf {node : Value} (typed : isApplication (node.field "is") = true)
    (inherited : List String) :
    Takes source (requestOf s node inherited)
      (if (bodyType (node.field "body")).isSome then .none
        else .writing (applicationTexts (node.field "is"))) := by
  unfold requestOf
  cases bodyType (node.field "body") with
  | some r => exact .ok _
  | none => exact (takes_traitNames typed).map _

theorem takes_visit {stop : Stop} (typed : stop.isTyped = true) :
    Takes s.source (visit s stop) stop.toll := by
  cases stop with
  | resource es => exact (takes_traitNames typed).map _
  | method m =>
      rw [visit, methodAction, Stop.toll, methodToll]
      split
      · refine Takes.map ?_ fun a => [a]
        rw [action_eq]
        exact (takes_requestOf typed _).bind fun _ _ => (Takes.needWritable _).map _
      · exact .refusal _

theorem takes_visitAll {xs : List (List Nat × Stop)} (typed : ∀ x ∈ xs, x.2.isTyped = true) :
    Takes s.source (visitAll s xs) (.all (xs.map (·.2.toll))) := by
  induction xs with
  | nil => exact .ok []
  | cons x xs ih =>
      have rest := ih fun y hy => typed y (List.mem_cons_of_mem _ hy)
      exact (takes_visit (typed x List.mem_cons_self)).bind fun here _ => rest.map _

/-- What a document takes: its title, its sections, the stops of the walk, its version. -/
def documentToll : Value → Toll
  | .map es =>
    (Toll.writing [((Entries.text? "title" es).getD .null).orElse (.str "Api")]).andThen
      ((sectionToll ((Value.map es).field "types")).andThen
        ((sectionToll ((Value.map es).field "traits")).andThen
          ((Toll.all ((documentStops 0 es).map (·.2.toll))).andThen
            (.writing [(Value.map es).field "version"]))))
  | _ => .refusal

/-- Whether every resource and every method node of a document that applies traits does so
by a value that can list them. -/
structure AppliesTraits (document : Value) : Prop where
  resource : ∀ place keys es, keys ≠ [] → Leads document place keys (.map es) →
    isApplication (applications es) = true
  method : ∀ place m, MethodNode.IsAt document place m → isApplication (m.node.field "is") = true

theorem appliesTraits_iff {es : Entries} :
    AppliesTraits (.map es) ↔ ∀ x ∈ documentStops 0 es, x.2.isTyped = true := by
  rw [forall_documentStops_iff (P := fun stop => stop.isTyped = true)]
  exact ⟨fun applies => ⟨applies.resource, applies.method⟩,
    fun ⟨resource, method⟩ => ⟨resource, method⟩⟩

/-- Reading a document takes what its parts take. -/
theorem takes_ofDocument {document : Value} (typed : AppliesTraits document)
    (client source : Option String) :
    Takes source (ofDocument document client source) (documentToll document) := by
  cases document with
  | map es =>
      have walk (s : Setting) (same : s.source = source) : Takes source (documentActions s es)
          (.all ((documentStops 0 es).map (·.2.toll))) := by
        rw [documentActions_eq_visitAll 0, ← same]
        exact takes_visitAll (appliesTraits_iff.mp typed)
      refine ((Takes.needWritable _).map _).bind fun title _ => ?_
      refine (takes_declarations "types" _).bind fun types _ => ?_
      refine (takes_declarations "traits" _).bind fun traits _ => ?_
      refine (walk _ rfl).bind fun actions _ => ?_
      exact (Takes.needWritable _).map _
  | _ => exact .refusal _

/-- A value that cannot be written where it has to be is all that is found. -/
theorem ofDocument_eq_misused {document : Value} (typed : AppliesTraits document)
    (unwritable : Value.areWritable (documentToll document).texts = false)
    (client source : Option String) :
    ofDocument document client source = .error (.misuse .badValue) :=
  (takes_ofDocument typed client source).eq_misused unwritable

/-- A document with a method node that is neither null nor a mapping is refused. -/
theorem refused_documentToll {document : Value} {place : List Nat} {m : MethodNode}
    (there : m.IsAt document place) (malformed : (m.node.isNull || m.node.isMap) = false) :
    (documentToll document).refused = true := by
  cases document with
  | map es =>
      have stop : (Toll.all ((documentStops 0 es).map (·.2.toll))).refused = true := by
        rw [Toll.refused_all]
        refine ⟨_, List.mem_map_of_mem (mem_documentStops_iff.mpr there), ?_⟩
        rw [Stop.toll, methodToll, malformed]
        rfl
      simp [documentToll, stop]
  | _ => rfl

/-- The actions of a document that is read are its method nodes, each once, in the order of
their places. A document with a method node that is neither null nor a mapping is refused,
unless a value that is to be written out before cannot be. -/
theorem actions_of_document (document : Value) (client source : Option String) :
    (∀ s, ofDocument document client source = .ok s →
      ∃ (nodes : List (List Nat × MethodNode)) (grouping : String),
        nodes.Pairwise (fun m n => m.1 < n.1) ∧
        (∀ place m, (place, m) ∈ nodes ↔ m.IsAt document place) ∧
        List.Forall₂ (fun n a => n.2.Gives ⟨grouping, s.traits, source⟩ a) nodes s.actions) ∧
    (AppliesTraits document →
      (∃ place m, MethodNode.IsAt document place m ∧ (m.node.isNull || m.node.isMap) = false) →
        ((∃ fault, ofDocument document client source = .error (.specification fault source)) ↔
          Value.areWritable (documentToll document).texts = true)) := by
  constructor
  · intro s read
    obtain ⟨-, -, es, grouping, rfl, walked⟩ := ofDocument_eq_ok read
    rw [documentActions_eq_visitAll 0] at walked
    refine ⟨methodNodes (documentStops 0 es), grouping, pairwise_methodNodes es, ?_,
      gives_of_visitAll walked⟩
    intro place m
    rw [mem_methodNodes_iff, mem_documentStops_iff]
  · rintro typed ⟨place, m, there, malformed⟩
    exact (takes_ofDocument typed client source).isRefused_iff
      (refused_documentToll there malformed)

/-- Methods before and after a resource below, in any case of letters, keep their order; a
method node two resources down that is a number is refused. -/
theorem nested_methods_in_order :
    (∃ s nodes grouping, ofDocument (.map [(.str "title", .str "T"), (.str "/a", .map
        [(.str "get", .null), (.str "/b", .map [(.str "Post", .null), (.int 1, .null)]),
          (.str "PUT", .map [])])]) none none = .ok s ∧
      s.actions.map (fun a => (a.method, a.path)) =
        [(.get, "/a"), (.post, "/a/b"), (.put, "/a")] ∧
      nodes.Pairwise (fun m n => m.1 < n.1) ∧
      List.Forall₂ (fun (n : List Nat × MethodNode) a => n.2.Gives ⟨grouping, s.traits, none⟩ a)
        nodes s.actions) ∧
    ∃ fault, ofDocument (.map [(.str "/a", .map [(.str "/b", .map [(.str "get", .int 5)])])])
      none none = .error (.specification fault none) := by
  constructor
  · have read : ofDocument (.map [(.str "title", .str "T"), (.str "/a", .map
        [(.str "get", .null), (.str "/b", .map [(.str "Post", .null), (.int 1, .null)]),
          (.str "PUT", .map [])])]) none none =
        .ok ⟨"T", [], [], [{ client := "T", path := "/a" },
          { client := "T", method := .post, path := "/a/b" },
          { client := "T", method := .put, path := "/a" }], .null, none⟩ := by
      with_unfolding_all rfl
    obtain ⟨nodes, grouping, ordered, -, gives⟩ := (actions_of_document _ none none).1 _ read
    exact ⟨_, nodes, grouping, read, rfl, ordered, gives⟩
  · refine ((actions_of_document _ none none).2 (appliesTraits_iff.mpr (by decide)) ?_).mpr
      (by decide)
    refine ⟨[0, 0, 0], ⟨["/a", "/b"], [(.str "get", .int 5)], "get", .get, .int 5⟩, ?_, rfl⟩
    exact ⟨[0, 0], 0, rfl, by simp, .step (.step .root rfl rfl) rfl rfl, rfl, by decide⟩

/-- A resource whose first method is described by a number; its second one is a number. -/
def numbered (n : Int) : Entries :=
  [(.str "get", .map [(.str "description", .int n)]), (.str "post", .int 5)]

theorem appliesTraits_numbered (n : Int) :
    AppliesTraits (.map [(.str "/a", .map (numbered n))]) := by
  rw [appliesTraits_iff]
  intro x hx
  change x ∈ [_, _, _] at hx
  simp only [List.mem_cons, List.not_mem_nil, or_false] at hx
  rcases hx with rfl | rfl | rfl <;> rfl

theorem isAt_numbered (n : Int) : MethodNode.IsAt (.map [(.str "/a", .map (numbered n))]) [0, 1]
    ⟨["/a"], numbered n, "post", .post, .int 5⟩ :=
  ⟨[0], 1, rfl, by simp, .step .root rfl rfl, rfl,
    show Method.post.name = capitals "post" by decide⟩

/-- A description before the malformed node is an integer that is too long to be written.
The failure says nothing of the node. -/
theorem long_integer_hides_malformed : ∃ place m,
    AppliesTraits (.map [(.str "/a", .map (numbered writingBound))]) ∧
    MethodNode.IsAt (.map [(.str "/a", .map (numbered writingBound))]) place m ∧
    (m.node.isNull || m.node.isMap) = false ∧
    ofDocument (.map [(.str "/a", .map (numbered writingBound))]) none none =
      .error (.misuse .badValue) := by
  have typed := appliesTraits_numbered writingBound
  have texts (n : Int) : (documentToll (.map [(.str "/a", .map (numbered n))])).texts =
      [.str "Api", .int n] := by
    with_unfolding_all rfl
  have unwritable : Value.areWritable
      (documentToll (.map [(.str "/a", .map (numbered writingBound))])).texts = false := by
    have long : isWritable (.int writingBound) = false :=
      isWritable_int_eq_false (Nat.le_of_eq (Int.natAbs_natCast writingBound).symm)
    rw [texts, areWritable, areWritable, long, Bool.false_and, Bool.and_false]
  exact ⟨_, _, typed, isAt_numbered writingBound, rfl,
    ofDocument_eq_misused typed unwritable none none⟩

end Document

end Specification

end ClientForge
