import ClientForge.Proofs.Imports
import ClientForge.Proofs.Rendering
import ClientForge.Proofs.Run

/-!
# What a failed run leaves

All that a run does without the store is done before the store is touched, but for two
things. The text of a file is turned into bytes when its turn to be written comes, and a
text with half of a surrogate pair has none. The fingerprint of the build is taken last, and
it has no use for a display name that counts as false, so that no method was named after it,
and yet has no JSON form: no bytes at all, or the empty set. A run that fails for any other
reason than a failed access to the store leaves every file as it was; a run over an action
with such a name fails once its tree is in place, and a run over such a text fails once the
files before it are.
-/

namespace ClientForge

open ClientForge.Outcome

/-- Whether a value counts as false without having a JSON form. -/
def Value.IsHollow (v : Value) : Prop := v = .bytes [] ∨ v = .set []

theorem Value.isHollow_iff {v : Value} (h : v.isTruthy = false) :
    v.IsHollow ↔ Json.ofValue? v = none := by
  cases v with
  | list items =>
      rw [Value.isTruthy, Bool.not_eq_false', List.isEmpty_iff] at h
      simp [IsHollow, h, Json.ofValue?, Json.ofValues?]
  | tuple items =>
      rw [Value.isTruthy, Bool.not_eq_false', List.isEmpty_iff] at h
      simp [IsHollow, h, Json.ofValue?, Json.ofValues?]
  | map entries =>
      rw [Value.isTruthy, Bool.not_eq_false', List.isEmpty_iff] at h
      simp [IsHollow, h, Json.ofValue?, Json.ofEntries?, Json.ofMembers?, Json.orderMembers?]
  | set items => simpa [IsHollow, Json.ofValue?, Value.isTruthy] using h
  | bytes bs => simpa [IsHollow, Json.ofValue?, Value.isTruthy] using h
  | date d => cases h
  | dateTime t => cases h
  | time t => cases h
  | _ => simp [IsHollow, Json.ofValue?]

/-- An action that can be named has a JSON form unless its display name is hollow. -/
theorem Action.toJson?_eq_none_iff {a : Action} {name : String}
    (named : Naming.methodName a = .ok name) : a.toJson? = none ↔ a.displayName.IsHollow := by
  have same : a.toJson? = none ↔ Json.ofValue? a.displayName = none := by
    rw [toJson?]
    cases Json.ofValue? a.displayName <;> simp
  rw [same]
  unfold Naming.methodName at named
  split at named
  next s given => simp [given, Json.ofValue?, Value.IsHollow]
  next =>
    split at named
    · cases named
    · rename_i falsy
      exact (Value.isHollow_iff (Bool.eq_false_iff.mpr falsy)).symm

/-- The actions of a build whose fingerprint cannot be taken. -/
theorem buildFingerprint_eq_error {definitions : List Definition} {actions : List Action}
    {f : Failure} : buildFingerprint definitions actions = .error f ↔
      f = .misuse .wrongType ∧ ∃ a ∈ actions, a.toJson? = none := by
  have given : actions.mapM (·.toJson?) = none ↔ ∃ a ∈ actions, a.toJson? = none := by
    induction actions with
    | nil => simp
    | cons a actions ih =>
        cases first : a.toJson? with
        | none => simp [List.mapM_cons, first]
        | some j =>
            cases rest : actions.mapM (·.toJson?) with
            | none => simpa [List.mapM_cons, first, rest] using ih.mp rest
            | some js =>
                simpa [List.mapM_cons, first, rest] using (not_congr ih).mp (by simp [rest])
  rw [← given, buildFingerprint, buildText?, buildJson?]
  cases actions.mapM (·.toJson?) <;> simp [misused, eq_comm]

namespace Generation

open ClientForge.Emission

variable {c : Configuration} {r : Registry} {s : Specification} {p : Plan}

/-- A part of a path that starts with a word and ends as files do stands in names of a store. -/
theorem isBarredPart_of_isWord {word ending : String} (letters : Naming.IsWord word)
    (ends : ∀ c ∈ ending.toList, c ≠ Text.mark ∧ c ≠ '\x00') :
    FilePath.isBarredPart (word ++ ending) = false := by
  apply FilePath.isBarredPart_of_notMem
  · rw [String.toList_append, List.mem_append, not_or]
    exact ⟨letters.notMem (by decide), fun h => (ends _ h).1 rfl⟩
  · rw [String.toList_append, List.mem_append, not_or]
    exact ⟨letters.notMem (by decide), fun h => (ends _ h).2 rfl⟩

/-- The path of a class leads from a folder to something in it. -/
theorem inner_sourcePath (l : Language) {folder name : String} (folderWord : Naming.IsWord folder)
    (nameWord : Naming.IsWord name) :
    (FilePath.ofText (Naming.sourcePath l folder name)).Inner := by
  have parts : (FilePath.ofText (Naming.sourcePath l folder name)).parts =
      ["src", folder, name ++ "." ++ Naming.extension l].filter FilePath.isPart := by
    rw [← Naming.split_sourcePath l (folderWord.notMem (by decide))
      (nameWord.notMem (by decide))]
    rfl
  have src : "src" ∈ (FilePath.ofText (Naming.sourcePath l folder name)).parts := by
    rw [parts]
    exact List.mem_filter.mpr ⟨List.mem_cons_self, by decide⟩
  refine ⟨?_, List.ne_nil_of_mem src, ?_⟩
  · simp [FilePath.isAbsolute, FilePath.ofText, Naming.sourcePath, FilePath.rootOf]
  · rw [FilePath.isBarred, parts, List.any_eq_false]
    intro part hp
    rw [Bool.not_eq_true]
    have kept := (List.mem_filter.mp hp).1
    simp only [List.mem_cons, List.not_mem_nil, or_false] at kept
    rcases kept with rfl | rfl | rfl
    · decide
    · have bare : FilePath.isBarredPart (part ++ "") = false :=
        isBarredPart_of_isWord folderWord (by simp)
      rwa [String.append_empty] at bare
    · rw [String.append_assoc]
      exact isBarredPart_of_isWord nameWord (by cases l <;> simp [Naming.extension, Text.mark])

theorem inner_entityFile (l : Language) (name : String) :
    (FilePath.ofText (Naming.entityFile l name)).Inner :=
  inner_sourcePath l (by cases l <;> decide) (Naming.isWord_className name)

theorem inner_clientFile (l : Language) (client : String) :
    (FilePath.ofText (Naming.clientFile l client)).Inner :=
  inner_sourcePath l (by cases l <;> decide) (Naming.isWord_clientClass client)

/-- A tree that is rendered has files, and all of them lie below its root. -/
theorem isInner_of_render {e : Emitter} {definitions : List Definition} {actions : List Action}
    {tree : Tree} (h : render e definitions actions = .ok tree) : tree ≠ [] ∧ IsInner tree := by
  obtain ⟨-, entities, clients, support, rfl, parts⟩ := render_eq_ok.mp h
  have others := names_supportFiles parts.others
  constructor
  · intro none
    obtain ⟨-, rfl⟩ := List.append_eq_nil_iff.mp none
    cases l : e.language <;> simp [l, Table.names, supportPaths] at others
  · intro path hp
    obtain ⟨entry, he, rfl⟩ := List.mem_map.mp hp
    rcases parts.cases_of_mem he with ⟨d, -, path, -⟩ | ⟨group, -, -, path, -⟩ | member
    · exact path ▸ inner_entityFile e.language d.name
    · exact path ▸ inner_clientFile e.language group.1
    · have fixed := Table.mem_names_of_mem member
      rw [others] at fixed
      have all : ∀ path ∈ supportPaths e.language, (FilePath.ofText path).Inner := by
        cases e.language <;> decide
      exact all _ fixed

/-- Every action of a tree that is rendered can be named. -/
theorem exists_methodName_of_render {e : Emitter} {definitions : List Definition}
    {actions : List Action} {tree : Tree} (h : render e definitions actions = .ok tree)
    {a : Action} (ha : a ∈ actions) : ∃ name, Naming.methodName a = .ok name := by
  obtain ⟨-, entities, clients, support, -, parts⟩ := render_eq_ok.mp h
  obtain ⟨group, hg, member⟩ := exists_group ha
  obtain ⟨entry, -, -, -, source⟩ := exists_zip_left parts.client hg
  obtain ⟨v, viewed, -⟩ := bind_eq_ok.mp source
  obtain ⟨w, view⟩ := exists_methodView (isClientView viewed).methods member
  exact ⟨w.name, view.name⟩

variable {given : Option Registry} {w w' : Workspace} {f : Failure}

/-- A plan holds what its steps give. -/
theorem plan_eq_ok : plan c r s = .ok p ↔ ∃ definitions e tree target,
    Catalog.definitions r c.policy s.types s.traits = .ok definitions ∧ emitter c s = .ok e ∧
      render e definitions s.actions = .ok tree ∧ c.targetDir = .ok target ∧
        p = ⟨c.language, definitions, s.actions, tree, target⟩ := by
  constructor
  · intro h
    obtain ⟨definitions, built, h⟩ := bind_eq_ok.mp h
    obtain ⟨e, made, h⟩ := bind_eq_ok.mp h
    obtain ⟨tree, rendered, h⟩ := bind_eq_ok.mp h
    obtain ⟨target, leads, h⟩ := bind_eq_ok.mp h
    exact ⟨definitions, e, tree, target, built, made, rendered, leads, (Except.ok.inj h).symm⟩
  · rintro ⟨definitions, e, tree, target, built, made, rendered, leads, rfl⟩
    simp only [plan, built, made, rendered, leads, ok_bind, pure_eq]

theorem render_of_plan (h : plan c r s = .ok p) :
    p.actions = s.actions ∧ ∃ e, render e p.definitions s.actions = .ok p.tree := by
  obtain ⟨definitions, e, tree, target, -, -, rendered, -, rfl⟩ := plan_eq_ok.mp h
  exact ⟨rfl, e, rendered⟩

/-- The fingerprint of a planned build cannot be taken if an action has a hollow name,
and for no other reason. -/
theorem buildFingerprint_of_plan (h : plan c r s = .ok p) :
    buildFingerprint p.definitions p.actions = .error f ↔
      f = .misuse .wrongType ∧ ∃ a ∈ s.actions, a.displayName.IsHollow := by
  obtain ⟨actions, e, rendered⟩ := render_of_plan h
  rw [buildFingerprint_eq_error, actions]
  refine and_congr_right fun _ => exists_congr fun a => and_congr_right fun ha => ?_
  obtain ⟨name, named⟩ := exists_methodName_of_render rendered ha
  exact Action.toJson?_eq_none_iff named

/-- The workspace of a run whose declarations have been looked at. -/
def started (c : Configuration) (given : Option Registry) (s : Specification) (w : Workspace) :
    Workspace :=
  { w with records := w.records ++ Catalog.records (registryFor given) c.policy s.types s.traits }

/-- Whether a run plans a tree and puts it in place, leaving a workspace. -/
def Replaces (c : Configuration) (given : Option Registry) (s : Specification)
    (w w' : Workspace) : Prop :=
  ∃ p written, plan c (registryFor given) s = .ok p ∧
    (replace p.language p.target p.tree).outcome (started c given s w) = (.ok written, w')

/-- A run that fails does so while it plans, while it puts the tree in place, or once
the tree is in place. -/
theorem ofSpecification_eq_error :
    (ofSpecification c given s).outcome w = (.error f, w') ↔
      (plan c (registryFor given) s = .error f ∧ w' = started c given s w) ∨
        ∃ p, plan c (registryFor given) s = .ok p ∧
          ((replace p.language p.target p.tree).outcome (started c given s w) = (.error f, w') ∨
            ∃ written, (replace p.language p.target p.tree).outcome (started c given s w) =
              (.ok written, w') ∧ buildFingerprint p.definitions p.actions = .error f) := by
  have start : (ofSpecification c given s).outcome w =
      (Run.ofOutcome (plan c (registryFor given) s) >>= carryOut).outcome (started c given s w) :=
    rfl
  rw [start, Run.outcome_bind, Run.outcome_ofOutcome]
  cases planned : plan c (registryFor given) s with
  | error e => simp [eq_comm]
  | ok p =>
      have steps : carryOut p = replace p.language p.target p.tree >>= fun written =>
          Run.ofOutcome (buildFingerprint p.definitions p.actions) >>= fun fingerprint =>
            pure ⟨p.definitions, p.actions, written, fingerprint⟩ := by
        rw [replace, bind_assoc]
        rfl
      simp only [steps, Run.bind_eq_error, Run.outcome_ofOutcome, Run.outcome_pure, reduceCtorEq,
        Prod.mk.injEq, false_and, false_or, Except.ok.injEq, exists_eq_left', and_false,
        exists_false, or_false]
      refine or_congr_right ⟨?_, ?_⟩
      · rintro ⟨written, v, put, failed, rfl⟩
        exact ⟨written, put, failed⟩
      · rintro ⟨written, put, failed⟩
        exact ⟨written, w', put, failed, rfl⟩

/-- Whether a run plans a tree and stops while it puts the tree in place, at a file whose text
has no bytes, leaving a workspace. -/
def Breaks (c : Configuration) (given : Option Registry) (s : Specification)
    (w w' : Workspace) : Prop :=
  ∃ p, plan c (registryFor given) s = .ok p ∧
    (replace p.language p.target p.tree).outcome (started c given s w) =
      (.error (.misuse .unencodable), w')

/-- Whether every file of the tree that a run plans, if it plans one, has bytes. -/
def PlansBytes (c : Configuration) (given : Option Registry) (s : Specification) : Prop :=
  ∀ p, plan c (registryFor given) s = .ok p → IsEncodable p.tree

/-- A run that fails otherwise than in the store leaves the store alone, unless its tree
is in place and one of its actions has a hollow name, or it stops at a file without bytes. -/
theorem store_of_failed (failed : (ofSpecification c given s).outcome w = (.error f, w'))
    (otherwise : ¬ f.IsOfStore) : w'.store = w.store ∨
      (f = .misuse .wrongType ∧ Replaces c given s w w' ∧
        ∃ a ∈ s.actions, a.displayName.IsHollow) ∨
      (f = .misuse .unencodable ∧ Breaks c given s w w' ∧ ¬ PlansBytes c given s) := by
  rcases ofSpecification_eq_error.mp failed with ⟨-, rfl⟩ | ⟨p, planned, put | put⟩
  · exact .inl rfl
  · obtain ⟨-, e, rendered⟩ := render_of_plan planned
    obtain ⟨nonempty, inner⟩ := isInner_of_render rendered
    rcases (replace_error inner nonempty put).resolve_left otherwise with same | ⟨without, rfl⟩
    · exact .inl same
    · exact .inr (.inr ⟨rfl, ⟨p, planned, put⟩, fun bytes => without (bytes p planned)⟩)
  · obtain ⟨written, put, unhashed⟩ := put
    obtain ⟨rfl, hollow⟩ := (buildFingerprint_of_plan planned).mp unhashed
    exact .inr (.inl ⟨rfl, ⟨p, written, planned, put⟩, hollow⟩)

/-- A run over an action with a hollow name fails once its tree is in place. -/
theorem failed_of_hollow (replaced : Replaces c given s w w')
    (hollow : ∃ a ∈ s.actions, a.displayName.IsHollow) :
    (ofSpecification c given s).outcome w = (.error (.misuse .wrongType), w') := by
  obtain ⟨p, written, planned, put⟩ := replaced
  exact ofSpecification_eq_error.mpr (.inr ⟨p, planned, .inr ⟨written, put,
    (buildFingerprint_of_plan planned).mpr ⟨rfl, hollow⟩⟩⟩)

/-- A run that stops at a file without bytes fails there. -/
theorem failed_of_breaks (broken : Breaks c given s w w') :
    (ofSpecification c given s).outcome w = (.error (.misuse .unencodable), w') := by
  obtain ⟨p, planned, put⟩ := broken
  exact ofSpecification_eq_error.mpr (.inr ⟨p, planned, .inl put⟩)

/-- Whether every file is as before: each location holds the same content, or none. -/
def SameFiles (before after : FileStore) : Prop :=
  ∀ at_, (after.node? at_).bind Node.content? = (before.node? at_).bind Node.content?

/-- A failed run keeps every file, unless the store is what failed, exactly under two
conditions. No action has a hollow name, or putting the tree in place would change no file
anyway. And every file of the tree has bytes, or no file has changed when the first one that
has none is met. -/
theorem keeps_files_iff (c : Configuration) (given : Option Registry) (s : Specification)
    (w : Workspace) :
    (∀ f w', (ofSpecification c given s).outcome w = (.error f, w') → ¬ f.IsOfStore →
        SameFiles w.store w'.store) ↔
      ((∀ a ∈ s.actions, ¬ a.displayName.IsHollow) ∨
        ∀ w', Replaces c given s w w' → SameFiles w.store w'.store) ∧
      (PlansBytes c given s ∨ ∀ w', Breaks c given s w w' → SameFiles w.store w'.store) := by
  constructor
  · intro keeps
    constructor
    · rw [or_iff_not_imp_left]
      intro named w' replaced
      have hollow : ∃ a ∈ s.actions, a.displayName.IsHollow := by simpa using named
      exact keeps _ w' (failed_of_hollow replaced hollow) (by simp [Failure.IsOfStore])
    · refine .inr fun w' broken => ?_
      exact keeps _ w' (failed_of_breaks broken) (by simp [Failure.IsOfStore])
  · rintro ⟨solid, whole⟩ f w' failed otherwise
    rcases store_of_failed failed otherwise with same | ⟨-, replaced, a, ha, hollow⟩ |
      ⟨-, broken, without⟩
    · exact fun at_ => by rw [same]
    · rcases solid with named | unchanged
      · exact absurd hollow (named a ha)
      · exact unchanged w' replaced
    · rcases whole with bytes | unchanged
      · exact absurd bytes without
      · exact unchanged w' broken

/-- The store that an earlier run has left, with one file in its tree. -/
def leftover : FileStore :=
  ⟨[(["build"], .folder), (["build", "api"], .folder),
    (["build", "api", "old.js"], .file ⟨#[111]⟩)], []⟩

/-- A run that ends without a report and without the file that was left has lost it. -/
theorem loses_leftover
    (unreported : isUnreported ((ofSpecification .default none s).outcome ⟨leftover, []⟩).1 = true)
    (gone : (((ofSpecification .default none s).outcome ⟨leftover, []⟩).2.store.node?
      ["build", "api", "old.js"]).isNone = true) :
    ∃ f w', (ofSpecification .default none s).outcome ⟨leftover, []⟩ = (.error f, w') ∧
      ¬ f.IsOfStore ∧ ¬ SameFiles leftover w'.store := by
  obtain ⟨f, failed, other⟩ := exists_of_isUnreported unreported
  refine ⟨f, _, Prod.ext failed rfl, ?_, ?_⟩
  · intro ofStore
    rw [Failure.isReported_of_isOfStore ofStore] at other
    cases other
  · intro same
    have lost := same ["build", "api", "old.js"]
    rw [Option.isNone_iff_eq_none.mp gone] at lost
    cases lost

/-- The only action of a document is named by no bytes at all. The run over it fails, and
the file that an earlier run has left is gone. -/
theorem hollow_name_loses_previous : ∃ s f w',
    Specification.ofDocument (.map [(.str "/x", .map [(.str "get",
      .map [(.str "displayName", .bytes [])])])]) none none = .ok s ∧
    (ofSpecification .default none s).outcome ⟨leftover, []⟩ = (.error f, w') ∧
    ¬ f.IsOfStore ∧ ¬ SameFiles leftover w'.store := by
  let s : Specification :=
    ⟨"Api", [], [], [{ client := "Api", path := "/x", displayName := .bytes [] }], .null, none⟩
  have parsed : Specification.ofDocument (.map [(.str "/x", .map [(.str "get",
      .map [(.str "displayName", .bytes [])])])]) none none = .ok s := by
    with_unfolding_all rfl
  obtain ⟨f, w', failed, other, lost⟩ :=
    loses_leftover (s := s) (by decide +kernel) (by decide +kernel)
  exact ⟨s, f, w', parsed, failed, other, lost⟩

/-- A type is described by half of a surrogate pair. The run over it fails when the file of
the type is to be written, and the file that an earlier run has left is gone. -/
theorem half_pair_loses_previous : ∃ s f w',
    Specification.ofDocument (.map [(.str "types", .map [(.str "Note", .map [(.str "properties",
      .map [(.str "text", .map [(.str "description", .str (.ofList (Text.ofCode 0xD800)))])])])])])
      none none = .ok s ∧
    (ofSpecification .default none s).outcome ⟨leftover, []⟩ = (.error f, w') ∧
    ¬ f.IsOfStore ∧ ¬ SameFiles leftover w'.store := by
  let s : Specification :=
    ⟨"Api", [("Note", .map [(.str "properties", .map [(.str "text",
      .map [(.str "description", .str (.ofList (Text.ofCode 0xD800)))])])])], [], [], .null, none⟩
  have parsed : Specification.ofDocument (.map [(.str "types", .map [(.str "Note",
      .map [(.str "properties", .map [(.str "text",
        .map [(.str "description", .str (.ofList (Text.ofCode 0xD800)))])])])])]) none none =
      .ok s := by
    with_unfolding_all rfl
  obtain ⟨f, w', failed, other, lost⟩ :=
    loses_leftover (s := s) (by decide +kernel) (by decide +kernel)
  exact ⟨s, f, w', parsed, failed, other, lost⟩

end Generation

end ClientForge
