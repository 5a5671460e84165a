import ClientForge.Proofs.Inclusion
import ClientForge.Proofs.Legibility
import ClientForge.Proofs.Provision
import ClientForge.Proofs.Replacement

/-!
# Failures that are reported

A run reads documents, reads a specification off them, plans a tree and puts it in place.
Each of these steps needs something of what it is given, and together they need that the
input is wholesome: every text is one and every path leads somewhere, what the document
says can be read as what it stands for, the settings serve, the declarations can be built
and the actions named. A run only returns over a wholesome input, and over a wholesome
input every failure is reported. Nothing of this is checked beforehand, so a run over any
other input fails, and it may fail without a report: the bytes of a document need not be
text.
-/

namespace ClientForge.Generation

open ClientForge.Emission ClientForge.Outcome

variable {c : Configuration} {s : Specification} {w w' : Workspace} {f : Failure}
  {product : Product} {web : Web} {location : String}

/-- What planning a tree needs of a configuration and a specification. -/
structure IsPlannable (c : Configuration) (s : Specification) : Prop where
  declarations : ∀ e ∈ Catalog.merge s.types s.traits,
    Catalog.isBuildable .standard e.1 e.2 = true
  settings : (emitterSettings c s).Serve c.language
  client : s.actions = [] ∨ namesClients c = true
  named : ∀ a ∈ s.actions, a.IsNameable

theorem emitter_eq_ok {e : Emitter} : emitter c s = .ok e ↔ ∃ common,
    (emitterSettings c s).library c.language = .ok common ∧
      e = ⟨(emitterSettings c s).resolver c.language, common,
        (emitterSettings c s).baseUrl.orElse (.str ""), (emitterSettings c s).version,
        namesClients c⟩ := by
  rw [emitter, bind_eq_ok]
  constructor
  · rintro ⟨plain, made, same⟩
    obtain ⟨common, library, rfl⟩ := Settings.ofSettings_eq_ok.mp made
    exact ⟨common, library, (Except.ok.inj same).symm⟩
  · rintro ⟨common, library, rfl⟩
    exact ⟨_, Settings.ofSettings_eq_ok.mpr ⟨common, library, rfl⟩, rfl⟩

theorem text_of_folderOf {v : Value} {p : FilePath} (h : Configuration.folderOf v = .ok p) :
    v.text?.isSome = true := by
  cases v with
  | str s => rfl
  | _ => cases h

/-- A tree is planned for what can be planned, and where it is not that is reported. -/
theorem needs_plan (actionsWell : ∀ a ∈ s.actions, a.WellFormed) :
    Needs (plan c .standard s) (IsPlannable c s) := by
  refine ⟨fun p planned => ?_, fun plannable => ?_⟩
  · obtain ⟨definitions, e, tree, target, built, made, rendered, leads, -⟩ := plan_eq_ok.mp planned
    obtain ⟨common, library, rfl⟩ := emitter_eq_ok.mp made
    obtain ⟨-, entities, clients, support, -, parts⟩ := render_eq_ok.mp rendered
    obtain ⟨name, apiName, -⟩ := bind_eq_ok.mp leads
    refine ⟨(Catalog.needs_definitions _ _ _ _).holds _ built,
      Settings.serve_of_files library (text_of_folderOf apiName) parts.others, ?_, fun a ha =>
        Action.isNameable_iff.mpr (exists_methodName_of_render rendered ha)⟩
    cases all : s.actions with
    | nil => exact .inl rfl
    | cons a rest =>
        have ha : a ∈ s.actions := all ▸ List.mem_cons_self
        obtain ⟨group, hg, -⟩ := exists_group ha
        obtain ⟨entry, -, named, -⟩ := exists_zip_left parts.client hg
        exact .inr named
  · refine Avoids.bind ((Catalog.needs_definitions _ _ _ _).misusesNothing
      plannable.declarations) fun definitions built => ?_
    obtain ⟨common, library, writable⟩ := plannable.settings.exists_library
    have made := emitter_eq_ok.mpr ⟨common, library, rfl⟩
    rw [made, ok_bind]
    refine Avoids.bind (misusesNothing_render (plannable.settings.isReady writable _)
      (Catalog.wellFormed_of_definitions built) actionsWell plannable.client plannable.named)
      fun tree _ => ?_
    obtain ⟨name, apiName⟩ := Value.exists_text plannable.settings.apiName
    have folder : Configuration.folderOf c.apiName = .ok (.ofText name) :=
      congrArg Configuration.folderOf apiName
    rw [Configuration.targetDir, folder]
    exact Avoids.ok _

/-- What carrying a specification out needs of a configuration, the specification and the
store: a plan whose files have bytes, display names that can be told in the fingerprint, and
a target that the store can look for and keep files in. -/
structure IsFeasible (c : Configuration) (s : Specification) (store : FileStore) : Prop
    extends IsPlannable c s where
  bytes : PlansBytes c none s
  solid : ∀ a ∈ s.actions, ¬ a.displayName.IsHollow
  target : ∀ target, c.targetDir = .ok target →
    target.isBarred = false ∧ ∃ there, store.has target = .ok there

/-- A tree is only put in place where its files have bytes and the store can look for its
root and keep files. -/
theorem found_of_replace {l : Language} {root : FilePath} {tree : Tree} {written : List FilePath}
    (inner : IsInner tree) (nonempty : tree ≠ [])
    (put : (replace l root tree).outcome w = (.ok written, w')) :
    IsEncodable tree ∧ root.isBarred = false ∧ ∃ there, w.store.has root = .ok there := by
  obtain ⟨⟨⟩, v, cleared, put⟩ := Run.bind_eq_ok.mp put
  obtain ⟨paths, u, files, -⟩ := Run.bind_eq_ok.mp put
  refine ⟨isEncodable_of_writeFiles files, ?_, ?_⟩
  · by_contra barred
    rw [writeFiles_of_isBarred inner nonempty (by simpa using barred)] at files
    cases files
  · cases found : w.store.has root with
    | ok there => exact ⟨there, rfl⟩
    | error fault =>
        simp [clear, Configuration.pathExists, found, Run.outcome_bind, misused] at cleared

/-- A specification is carried out where that is feasible, and where it is not carried out
all the same, that is reported. -/
theorem needs_ofSpecification (actionsWell : ∀ a ∈ s.actions, a.WellFormed) (w : Workspace) :
    Needs ((ofSpecification c none s).outcome w).1 (IsFeasible c s w.store) := by
  rcases ended : (ofSpecification c none s).outcome w with ⟨o, w'⟩
  refine ⟨?_, ?_⟩
  · rintro product rfl
    obtain ⟨p, written, fingerprint, planned, put, taken, -⟩ := ofSpecification_eq_ok.mp ended
    obtain ⟨-, e, rendered⟩ := render_of_plan planned
    obtain ⟨nonempty, inner⟩ := isInner_of_render rendered
    have placed := found_of_replace (w := started c none s w) inner nonempty put
    refine ⟨(needs_plan actionsWell).holds p planned, fun other again => ?_,
      fun a ha hollow => ?_, fun target leads => ?_⟩
    · obtain rfl := Except.ok.inj (planned.symm.trans again)
      exact placed.1
    · have untold := (buildFingerprint_of_plan planned).mpr ⟨rfl, a, ha, hollow⟩
      rw [untold] at taken
      cases taken
    · obtain ⟨_, _, _, there, -, -, -, leads', rfl⟩ := plan_eq_ok.mp planned
      obtain rfl := Except.ok.inj (leads.symm.trans leads')
      exact placed.2
  · rintro feasible f rfl
    rcases ofSpecification_eq_error.mp ended with ⟨unplanned, -⟩ | ⟨p, planned, put | put⟩
    · exact (needs_plan actionsWell).misusesNothing feasible.toIsPlannable f unplanned
    · obtain ⟨-, e, rendered⟩ := render_of_plan planned
      obtain ⟨nonempty, inner⟩ := isInner_of_render rendered
      have bytes := feasible.bytes p planned
      obtain ⟨_, _, _, there, -, -, -, leads, rfl⟩ := plan_eq_ok.mp planned
      obtain ⟨clean, found⟩ := feasible.target there leads
      have reported := Failure.isReported_of_isOfStore
        (isOfStore_of_replace (w := started c none s w) inner clean bytes found put)
      simp [Failure.isMisuse_iff, reported]
    · obtain ⟨-, -, untold⟩ := put
      obtain ⟨-, a, ha, hollow⟩ := (buildFingerprint_of_plan planned).mp untold
      exact absurd hollow (feasible.solid a ha)

/-- What a run from a location needs: documents that can be read, a document whose parts
can be read as what they stand for, and a specification that can be carried out. -/
structure Wholesome (c : Configuration) (web : Web) (store : FileStore) (location : String) :
    Prop where
  readable : ¬ Loading.Trips ⟨store, web⟩ (Loading.Shelf.depth ⟨store, web⟩) location
  legible : ∀ document,
    (Loading.value ⟨store, web⟩ (Loading.Shelf.depth ⟨store, web⟩) location).outcome =
      .ok document → Specification.IsLegible document
  feasible : ∀ s, (Loading.specification ⟨store, web⟩ location (clientName? c)).outcome = .ok s →
    IsFeasible c s store

/-- A run from a location reads a specification and is then the run from it. -/
theorem outcome_ofLocation (c : Configuration) (given : Option Registry) (web : Web)
    (location : String) (w : Workspace) :
    ∃ v : Workspace, v.store = w.store ∧
      ((ofLocation c given web location).outcome w).1 =
        (Loading.specification ⟨w.store, web⟩ location (clientName? c)).outcome >>= fun s =>
          ((ofSpecification c given s).outcome v).1 := by
  let read := (Loading.specification ⟨w.store, web⟩ location (clientName? c)).run.run []
  refine ⟨{ w with records := w.records ++ read.2 }, rfl, ?_⟩
  have loaded : (Run.ofLogged (Loading.specification ⟨w.store, web⟩ location
      (clientName? c))).outcome w = (read.1, { w with records := w.records ++ read.2 }) := rfl
  rw [ofLocation, Run.outcome_bind, Run.outcome_get]
  dsimp only
  rw [Run.outcome_bind, loaded, Logged.outcome]
  rcases read.1 with f | s <;> rfl

/-- The actions of a specification that was loaded are well-formed. -/
theorem wellFormed_of_loaded {shelf : Loading.Shelf} {client : Option String}
    (loaded : (Loading.specification shelf location client).outcome = .ok s) :
    ∀ a ∈ s.actions, a.WellFormed := by
  rw [Loading.outcome_specification] at loaded
  obtain ⟨document, -, read⟩ := bind_eq_ok.mp loaded
  exact Specification.wellFormed_of_document read

/-- A run from a location needs a wholesome input. -/
theorem needs_ofLocation (c : Configuration) (web : Web) (location : String) (w : Workspace) :
    Needs ((ofLocation c none web location).outcome w).1
      (Wholesome c web w.store location) := by
  obtain ⟨v, same, run⟩ := outcome_ofLocation c none web location w
  let shelf : Loading.Shelf := ⟨w.store, web⟩
  have read : Needs (Loading.specification shelf location (clientName? c)).outcome
      (¬ Loading.Trips shelf shelf.depth location ∧ ∀ document,
        (Loading.value shelf shelf.depth location).outcome = .ok document →
          Specification.IsLegible document) := by
    rw [Loading.outcome_specification]
    exact (Loading.needs_value _ _ _).bind_each fun document _ =>
      Specification.needs_ofDocument document _ _
  rw [run]
  refine (read.bind_each fun s loaded =>
    same ▸ needs_ofSpecification (wellFormed_of_loaded loaded) v).congr ?_
  constructor
  · rintro ⟨⟨readable, legible⟩, feasible⟩
    exact ⟨readable, legible, feasible⟩
  · rintro ⟨readable, legible, feasible⟩
    exact ⟨⟨readable, legible⟩, feasible⟩

/-- A workspace with one document in its store. -/
def holding (content : ByteArray) : Workspace := ⟨⟨[(["api.raml"], .file content)], []⟩, []⟩

end ClientForge.Generation
