import ClientForge.Proofs.Location
import ClientForge.Proofs.RenderedPath

/-!
# Staying below the output folder

A run changes nothing outside of its target, whatever the path of the target. Whether
the target lies below the output folder is up to the name of the interface, which is
joined to that folder as it is. A relative name whose double dots never lead above the
place it starts from, and that ends below that place, leads below every output folder.
Any other name leads out of some output folder or to the folder itself, and what is
there is taken away. All of this is said of stores, which have no links: through a link a
path can lead anywhere, whatever its name is.
-/

namespace ClientForge

open FileStore (descend Spares)

namespace FilePath

variable {p base : FilePath} {cwd at_ below : Location} {parts : List String} {depth : Nat}

/-- How far below their start some parts lead from a depth, if they never lead above it. -/
def depthFrom : Nat → List String → Option Nat
  | depth, [] => some depth
  | depth, part :: rest =>
    if part == ".." then
      match depth with
      | 0 => none
      | depth + 1 => depthFrom depth rest
    else depthFrom (depth + 1) rest

/-- Whether a path is relative, never leads above the place it starts from, and ends below
that place. -/
structure Descends (p : FilePath) : Prop where
  relative : p.isAbsolute = false
  below : 0 < (depthFrom 0 p.parts).getD 0

instance : Decidable p.Descends :=
  decidable_of_iff (p.isAbsolute = false ∧ 0 < (depthFrom 0 p.parts).getD 0)
    ⟨fun ⟨relative, below⟩ => ⟨relative, below⟩, fun ⟨relative, below⟩ => ⟨relative, below⟩⟩

/-- Whether an absolute path leads strictly below another. -/
structure Below (base p : FilePath) : Prop where
  root : p.root = base.root
  inside : base.parts <+: p.parts
  strict : p.parts ≠ base.parts

/-- Parts that never lead above their start end below it, as deep as they count. -/
theorem foldl_descend_of_depthFrom (h : depthFrom below.length parts = some depth) :
    ∃ reached, reached.length = depth ∧
      ∀ at_, parts.foldl descend (at_ ++ below) = at_ ++ reached := by
  induction parts generalizing below with
  | nil => exact ⟨below, Option.some.inj h, fun at_ => rfl⟩
  | cons part rest ih =>
      unfold depthFrom at h
      split at h
      next dots =>
        cases count : below.length with
        | zero => simp [count] at h
        | succ deep =>
            have shorter : below.dropLast.length = deep := by simp [count]
            have named : below ≠ [] := by
              rintro rfl
              cases count
            rw [count] at h
            have above : depthFrom below.dropLast.length rest = some depth := by
              rw [shorter]
              exact h
            obtain ⟨reached, length, leads⟩ := ih above
            refine ⟨reached, length, fun at_ => ?_⟩
            rw [List.foldl_cons, descend, if_pos dots, List.dropLast_append_of_ne_nil named, leads]
      next name =>
        have deeper : depthFrom (below ++ [part]).length rest = some depth := by simpa using h
        obtain ⟨reached, length, leads⟩ := ih deeper
        refine ⟨reached, length, fun at_ => ?_⟩
        rw [List.foldl_cons, descend, if_neg name, List.append_assoc, leads]

/-- A walk only meets names that it starts with or that are on its way. -/
theorem mem_foldl_descend {name : String} (h : name ∈ parts.foldl descend at_) :
    name ∈ at_ ∨ name ∈ parts := by
  induction parts generalizing at_ with
  | nil => exact .inl h
  | cons part rest ih =>
      rcases ih h with there | later
      · unfold descend at there
        split at there
        · exact .inl (List.dropLast_subset _ there)
        · rcases List.mem_append.mp there with there | here
          · exact .inl there
          · exact .inr (List.mem_singleton.mp here ▸ List.mem_cons_self)
      · exact .inr (List.mem_cons_of_mem _ later)

/-- Parts that lead below a name that is not among them never lead above it. -/
theorem depthFrom_of_prefix {name : String} (fresh : name ∉ parts)
    (h : [name] <+: parts.foldl descend (name :: below)) :
    depthFrom below.length parts = some ((parts.foldl descend (name :: below)).length - 1) := by
  induction parts generalizing below with
  | nil => simp [depthFrom]
  | cons part rest ih =>
      rw [List.mem_cons, not_or] at fresh
      unfold depthFrom
      split
      next dots =>
        cases below with
        | nil =>
            rw [List.foldl_cons, descend, if_pos dots] at h
            have met := mem_foldl_descend (h.subset List.mem_cons_self)
            exact absurd met (by simpa using fresh.2)
        | cons first more =>
            have step : descend (name :: first :: more) part =
                name :: (first :: more).dropLast := by
              rw [descend, if_pos dots]
              rfl
            rw [List.foldl_cons, step] at h ⊢
            simpa using ih fresh.2 h
      next plain =>
        have step : descend (name :: below) part = name :: (below ++ [part]) := by
          rw [descend, if_neg plain]
          rfl
        rw [List.foldl_cons, step] at h ⊢
        simpa using ih fresh.2 h

theorem root_absolute (cwd : Location) (p : FilePath) :
    (p.absolute cwd).root = if p.isAbsolute then p.root else "/" := by
  rw [absolute]
  split <;> rfl

/-- A path that descends leads strictly below whatever it is joined to. -/
theorem below_of_descends (descends : p.Descends) (plain : ".." ∉ cwd) (base : FilePath) :
    Below (base.absolute cwd) ((base.join p).absolute cwd) := by
  have joined : base.join p = ⟨base.root, base.parts ++ p.parts⟩ := by
    simp [join, descends.relative]
  have same : isAbsolute ⟨base.root, base.parts ++ p.parts⟩ = base.isAbsolute := rfl
  have below := descends.below
  cases count : depthFrom 0 p.parts with
  | none => simp [count] at below
  | some depth =>
      have counted : depthFrom ([] : Location).length p.parts = some depth := count
      obtain ⟨reached, length, leads⟩ := foldl_descend_of_depthFrom counted
      have place : (base.join p).place cwd = base.place cwd ++ reached := by
        rw [joined, place_eq_foldl plain, place_eq_foldl plain, List.foldl_append, ← leads,
          List.append_nil]
        rfl
      refine ⟨?_, ?_, ?_⟩
      · rw [root_absolute, root_absolute, joined, same]
      · exact ⟨reached, place.symm⟩
      · intro none
        have empty : reached = [] := by
          simpa using (place.symm.trans none : base.place cwd ++ reached = base.place cwd)
        simp [count, ← length, empty] at below

/-- There is an output folder with a name that is not among the parts of a path. -/
theorem exists_fresh_folder (name : String) : ∃ folder fresh,
    ofText folder = ⟨"/", [fresh]⟩ ∧ fresh ∉ (ofText name).parts ∧ fresh ≠ ".." := by
  let fresh := String.ofList ('x' :: List.replicate name.length 'x')
  have letters : fresh.toList = 'x' :: List.replicate name.length 'x' := by simp [fresh]
  have other {s : String} (h : s.toList.head? ≠ some 'x') : fresh ≠ s := by
    rintro rfl
    simp [letters] at h
  have noSlash : '/' ∉ fresh.toList := by simp [letters]
  have pieces : Text.split '/' ("/" ++ fresh) = ["", fresh] := by
    have cut : Text.split '/' ("" ++ String.singleton '/' ++ fresh) = "" :: Text.split '/' fresh :=
      Text.split_append (by simp)
    rwa [Text.split_of_notMem noSlash] at cut
  refine ⟨"/" ++ fresh, fresh, ?_, ?_, other (by decide)⟩
  · have kept : isPart fresh = true := by
      simp [isPart, other (s := "") (by decide), other (s := ".") (by decide)]
    have root : rootOf ("/" ++ fresh).toList = "/" := by simp [letters, rootOf]
    have dropped : isPart "" = false := by decide
    rw [ofText, pieces, root, List.filter_cons_of_neg (by simp [dropped]),
      List.filter_cons_of_pos kept, List.filter_nil]
  · intro there
    obtain ⟨piece, member, same⟩ := List.mem_map.mp (List.mem_filter.mp there).1
    have short := (Text.sublist_of_mem_splitAt member).length_le
    have long : piece = fresh.toList := by rw [← same, String.toList_ofList]
    rw [long, letters, String.length_toList] at short
    exact absurd short (by simp)

end FilePath

namespace Run

variable {α β : Type} {cwd base : Location} {x : Run α} {g : α → Run β}

/-- Whether a step that is started in a folder changes nothing outside of a location. -/
def Keeps (cwd base : Location) (x : Run α) : Prop :=
  ∀ w : Workspace, w.store.cwd = cwd → Spares base w.store (x.outcome w).2.store

namespace Keeps

theorem bind (first : Keeps cwd base x) (second : ∀ a, Keeps cwd base (g a)) :
    Keeps cwd base (x >>= g) := by
  intro w started
  have before := first w started
  rw [outcome_bind]
  rcases ended : x.outcome w with ⟨f | a, v⟩
  · rw [ended] at before
    exact before
  · rw [ended] at before
    exact before.trans (second a v (before.cwd.trans started))

theorem pure (a : α) : Keeps cwd base (Pure.pure a : Run α) := fun _ _ => .refl base _

theorem get : Keeps cwd base (MonadState.get : Run Workspace) := fun _ _ => .refl base _

theorem ofOutcome (o : Outcome α) : Keeps cwd base (Run.ofOutcome o) := fun _ _ => .refl base _

/-- What follows a computation that may fail has to be looked at where it succeeds. -/
theorem ofOutcome_bind {o : Outcome α} (second : ∀ a, o = .ok a → Keeps cwd base (g a)) :
    Keeps cwd base (Run.ofOutcome o >>= g) := by
  cases given : o with
  | error f => exact fun _ _ => .refl base _
  | ok a => exact fun w started => second a given w started

theorem tell (rs : List Record) : Keeps cwd base (Run.tell rs) := fun _ _ => .refl base _

theorem change {attempt : FileStore → FileStore.Change α} {fail : AccessFault → Failure}
    (keeps : ∀ fs : FileStore, fs.cwd = cwd → Spares base fs (attempt fs).2) :
    Keeps cwd base (Run.change attempt fail) := by
  intro w started
  rw [outcome_change]
  exact keeps w.store started

end Keeps

end Run

namespace Generation

open ClientForge.Emission ClientForge.Outcome FilePath

variable {l : Language} {root target : FilePath} {tree : Tree} {cwd : Location}

/-- Clearing a target changes nothing outside of it. -/
theorem keeps_clear (plain : ".." ∉ cwd) :
    Run.Keeps cwd (target.place cwd) (clear l target) := by
  refine .bind .get fun before => .bind (.ofOutcome _) fun there => ?_
  cases there with
  | false => exact .pure ()
  | true =>
      refine .bind (.tell _) fun _ => .change fun fs started => ?_
      subst started
      exact FileStore.spares_removeTree plain

/-- Writing a tree changes nothing outside of its root. -/
theorem keeps_writeFiles (lasting : ∀ path ∈ Table.names tree, Lasting path)
    (plain : ".." ∉ cwd) : Run.Keeps cwd (root.place cwd) (writeFiles l root tree) := by
  induction tree with
  | nil => exact .pure []
  | cons entry tree ih =>
      refine .bind (.change fun fs started => ?_) fun _ =>
        .bind (ih fun path hp => lasting path (List.mem_cons_of_mem _ hp)) fun _ => .pure _
      subst started
      have path := lasting _ List.mem_cons_self
      have down : ".." ∉ (ofText entry.1).parts.dropLast :=
        fun dots => path.dots_notMem (List.dropLast_subset _ dots)
      have inside : root.place fs.cwd <+: (root.child entry.1).parent.place fs.cwd := by
        rw [child, parent_join_of_inner path.inner, place_append plain down]
        exact List.prefix_append _ _
      exact FileStore.spares_write plain inside _

/-- A run changes nothing outside of the target of its configuration, whether or not it
succeeds. -/
theorem keeps_ofSpecification {c : Configuration} (leads : c.targetDir = .ok target)
    (given : Option Registry) (s : Specification) (plain : ".." ∉ cwd) :
    Run.Keeps cwd (target.place cwd) (ofSpecification c given s) := by
  refine .bind (.tell _) fun _ => .ofOutcome_bind fun p planned => ?_
  obtain ⟨definitions, e, tree, target, -, -, rendered, there, rfl⟩ := plan_eq_ok.mp planned
  obtain rfl := Except.ok.inj (leads.symm.trans there)
  obtain ⟨lasting, -⟩ := lasting_of_render rendered
  refine .bind (keeps_clear plain) fun _ => .bind ?_ fun _ => .bind (.ofOutcome _) fun _ => .pure _
  exact .bind (keeps_writeFiles lasting plain) fun _ => .bind (.tell _) fun _ => .pure _

/-- Whether a configuration stays below its output folder: its target lies strictly below,
and no run changes or takes away anything that is there and does not lie strictly below. -/
structure IsContained (c : Configuration) : Prop where
  below : ∃ target, c.targetDir = .ok target ∧
    ∀ cwd, ".." ∉ cwd → Below (c.outputDir.absolute cwd) (target.absolute cwd)
  kept : ∀ given s w, ".." ∉ w.store.cwd → ∀ at_ node,
    ¬ (c.outputDir.place w.store.cwd <+: at_ ∧ at_ ≠ c.outputDir.place w.store.cwd) →
      w.store.node? at_ = some node →
        ((ofSpecification c given s).outcome w).2.store.node? at_ = some node

theorem isContained_of_descends {c : Configuration} {name : String}
    (named : c.apiName = .str name) (descends : (ofText name).Descends) : IsContained c := by
  have leads : c.targetDir = .ok (c.outputDir.join (ofText name)) := by
    rw [Configuration.targetDir, named]
    rfl
  refine ⟨⟨_, leads, fun cwd plain => below_of_descends descends plain c.outputDir⟩, ?_⟩
  intro given s w plain at_ node outside there
  have below := below_of_descends descends plain c.outputDir
  refine (keeps_ofSpecification leads given s plain w rfl).node?_eq_some ?_ there
  intro inside
  refine outside ⟨below.inside.trans inside, ?_⟩
  rintro rfl
  exact below.strict (inside.eq_of_length_le below.inside.length_le)

/-- A configuration with a given name of the interface and a given output folder is valid
if the name is not empty. -/
theorem ofTable_apiName {name : String} (folder : String) (nonempty : name ≠ "") :
    Configuration.ofTable [("api_name", .str name), ("output_dir", .str folder)] =
      .ok { Configuration.default with apiName := .str name, outputDir := ofText folder } := by
  have known : ([("api_name", Value.str name), ("output_dir", .str folder)].any
      fun e => !Configuration.names.contains e.1) = false := by with_unfolding_all rfl
  have laid : Configuration.default.toTable.update
      [("api_name", .str name), ("output_dir", .str folder)] =
        [("language", .str "javascript"), ("api_name", .str name), ("client_name", .null),
          ("output_dir", .str folder), ("vendor_prefix", .str ""), ("package_name", .null),
          ("common_package", .null), ("on_unrecognized", .str "warn"), ("log_level", .str "INFO"),
          ("base_url", .null), ("version", .str "1.0.0")] := by with_unfolding_all rfl
  have truthy : (Value.str name).isTruthy = true := by simpa [Value.isTruthy] using nonempty
  rw [Configuration.ofTable, known, laid]
  simp only [Bool.false_eq_true, ↓reduceIte, Table.get?, String.reduceEq, Option.getD_some, truthy,
    Bool.not_true, pure_eq]
  with_unfolding_all rfl

/-- A name of the interface keeps every configuration that has it below its output folder
exactly if it descends, in every store, none of which has links. -/
theorem contained_iff_descends {name : String} (nonempty : name ≠ "") :
    (ofText name).Descends ↔ ∀ settings c, Configuration.ofTable settings = .ok c →
      c.apiName = .str name → IsContained c := by
  constructor
  · intro descends settings c _ named
    exact isContained_of_descends named descends
  · intro contained
    have stays (folder : String) : Below ((ofText folder).absolute [])
        (((ofText folder).join (ofText name)).absolute []) := by
      obtain ⟨target, leads, below⟩ :=
        (contained _ _ (ofTable_apiName folder nonempty) rfl).below
      obtain rfl := Except.ok.inj leads
      exact below [] (by simp)
    cases relative : (ofText name).isAbsolute with
    | true =>
        have same : (ofText name).join (ofText name) = ofText name := by simp [join, relative]
        have below := stays name
        rw [same] at below
        exact absurd rfl below.strict
    | false =>
        obtain ⟨folder, fresh, read, unknown, forward⟩ := exists_fresh_folder name
        have below := stays folder
        have plain : ".." ∉ [fresh] := by simpa using forward.symm
        have outer : ((ofText folder).absolute []).parts = [fresh] := by
          rw [read]
          exact normalParts_of_notMem plain
        have joined : (ofText folder).join (ofText name) =
            ⟨"/", [fresh] ++ (ofText name).parts⟩ := by
          simp [join, relative, read]
        have inner : (((ofText folder).join (ofText name)).absolute []).parts =
            (ofText name).parts.foldl descend [fresh] := by
          rw [joined]
          change normalParts _ = _
          rw [normalParts_eq_foldl, List.foldl_append, foldl_descend_of_notMem plain]
          rfl
        have inside := below.inside
        have strict := below.strict
        rw [outer, inner] at inside strict
        have counted : depthFrom ([] : Location).length (ofText name).parts = _ :=
          depthFrom_of_prefix unknown inside
        refine ⟨relative, ?_⟩
        rw [List.length_nil] at counted
        rw [counted, Option.getD_some]
        have longer := inside.length_le
        by_contra none
        refine strict (inside.eq_of_length_le ?_).symm
        rw [List.length_singleton] at longer ⊢
        omega

/-- A name of two folders that goes through a third one stays below. -/
theorem nested_name_contained : ∃ c,
    Configuration.ofTable [("api_name", .str "old/../v2/api"), ("output_dir", .str "build")] =
      .ok c ∧ IsContained c := by
  have nonempty : "old/../v2/api" ≠ "" := by decide
  have valid := ofTable_apiName "build" nonempty
  exact ⟨_, valid, (contained_iff_descends nonempty).mp (by decide) _ _ valid rfl⟩

/-- A name that leads to a neighbour of the output folder. The run over it takes away what
the neighbour holds. -/
theorem neighbour_name_loses_file : ∃ c target s done w',
    Configuration.ofTable [("api_name", .str "../lib"), ("output_dir", .str "build")] = .ok c ∧
    c.targetDir = .ok target ∧ ¬ Below (c.outputDir.absolute []) (target.absolute []) ∧
    (ofSpecification c none s).outcome ⟨⟨[(["build"], .folder), (["lib"], .folder),
      (["lib", "old.js"], .file ⟨#[111]⟩)], []⟩, []⟩ = (.ok done, w') ∧
    w'.store.node? ["lib", "old.js"] = none := by
  let c : Configuration :=
    { Configuration.default with apiName := .str "../lib", outputDir := ofText "build" }
  let s : Specification := ⟨"Api", [], [], [], .null, none⟩
  let before : FileStore := ⟨[(["build"], .folder), (["lib"], .folder),
    (["lib", "old.js"], .file ⟨#[111]⟩)], []⟩
  have beside : ¬ Below (c.outputDir.absolute [])
      ((c.outputDir.join (ofText "../lib")).absolute []) := by
    intro below
    have inside := below.inside
    revert inside
    decide
  have succeeds : ((ofSpecification c none s).outcome ⟨before, []⟩).1.isOk = true := by
    decide +kernel
  have gone : (((ofSpecification c none s).outcome ⟨before, []⟩).2.store.node?
      ["lib", "old.js"]).isNone = true := by
    decide +kernel
  rcases ended : (ofSpecification c none s).outcome ⟨before, []⟩ with ⟨f | done, w'⟩
  · rw [ended] at succeeds
    cases succeeds
  · rw [ended] at gone
    exact ⟨c, _, s, done, w', ofTable_apiName "build" (by decide), rfl, beside, ended,
      Option.isNone_iff_eq_none.mp gone⟩

end Generation

end ClientForge
