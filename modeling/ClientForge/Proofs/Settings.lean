import ClientForge.Configuration
import ClientForge.Proofs.Outcome
import ClientForge.Proofs.PathText
import ClientForge.Proofs.SettingsFile
import ClientForge.Proofs.Table

/-!
# Layers of settings

A setting has the value of the highest layer that gives it: the overrides, then the
variables of the environment, then the settings file, then the defaults. A layer gives
nothing where its value is missing, and neither does a null override or an empty
variable. Settings are read twice, once below the overrides and once with them, and the
second reading finds what the first one left as it stands. Only the output folder of the
settings file is seen from the folder of that file.
-/

namespace ClientForge

open ClientForge.Outcome ClientForge.Value

namespace Table

variable {α : Type} {name : String} {t u : Table α}

/-- A table that is written over another wins where it has a value. -/
theorem get?_update (hu : (names u).Nodup) (t : Table α) :
    get? name (update t u) = (get? name u).or (get? name t) := by
  cases given : get? name u with
  | none => exact get?_update_of_notMem (get?_eq_none_iff.mp given) t
  | some x => exact get?_update_of_some hu given t

/-- The entries with some values only. -/
theorem get?_filter (h : (names t).Nodup) (keep : α → Bool) :
    get? name (t.filter fun e => keep e.2) = (get? name t).filter keep := by
  induction t with
  | nil => rfl
  | cons e rest ih =>
      rw [names_cons, List.nodup_cons] at h
      by_cases same : e.1 = name
      · subst same
        have below : get? e.1 rest = none := get?_eq_none_iff.mpr h.1
        cases kept : keep e.2 <;> simp [kept, ih h.2, below, get?, Option.filter_some]
      · cases kept : keep e.2 <;> simp [kept, ih h.2, get?, same]

variable {ns : List String}

/-- The names of a table that is made name by name. -/
theorem names_filterMap (f : String → Option α) (ns : List String) :
    names (ns.filterMap fun n => (f n).map fun x => (n, x)) =
      ns.filter fun n => (f n).isSome := by
  induction ns with
  | nil => rfl
  | cons n rest ih => cases given : f n <;> simp [given, ih]

theorem get?_filterMap (f : String → Option α) (h : name ∈ ns) :
    get? name (ns.filterMap fun n => (f n).map fun x => (n, x)) = f name := by
  cases given : f name with
  | none =>
      rw [get?_eq_none_iff, names_filterMap]
      simp [given]
  | some x =>
      induction ns with
      | nil => cases h
      | cons n rest ih =>
          by_cases same : n = name
          · simp [same, given, get?]
          · have below := ih ((List.mem_cons.mp h).resolve_left (Ne.symm same))
            cases other : f n <;> simp [other, get?, same, below]

end Table

namespace Configuration

variable {c : Configuration} {v : Value} {name : String} {get : String → Value}

theorem nodup_names : names.Nodup := by decide

theorem names_toTable (c : Configuration) : Table.names c.toTable = names := rfl

theorem exists_get?_toTable (c : Configuration) (known : name ∈ names) :
    ∃ v, c.toTable.get? name = some v :=
  Option.isSome_iff_exists.mp (Table.has_iff.mpr (names_toTable c ▸ known))

/-! ## Reading settings -/

theorem folderOf_eq_ok {p : FilePath} (h : folderOf v = .ok p) : p = .ofText v.text := by
  unfold folderOf at h
  split at h
  · exact (Except.ok.inj h).symm
  · cases h

theorem languageOf_eq_ok {l : Language} (h : languageOf v = .ok l) : v = .str l.name := by
  unfold languageOf at h
  split at h
  next l' found =>
    obtain rfl := Except.ok.inj h
    obtain ⟨s, text, named⟩ := Option.bind_eq_some_iff.mp found
    have same : l'.name = s := by simpa using List.find?_some named
    cases v with
    | str t =>
        obtain rfl := Option.some.inj text
        rw [same]
    | _ => cases text
  · obtain ⟨-, -, h⟩ := bind_eq_ok.mp h
    cases h

theorem policyOf_eq_ok {p : Policy} (h : policyOf v = .ok p) : v = .str p.name := by
  unfold policyOf at h
  split at h
  next p' found =>
    obtain rfl := Except.ok.inj h
    obtain ⟨s, text, named⟩ := Option.bind_eq_some_iff.mp found
    have same : p'.name = s := by
      unfold Policy.ofName? at named
      split at named <;> cases named <;> rfl
    cases v with
    | str t =>
        obtain rfl := Option.some.inj text
        rw [same]
    | _ => cases text
  · cases h

theorem logLevelOf_eq_ok {l : LogLevel} (h : logLevelOf v = .ok l) :
    l.name = Text.upper v.text := by
  unfold logLevelOf at h
  dsimp only at h
  split at h
  next l' named =>
    obtain rfl := Except.ok.inj h
    simpa using List.find?_some named
  · cases h

theorem upper_logLevel (l : LogLevel) : Text.upper l.name = l.name := by
  cases l <;> decide

/-- What the settings of a configuration are, given the values under their names. -/
structure Settles (get : String → Value) (c : Configuration) : Prop where
  outputDir : c.outputDir = .ofText (get "output_dir").text
  logLevel : c.logLevel.name = Text.upper (get "log_level").text
  other : ∀ name ∈ names, name ≠ "output_dir" → name ≠ "log_level" →
    c.toTable.get? name = some (get name)

/-- A configuration that is put together from checked values. -/
theorem settles_of_checked {dir : FilePath} {language : Language} {policy : Policy}
    {level : LogLevel} (isDir : folderOf (get "output_dir") = .ok dir)
    (isLanguage : languageOf (get "language") = .ok language)
    (isPolicy : policyOf (get "on_unrecognized") = .ok policy)
    (isLevel : logLevelOf (get "log_level") = .ok level) :
    Settles get {
      language, apiName := get "api_name", clientName := get "client_name", outputDir := dir,
      vendorPrefix := get "vendor_prefix", packageName := get "package_name",
      commonPackage := get "common_package", policy, logLevel := level,
      baseUrl := get "base_url", version := get "version" } where
  outputDir := folderOf_eq_ok isDir
  logLevel := logLevelOf_eq_ok isLevel
  other := by
    intro name known dir level
    have text := languageOf_eq_ok isLanguage
    have text' := policyOf_eq_ok isPolicy
    simp only [names, default, toTable, Table.names, List.map_cons, List.map_nil, List.mem_cons,
      List.not_mem_nil, or_false] at known
    rcases known with rfl | rfl | rfl | rfl | rfl | rfl | rfl | rfl | rfl | rfl | rfl <;>
      simp_all [toTable, Table.get?]

/-- Only the values under the names of settings count. -/
theorem Settles.congr {get' : String → Value} (h : Settles get c)
    (same : ∀ name ∈ names, get name = get' name) : Settles get' c where
  outputDir := same "output_dir" (by decide) ▸ h.outputDir
  logLevel := same "log_level" (by decide) ▸ h.logLevel
  other name known dir level := same name known ▸ h.other name known dir level

theorem settles_ofTable {settings : Table Value} (distinct : (Table.names settings).Nodup)
    (h : ofTable settings = .ok c) :
    Settles (fun name => ((settings.get? name).or (default.toTable.get? name)).getD .null) c := by
  have laid : (fun name => ((settings.get? name).or (default.toTable.get? name)).getD .null) =
      fun name => ((default.toTable.update settings).get? name).getD .null := by
    funext name
    rw [Table.get?_update distinct]
  rw [laid]
  unfold ofTable at h
  dsimp only at h
  split at h
  · cases h
  obtain ⟨dir, isDir, h⟩ := bind_eq_ok.mp h
  obtain ⟨-, -, h⟩ := bind_eq_ok.mp h
  obtain ⟨language, isLanguage, h⟩ := bind_eq_ok.mp h
  split at h
  · cases h
  obtain ⟨policy, isPolicy, h⟩ := bind_eq_ok.mp h
  obtain ⟨level, isLevel, h⟩ := bind_eq_ok.mp h
  obtain rfl := Except.ok.inj h
  exact settles_of_checked isDir isLanguage isPolicy isLevel

/-! ## The layers -/

/-- The variable of the environment for a setting. -/
def variableName (name : String) : String :=
  environmentPrefix ++ String.ofList (name.toList.map Naming.capital)

/-- The folder that a settings file names. -/
def folderFrom (file : FilePath) (s : String) : FilePath :=
  .ofText (file.parent.join (.ofText s)).text

/-- The setting that a variable of the environment gives. -/
def exportedIn (environ : Table String) (name : String) : Option Value :=
  ((environ.get? (variableName name)).filter (· ≠ "")).map .str

/-- Where the settings of a run come from, the defaults aside. -/
structure Layers where
  overrides : Table Value
  environ : Table String
  /-- The settings file with its table, if there is one. -/
  file : Option (FilePath × Entries)

namespace Layers

variable (l : Layers)

/-- The value of an override that is not null. -/
def override? (name : String) : Option Value := (l.overrides.get? name).filter (!·.isNull)

/-- The value of a variable that is not empty. -/
def exported? (name : String) : Option Value := exportedIn l.environ name

def stored? (name : String) : Option Value := l.file.bind fun f => Entries.text? name f.2

/-- The value of the highest layer that gives one. -/
def value (name : String) : Value :=
  ((l.override? name).or ((l.exported? name).or ((l.stored? name).or
    (default.toTable.get? name)))).getD .null

/-- The output folder that the highest layer gives, seen from the folder of the settings
file exactly if it stands there. -/
def outputDir : FilePath :=
  match (l.override? "output_dir").or (l.exported? "output_dir"), l.file with
  | some v, _ => .ofText v.text
  | none, none => default.outputDir
  | none, some (file, es) =>
    match Entries.text? "output_dir" es with
    | some v => folderFrom file v.text
    | none => default.outputDir

end Layers

/-- Whether a configuration has, setting by setting, what the highest layer gives. -/
structure Follows (l : Layers) (c : Configuration) : Prop where
  outputDir : c.outputDir = l.outputDir
  logLevel : c.logLevel.name = Text.upper (l.value "log_level").text
  other : ∀ name ∈ names, name ≠ "output_dir" → name ≠ "log_level" →
    c.toTable.get? name = some (l.value name)

/-- The settings file of a run with what its table is. -/
def settingsFile (fs : FileStore) (asked root : Option FilePath) :
    Outcome (Option (FilePath × Value)) := do
  let root := root.getD ⟨"", []⟩
  if root.isBarred then misused root.barring
  match ← locate fs (root.absolute fs.cwd) asked with
  | none => pure none
  | some p => do
    let v ← readFile fs p
    pure (some (p, v))

/-- The settings that a settings file gives. -/
def settingsIn (file : Option (FilePath × Value)) : Outcome (Table Value) :=
  match file with
  | none => .ok []
  | some (p, v) => tableOf p.text v >>= resolveOutput p

theorem load_eq (fs : FileStore) (asked root : Option FilePath) (environ : Table String) :
    load fs asked root environ = settingsFile fs asked root >>= fun file =>
      settingsIn file >>= fun table => ofTable (Table.update table (ofEnvironment environ)) := by
  unfold load settingsFile
  dsimp only
  split
  · rfl
  · cases located : locate fs ((root.getD ⟨"", []⟩).absolute fs.cwd) asked with
    | error f => rfl
    | ok file =>
        cases file with
        | none => rfl
        | some p =>
            cases read : readFile fs p with
            | error f => simp [read]
            | ok v => simp [read, settingsIn]

/-! ## What each layer gives -/

theorem ofEnvironment_eq (environ : Table String) :
    ofEnvironment environ =
      names.filterMap fun name => (exportedIn environ name).map fun v => (name, v) := by
  refine congrFun (congrArg List.filterMap (funext fun name => ?_)) names
  dsimp only [exportedIn, variableName]
  split
  next empty => simp [empty, Option.filter_some]
  next s other given =>
    have filled : s ≠ "" := fun empty => other empty
    simp [given, Option.filter_some, filled]
  next missing => simp [missing]

theorem get?_ofEnvironment (environ : Table String) (known : name ∈ names) :
    (ofEnvironment environ).get? name = exportedIn environ name := by
  rw [ofEnvironment_eq, Table.get?_filterMap _ known]

theorem nodup_names_ofEnvironment (environ : Table String) :
    (Table.names (ofEnvironment environ)).Nodup := by
  rw [ofEnvironment_eq, Table.names_filterMap]
  exact nodup_names.filter _

section File

variable {es : Entries} {file : FilePath} {table : Table Value} {fs : FileStore}

/-- Entries as a table of settings. -/
def asTable (es : Entries) : Table Value := es.map fun e => (e.1.text, e.2)

theorem get?_asTable (h : Tidy (.map es)) : (asTable es).get? name = Entries.text? name es := by
  have keys := h.key_of
  clear h
  induction es with
  | nil => rfl
  | cons e rest ih =>
      rw [List.forall_mem_cons] at keys
      have below : Table.get? name (asTable rest) = Entries.text? name rest := ih keys.2
      have first : same e.1 (.str name) = decide (e.1.text = name) := by
        rw [keys.1]
        rfl
      change Table.get? name ((e.1.text, e.2) :: asTable rest) =
        Option.map (·.2) (List.find? (fun e => same e.1 (.str name)) (e :: rest))
      rw [Table.get?, List.find?_cons, first, below]
      by_cases named : e.1.text = name
      · simp [named]
      · simp [named, Entries.text?, Entries.get?]

theorem names_asTable {names : List String} (keys : es.keys = names.map .str) :
    Table.names (asTable es) = names := by
  have texts : Table.names (asTable es) = es.keys.map text := by
    simp [asTable, Table.names, Entries.keys]
  rw [texts, keys, List.map_map]
  exact List.map_id names

theorem nodup_names_asTable (h : Tidy (.map es)) : (Table.names (asTable es)).Nodup := by
  obtain ⟨names, keys, distinct⟩ := h.exists_names
  rwa [names_asTable keys]

/-- Only a table gives settings. -/
theorem tableOf_eq_ok {source : String} (h : tableOf source v = .ok table) :
    ∃ es, v = .map es ∧ table = asTable es := by
  unfold tableOf at h
  split at h
  next es =>
    obtain ⟨-, -, h⟩ := bind_eq_ok.mp h
    exact ⟨es, rfl, (Except.ok.inj h).symm⟩
  · obtain ⟨-, -, h⟩ := bind_eq_ok.mp h
    cases h
  · dsimp only at h
    split at h
    · cases h
    split at h
    · cases h
    obtain ⟨-, -, h⟩ := bind_eq_ok.mp h
    split at h <;> cases h
  · cases h

theorem tidy_part {part : Value} (h : Tidy v) (given : Configuration.part name v = .ok part) :
    Tidy part := by
  unfold Configuration.part at given
  split at given
  next es =>
    obtain rfl := Except.ok.inj given
    cases found : Entries.text? name es with
    | none => exact .nil
    | some w => exact h.of_text? found
  · cases given

theorem tidy_readFile (h : readFile fs file = .ok v) : Tidy v := by
  unfold readFile at h
  split at h
  · cases h
  · split at h
    · cases h
    · split at h
      · cases h
      · cases h
      next es parsed =>
        have tidy : Tidy (.map es) := Toml.tidy_parse _ es parsed
        unfold settingsOf at h
        split at h
        · obtain ⟨tool, given, h⟩ := bind_eq_ok.mp h
          exact tidy_part (tidy_part tidy given) h
        · obtain rfl := Except.ok.inj h
          cases found : Entries.text? "clientgen" es with
          | none => exact tidy
          | some w => exact tidy.of_text? found

/-- A table from a settings file, with its output folder seen from there. -/
def seenFrom (file : FilePath) (name : String) (v : Value) : Value :=
  if name = "output_dir" then .str (file.parent.join (.ofText v.text)).text else v

theorem seenFrom_of_ne (h : name ≠ "output_dir") (file : FilePath) : seenFrom file name = id :=
  funext fun _ => if_neg h

/-- What the table of a settings file gives. -/
theorem get?_settingsIn (tidy : Tidy v) (h : settingsIn (some (file, v)) = .ok table) :
    ∃ es, v = .map es ∧ (Table.names table).Nodup ∧
      ∀ name, table.get? name = (Entries.text? name es).map (seenFrom file name) := by
  obtain ⟨read, isTable, resolved⟩ := bind_eq_ok.mp h
  obtain ⟨es, rfl, rfl⟩ := tableOf_eq_ok isTable
  refine ⟨es, rfl, ?_⟩
  unfold resolveOutput at resolved
  rw [get?_asTable tidy] at resolved
  split at resolved
  next missing =>
    obtain rfl := Except.ok.inj resolved
    refine ⟨nodup_names_asTable tidy, fun name => ?_⟩
    rw [get?_asTable tidy]
    by_cases named : name = "output_dir"
    · rw [named, missing, Option.map_none]
    · rw [seenFrom_of_ne named, Option.map_id, id]
  next v given =>
    obtain ⟨p, isFolder, resolved⟩ := bind_eq_ok.mp resolved
    obtain rfl := Except.ok.inj resolved
    obtain rfl := folderOf_eq_ok isFolder
    refine ⟨Table.nodup_names_put (nodup_names_asTable tidy) _ _, fun name => ?_⟩
    by_cases named : name = "output_dir"
    · subst named
      rw [Table.get?_put_self, given]
      simp [seenFrom]
    · rw [Table.get?_put_of_ne named, get?_asTable tidy, seenFrom_of_ne named, Option.map_id, id]

end File

/-! ## Both readings -/

section Readings

variable {fs : FileStore} {asked root : Option FilePath} {environ : Table String}
  {base : Configuration} {overrides : Table Value}

theorem tidy_settingsFile {p : FilePath} (h : settingsFile fs asked root = .ok (some (p, v))) :
    Tidy v := by
  unfold settingsFile at h
  dsimp only at h
  split at h
  · cases h
  obtain ⟨found, -, h⟩ := bind_eq_ok.mp h
  cases found with
  | none => cases h
  | some q =>
      obtain ⟨w, read, h⟩ := bind_eq_ok.mp h
      cases h
      exact tidy_readFile read

/-- What a settings file gives, its output folder seen from its own folder. -/
def storedIn (file : Option (FilePath × Entries)) (name : String) : Option Value :=
  file.bind fun f => (Entries.text? name f.2).map (seenFrom f.1 name)

/-- The first reading: variables of the environment over a settings file. -/
theorem settles_load (h : load fs asked root environ = .ok c) :
    ∃ file : Option (FilePath × Entries),
      settingsFile fs asked root = .ok (file.map fun f => (f.1, .map f.2)) ∧
      Settles (fun name => ((exportedIn environ name).or ((storedIn file name).or
        (default.toTable.get? name))).getD .null) c := by
  rw [load_eq] at h
  obtain ⟨source, found, h⟩ := bind_eq_ok.mp h
  obtain ⟨table, given, made⟩ := bind_eq_ok.mp h
  have file : ∃ file : Option (FilePath × Entries),
      source = file.map (fun f => (f.1, .map f.2)) ∧ (Table.names table).Nodup ∧
      ∀ name, table.get? name = storedIn file name := by
    cases source with
    | none =>
        obtain rfl := Except.ok.inj given
        exact ⟨none, rfl, List.nodup_nil, fun _ => rfl⟩
    | some f =>
        obtain ⟨es, isTable, distinct, gives⟩ := get?_settingsIn (tidy_settingsFile found) given
        exact ⟨some (f.1, es), by rw [Option.map_some, ← isTable], distinct, gives⟩
  obtain ⟨file, rfl, distinct, gives⟩ := file
  refine ⟨file, found, (settles_ofTable (Table.nodup_names_update distinct _) made).congr ?_⟩
  intro name known
  rw [Table.get?_update (nodup_names_ofEnvironment environ), get?_ofEnvironment environ known,
    gives, Option.or_assoc]

/-- The second reading: overrides over a configuration. -/
theorem settles_withOverrides (distinct : (Table.names overrides).Nodup)
    (h : base.withOverrides overrides = .ok c) :
    Settles (fun name => (((overrides.get? name).filter (!·.isNull)).or
      (base.toTable.get? name)).getD .null) c := by
  unfold withOverrides at h
  dsimp only at h
  split at h
  · cases h
  split at h
  · cases h
  have given : (Table.names (overrides.filter fun e => !e.2.isNull)).Nodup :=
    distinct.sublist (List.filter_sublist.map _)
  have all : (Table.names (base.toTable.update (overrides.filter fun e => !e.2.isNull))).Nodup :=
    Table.nodup_names_update (names_toTable base ▸ nodup_names) _
  refine (settles_ofTable all h).congr fun name known => ?_
  obtain ⟨v, there⟩ := exists_get?_toTable base known
  rw [Table.get?_update given, Table.get?_filter distinct (!·.isNull), there]
  cases Option.filter (!·.isNull) (overrides.get? name) <;> rfl

end Readings

/-! ## The order of the layers -/

namespace Layers

variable {l : Layers}

theorem storedIn_eq (dir : name ≠ "output_dir") : storedIn l.file name = l.stored? name := by
  unfold storedIn stored?
  congr 1
  funext f
  rw [seenFrom_of_ne dir, Option.map_id, id]

/-- The output folder that is given below the overrides. -/
theorem outputDir_eq (missing : l.override? "output_dir" = none) :
    l.outputDir = .ofText (((exportedIn l.environ "output_dir").or
      ((storedIn l.file "output_dir").or
        (default.toTable.get? "output_dir"))).getD .null).text := by
  have build : default.outputDir = .ofText default.outputDir.text := by decide
  have kept : default.toTable.get? "output_dir" = some (.str default.outputDir.text) := rfl
  unfold outputDir
  rw [missing, Option.none_or]
  unfold exported? storedIn
  cases exportedIn l.environ "output_dir" with
  | some v => rfl
  | none =>
      cases l.file with
      | none => exact build
      | some f =>
          dsimp only
          cases stored : Entries.text? "output_dir" f.2 with
          | none => simpa [stored, kept, text] using build
          | some v => simp [stored, seenFrom, folderFrom, text]

end Layers

/-- A configuration that is read in two steps has what the highest layer gives. -/
theorem follows_of_readings {l : Layers} {base c : Configuration}
    (below : Settles (fun name => ((exportedIn l.environ name).or ((storedIn l.file name).or
      (default.toTable.get? name))).getD .null) base)
    (above : Settles (fun name => ((l.override? name).or
      (base.toTable.get? name)).getD .null) c) : Follows l c where
  outputDir := by
    rw [above.outputDir]
    cases given : l.override? "output_dir" with
    | some v => simp [Layers.outputDir, given]
    | none =>
        have readable : base.outputDir.Readable := below.outputDir ▸ FilePath.readable_ofText _
        calc FilePath.ofText base.outputDir.text
          _ = base.outputDir := readable.ofText_text
          _ = l.outputDir := below.outputDir.trans (Layers.outputDir_eq given).symm
  logLevel := by
    rw [above.logLevel, Layers.value]
    cases given : l.override? "log_level" with
    | some v => simp
    | none =>
        calc Text.upper base.logLevel.name
          _ = base.logLevel.name := upper_logLevel _
          _ = _ := below.logLevel
          _ = _ := by
            rw [Layers.storedIn_eq (by decide)]
            rfl
  other name known dir level := by
    rw [above.other name known dir level, below.other name known dir level, Layers.value,
      Layers.storedIn_eq dir]
    cases l.override? name <;> rfl

/-- A name in the table of the settings file that is no setting is refused before any other
layer is looked at. -/
theorem load_of_unknown {fs : FileStore} {asked root : Option FilePath} {file : FilePath}
    {es : Entries} (found : settingsFile fs asked root = .ok (some (file, .map es)))
    (unknown : ∃ e ∈ es, e.1.text ∉ names) (environ : Table String) :
    load fs asked root environ = .error (.configuration (.unknownSettingsIn file.text
      (sortedNames ((Table.names (asTable es)).filter (!names.contains ·)).eraseDups))) := by
  obtain ⟨e, there, other⟩ := unknown
  have some_ : ((Table.names (asTable es)).filter (!names.contains ·)).isEmpty = false := by
    have listed : e.1.text ∈ Table.names (asTable es) :=
      List.mem_map.mpr ⟨_, List.mem_map_of_mem there, rfl⟩
    rw [List.isEmpty_eq_false_iff_exists_mem]
    exact ⟨e.1.text, List.mem_filter.mpr ⟨listed, by simpa using other⟩⟩
  have refused : tableOf file.text (.map es) = .error (.configuration (.unknownSettingsIn file.text
      (sortedNames ((Table.names (asTable es)).filter (!names.contains ·)).eraseDups))) := by
    change checkNames file.text (Table.names (asTable es)) >>= _ = _
    rw [checkNames, some_]
    rfl
  rw [load_eq, found, ok_bind, settingsIn, refused]
  rfl

/-- Overrides win over variables of the environment, these over the settings file, and that
over the defaults, setting by setting; a name in the file that is no setting is refused
whatever the other layers give. -/
theorem settings_follow_layers (fs : FileStore) (asked root : Option FilePath) :
    (∀ (overrides : Table Value) (environ : Table String) (base c : Configuration),
      (Table.names overrides).Nodup → load fs asked root environ = .ok base →
        base.withOverrides overrides = .ok c →
          ∃ file : Option (FilePath × Entries),
            settingsFile fs asked root = .ok (file.map fun f => (f.1, .map f.2)) ∧
            Follows ⟨overrides, environ, file⟩ c) ∧
    (∀ (file : FilePath) (es : Entries), settingsFile fs asked root = .ok (some (file, .map es)) →
      (∃ e ∈ es, e.1.text ∉ names) → ∀ environ, ∃ unknown,
        load fs asked root environ =
          .error (.configuration (.unknownSettingsIn file.text unknown))) := by
  refine ⟨fun overrides environ base c distinct loaded overridden => ?_,
    fun file es found unknown environ => ⟨_, load_of_unknown found unknown environ⟩⟩
  obtain ⟨file, found, below⟩ := settles_load loaded
  exact ⟨file, found, follows_of_readings below (settles_withOverrides distinct overridden)⟩

/-- A store with one settings file. -/
def storing (content : String) : FileStore :=
  ⟨[(["clientgen.toml"], .file content.toUTF8)], []⟩

/-- Whether a settings file has a table with a name that is no setting. -/
def isUnknown (found : Outcome (Option (FilePath × Value))) : Bool :=
  match found with
  | .ok (some (_, .map es)) => es.any fun e => !names.contains e.1.text
  | _ => false

/-- The version is that of the variable, since the override is null, and the folder that of
the file. Another name in the file is refused. -/
theorem version_follows_layers :
    (∃ base c file, load (storing "output_dir = 'out'\nversion = '2'\n") none none
        [("CLIENTGEN_VERSION", "3")] = .ok base ∧
      base.withOverrides [("language", .str "php"), ("version", .null)] = .ok c ∧
      Follows ⟨[("language", .str "php"), ("version", .null)], [("CLIENTGEN_VERSION", "3")], file⟩
        c) ∧
    ∃ file unknown, load (storing "colour = 'red'\n") none none [("CLIENTGEN_VERSION", "3")] =
      .error (.configuration (.unknownSettingsIn file unknown)) := by
  constructor
  · have succeeds : (load (storing "output_dir = 'out'\nversion = '2'\n") none none
        [("CLIENTGEN_VERSION", "3")] >>= fun base =>
          base.withOverrides [("language", .str "php"), ("version", .null)]).isOk = true := by
      decide +kernel
    cases loaded : load (storing "output_dir = 'out'\nversion = '2'\n") none none
        [("CLIENTGEN_VERSION", "3")] with
    | error f =>
        rw [loaded] at succeeds
        cases succeeds
    | ok base =>
        cases overridden : base.withOverrides [("language", .str "php"), ("version", .null)] with
        | error f =>
            rw [loaded, ok_bind, overridden] at succeeds
            cases succeeds
        | ok c =>
            obtain ⟨file, -, follows⟩ := (settings_follow_layers _ none none).1 _ _ base c
              (by decide) loaded overridden
            exact ⟨base, c, file, rfl, overridden, follows⟩
  · have unknown : isUnknown (settingsFile (storing "colour = 'red'\n") none none) = true := by
      decide +kernel
    unfold isUnknown at unknown
    split at unknown
    next file es found =>
      obtain ⟨e, there, other⟩ := List.any_eq_true.mp unknown
      exact ⟨file.text, (settings_follow_layers _ none none).2 file es found
        ⟨e, there, by simpa using other⟩ _⟩
    · cases unknown

end Configuration

end ClientForge
