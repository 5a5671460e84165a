import ClientForge.Proofs.Relocation

/-!
# Folders that trees can be moved between

A folder tells the kind of three documents, and with them of all. For each of the three there
is a tree of two documents, one of which includes the other: read as a mapping the included
one declares a type, taken as text it is no section. So the tree loads from a folder exactly
if the folder tells the included document to be structured, and two folders that are not
alike give different results for one of the three trees.
-/

namespace ClientForge

open FilePath FileStore ClientForge.Outcome

namespace Loading

variable {tree : FileStore} {structured : List String → Bool} {parts parts' : List String}
  {r r' : Yaml.Reading Value} {given : String → Option Value} {v w : Value} {depth : Nat}
  {name reference s : String} {d d' : FilePath} {shelf : Shelf}

/-! ## Readings that come through -/

/-- Carry a reading through with what is given for references, if that is enough. -/
def through (given : String → Option Value) (r : Yaml.Reading Value) : Option Value :=
  r.run given fun _ => none

theorem through_ask {next : Value → Yaml.Reading Value}
    (h : through given (.ask reference next) = some w) :
    ∃ v, given reference = some v ∧ through given (next v) = some w :=
  Option.bind_eq_some_iff.mp h

/-- What a reading comes to with the answers of a tree comes through as the reading does. -/
theorem through_of_comes (comes : Comes tree structured parts r r')
    (agree : ∀ depth reference u v, answerOf tree structured depth parts reference = .ok u →
      given reference = some v → u = v) (h : through given r = some w) :
    through given r' = some w := by
  induction comes with
  | here r => exact h
  | answered answer _ ih =>
      obtain ⟨v, known, further⟩ := through_ask h
      exact ih (agree _ _ _ _ answer known ▸ further)

/-- Only what is given is asked for. -/
theorem given_of_asks (asks : Asks tree structured parts reference)
    (lies : textOf tree parts = .ok s)
    (agree : ∀ depth reference u v, answerOf tree structured depth parts reference = .ok u →
      given reference = some v → u = v) (h : through given (Yaml.read s) = some w) :
    ∃ v, given reference = some v := by
  obtain ⟨s', next, lies', comes⟩ := asks
  obtain rfl := Except.ok.inj (lies.symm.trans lies')
  obtain ⟨v, known, -⟩ := through_ask (through_of_comes comes agree h)
  exact ⟨v, known⟩

/-- A reading that comes through gives its value where the tree answers as is given. -/
theorem followOf_of_through (h : through given r = some w)
    (answers : ∀ reference v, given reference = some v →
      answerOf tree structured depth parts reference = .ok v) :
    followOf tree structured depth parts r = .ok w := by
  induction r with
  | done v => exact congrArg _ (Option.some.inj h)
  | failed fault => cases h
  | ask reference next ih =>
      obtain ⟨v, known, further⟩ := through_ask h
      rw [followOf_ask, answers reference v known]
      exact ih v further

/-- A reading that comes through, but not with nothing given, asks for something given. -/
theorem exists_ask (h : through given r = some w) (stuck : through (fun _ => none) r = none) :
    ∃ reference next v, r = .ask reference next ∧ given reference = some v := by
  cases r with
  | done v => cases stuck
  | failed fault => cases h
  | ask reference next =>
      obtain ⟨v, known, -⟩ := through_ask h
      exact ⟨reference, next, v, rfl, known⟩

/-! ## Trees with one inclusion -/

/-- A document that includes another one as its types. -/
def including (name : String) : String := "types: !include " ++ name ++ "\n"

/-- What is given for the only reference. -/
def only (name : String) (v : Value) (reference : String) : Option Value :=
  if reference = name then some v else none

theorem only_eq_some : only name v reference = some w ↔ reference = name ∧ v = w := by
  simp [only]

/-- What a document that includes another one says, given the value of the other one. -/
def outer (name : String) (v : Value) : Value :=
  (through (only name v) (Yaml.read (including name))).getD .null

/-- A tree with a document that includes another one, whose value can only be one and which
includes nothing itself. -/
structure OneInclusion (tree : FileStore) (structured : List String → Bool) (name : String)
    (v : Value) : Prop where
  listed : name ∈ telling
  lies : textOf tree ["api.raml"] = .ok (including name)
  comes : through (only name v) (Yaml.read (including name)) = some (outer name v)
  answer : ∀ depth u, answerOf tree structured depth ["api.raml"] name = .ok u → u = v
  mute : ∀ reference, ¬ Asks tree structured [name] reference
  apart : ∀ place, tree.walk [] ["api.raml"] = .ok place → tree.walk [] [name] ≠ .ok place

/-- The names by which folders are told apart are plain references. -/
theorem plain_of_telling : ∀ name ∈ telling, name ≠ "api.raml" ∧
    WebAddress.isFetchable name = false ∧ (ofText name).isAbsolute = false ∧
      targetOf ["api.raml"] name = [name] ∧ (depthFrom 0 [name]).isSome := by
  decide

theorem stuck_including : ∀ name ∈ telling,
    (through (fun _ => none) (Yaml.read (including name))).isNone = true := by
  decide +kernel

namespace OneInclusion

variable (one : OneInclusion tree structured name v)
include one

theorem target : targetOf ["api.raml"] name = [name] :=
  (plain_of_telling name one.listed).2.2.2.1

theorem asks : Asks tree structured ["api.raml"] name := by
  have stuck := Option.isNone_iff_eq_none.mp (stuck_including name one.listed)
  obtain ⟨reference, next, u, read, known⟩ := exists_ask one.comes stuck
  obtain ⟨rfl, -⟩ := only_eq_some.mp known
  exact ⟨including reference, next, one.lies, read ▸ .here _⟩

theorem eq_of_asks (asks : Asks tree structured ["api.raml"] reference) : reference = name := by
  have agree : ∀ depth reference u w,
      answerOf tree structured depth ["api.raml"] reference = .ok u →
        only name v reference = some w → u = w := by
    intro depth reference u w answer known
    obtain ⟨rfl, rfl⟩ := only_eq_some.mp known
    exact one.answer depth u answer
  obtain ⟨w, known⟩ := given_of_asks asks one.lies agree one.comes
  exact (only_eq_some.mp known).1

/-- The outer document includes the inner one only, and the inner one nothing. -/
theorem eq_of_includes (known : parts = ["api.raml"] ∨ parts = [name])
    (includes : Includes tree structured parts parts') :
    parts = ["api.raml"] ∧ parts' = [name] := by
  obtain ⟨reference, asks, rfl⟩ := includes
  rcases known with rfl | rfl
  · rw [one.eq_of_asks asks]
    exact ⟨rfl, one.target⟩
  · exact absurd asks (one.mute reference)

theorem eq_of_opened (opened : Opened tree structured ["api.raml"] parts) :
    parts = ["api.raml"] ∨ parts = [name] := by
  induction opened with
  | refl => exact .inl rfl
  | tail _ opens ih => exact .inr (one.eq_of_includes ih opens.1).2

theorem coherent : Coherent tree structured ["api.raml"] where
  inside := by decide
  relative := by
    intro parts opened reference asks
    obtain ⟨-, near, relative, target, inside⟩ := plain_of_telling name one.listed
    obtain ⟨rfl, -⟩ := one.eq_of_includes (one.eq_of_opened opened) ⟨reference, asks, rfl⟩
    rw [one.eq_of_asks asks, target]
    exact ⟨near, relative, inside⟩
  acyclic := by
    intro parts parts' opened leads place walked
    obtain ⟨other, first, further⟩ := Relation.TransGen.head'_iff.mp leads
    obtain ⟨rfl, rfl⟩ := one.eq_of_includes (one.eq_of_opened opened) first.1
    obtain rfl : parts' = [name] := by
      rcases further.cases_head with same | ⟨next, second, -⟩
      · exact same.symm
      · obtain ⟨other, -⟩ := plain_of_telling name one.listed
        exact absurd (one.eq_of_includes (.inr rfl) second.1).1 (by simpa using other)
    exact one.apart place walked

end OneInclusion

/-- A folder in which two small documents can lie: some store has it, with nothing in it, and
its path is not too long. -/
structure CanHold (d : FilePath) : Prop where
  empty : ∃ fs, HoldsCopy fs d vacant
  short : ∀ name ∈ "api.raml" :: telling, isPathTooLong (d.below [name]) = false

/-- A path that goes down along names, none of them too long. -/
structure IsOrdinary (d : FilePath) : Prop where
  readable : d.Readable
  down : ".." ∉ d.parts
  searchable : Searchable d
  short : ∀ name ∈ "api.raml" :: telling, isPathTooLong (d.below [name]) = false

instance : Decidable (IsOrdinary d) :=
  decidable_of_iff
    ((d.root ∈ roots ∧ ∀ part ∈ d.parts, isPart part = true ∧ '/' ∉ part.toList) ∧
      ".." ∉ d.parts ∧
      (d.isBarred = false ∧ isPathTooLong d = false ∧ ∀ part ∈ d.parts, isTooLong part = false) ∧
      ∀ name ∈ "api.raml" :: telling, isPathTooLong (d.below [name]) = false)
    ⟨fun ⟨⟨root, parts⟩, down, ⟨clean, short, names⟩, room⟩ =>
        ⟨⟨root, parts⟩, down, ⟨clean, short, names⟩, room⟩,
      fun ⟨⟨root, parts⟩, down, ⟨clean, short, names⟩, room⟩ =>
        ⟨⟨root, parts⟩, down, ⟨clean, short, names⟩, room⟩⟩

theorem IsOrdinary.canHold (ordinary : IsOrdinary d) : CanHold d :=
  ⟨⟨_, (holdsCopy_vacant ordinary.readable ordinary.searchable ordinary.down).1⟩, ordinary.short⟩

/-- A tree with one inclusion can be loaded from a folder that can hold it. -/
theorem OneInclusion.lies_in (one : OneInclusion tree (kindIn d) name v) (can : CanHold d)
    (copy : HoldsCopy shelf.store d tree) : Lies tree "api.raml" shelf d := by
  refine ⟨copy, by decide, one.coherent, can.short _ List.mem_cons_self, ?_⟩
  intro parts parts' opened includes
  rw [(one.eq_of_includes (one.eq_of_opened opened) includes).2]
  exact can.short name (List.mem_cons_of_mem _ one.listed)

/-! ## Trees that tell folders apart -/

/-- A document that declares a type. -/
def declaration : String := "Money: any\n"

/-- What the declaration says. -/
def declared : Value := (through (fun _ => none) (Yaml.read declaration)).getD .null

/-- What stands for the included document, by its kind. -/
def shown (kind : Bool) : Value := if kind then declared else .str declaration

/-- A document that includes another one which is not there. -/
def single (name : String) : FileStore := vacant.put ["api.raml"] (.file (including name).toUTF8)

/-- A document that includes another one, and the other one. -/
def pair (name : String) : FileStore := (single name).put [name] (.file declaration.toUTF8)

theorem through_declaration :
    (through (fun _ => none) (Yaml.read declaration)).isSome = true := by
  decide +kernel

theorem through_including : ∀ name ∈ telling, ∀ kind : Bool,
    (through (only name (shown kind)) (Yaml.read (including name))).isSome = true := by
  decide +kernel

/-- The outer document gives a specification exactly if the inner one is structured. -/
theorem isOk_outer : ∀ name ∈ telling, ∀ kind : Bool,
    (Specification.ofDocument (outer name (shown kind)) none
      (some (below ⟨"", []⟩ ["api.raml"]).text)).isOk = kind := by
  decide +kernel

theorem contents_pair : ∀ name ∈ telling,
    (textOf (pair name) ["api.raml"]).toOption = some (including name) ∧
      (textOf (pair name) [name]).toOption = some declaration ∧
      ((pair name).walk [] ["api.raml"]).toOption = some ["api.raml"] ∧
      ((pair name).walk [] [name]).toOption = some [name] := by
  decide +kernel

theorem eq_ok_of_toOption {ε α : Type} {x : Except ε α} {a : α} (h : x.toOption = some a) :
    x = .ok a := by
  cases x with
  | error e => cases h
  | ok b => rw [Option.some.inj h]

theorem eq_some_getD {α : Type} {x : Option α} (h : x.isSome = true) (a : α) :
    x = some (x.getD a) := by
  cases x with
  | none => cases h
  | some b => rfl

theorem apart_of_walk (listed : name ∈ telling)
    (walked : (tree.walk [] ["api.raml"]).toOption = some ["api.raml"])
    (walked' : (tree.walk [] [name]).toOption = some [name]) :
    ∀ place, tree.walk [] ["api.raml"] = .ok place → tree.walk [] [name] ≠ .ok place := by
  intro place found found'
  rw [found] at walked
  rw [found'] at walked'
  have same : [name] = ["api.raml"] := Option.some.inj (walked'.symm.trans walked)
  exact (plain_of_telling name listed).1 (List.cons.inj same).1

theorem valueOf_inner (listed : name ∈ telling) :
    valueOf (pair name) structured (depth + 1) [name] = .ok declared := by
  rw [valueOf_of_textOf (eq_ok_of_toOption (contents_pair name listed).2.1)]
  exact followOf_of_through (eq_some_getD through_declaration .null) (by simp)

/-- What stands in the place of the included document. -/
theorem answerOf_inner (listed : name ∈ telling) :
    answerOf (pair name) structured (depth + 1) ["api.raml"] name =
      .ok (shown (structured [name])) := by
  rw [answerOf, (plain_of_telling name listed).2.2.2.1]
  cases structured [name] with
  | true => exact valueOf_inner listed
  | false =>
      rw [eq_ok_of_toOption (contents_pair name listed).2.1]
      rfl

theorem oneInclusion_pair (listed : name ∈ telling) :
    OneInclusion (pair name) structured name (shown (structured [name])) := by
  obtain ⟨lies, lies', walked, walked'⟩ := contents_pair name listed
  refine ⟨listed, eq_ok_of_toOption lies, eq_some_getD (through_including name listed _) _,
    fun depth u answer => ?_, fun reference asks => ?_, apart_of_walk listed walked walked'⟩
  · have deeper := answerOf_eq_ok (Nat.le_succ depth) answer
    exact Except.ok.inj (deeper.symm.trans (answerOf_inner listed))
  · obtain ⟨u, known⟩ := given_of_asks asks (eq_ok_of_toOption lies') (by simp)
      (eq_some_getD through_declaration .null)
    cases known

theorem contents_single : ∀ name ∈ telling,
    (textOf (single name) ["api.raml"]).toOption = some (including name) ∧
      ((single name).walk [] ["api.raml"]).toOption = some ["api.raml"] ∧
      ((single name).walk [] [name]).toOption = some [name] := by
  decide +kernel

theorem textOf_missing (listed : name ∈ telling) :
    textOf (single name) [name] = .error (.unread [name] .missing) := by
  simp only [telling, List.mem_cons, List.not_mem_nil, or_false] at listed
  rcases listed with rfl | rfl | rfl <;> rfl

theorem oneInclusion_single (listed : name ∈ telling) :
    OneInclusion (single name) structured name (shown true) := by
  obtain ⟨lies, walked, walked'⟩ := contents_single name listed
  refine ⟨listed, eq_ok_of_toOption lies, eq_some_getD (through_including name listed _) _,
    fun depth u answer => ?_, fun reference asks => ?_, apart_of_walk listed walked walked'⟩
  · have deeper := answerOf_eq_ok (Nat.le_succ depth) answer
    rw [answerOf, (plain_of_telling name listed).2.2.2.1, valueOf_succ,
      textOf_missing listed] at deeper
    split at deeper <;> cases deeper
  · obtain ⟨s, next, lies', -⟩ := asks
    rw [textOf_missing listed] at lies'
    cases lies'

/-- The missing document is what the tree breaks with. -/
theorem breaks_single (listed : name ∈ telling) :
    Breaks (single name) structured ["api.raml"] (.unread [name] .missing) := by
  have one : OneInclusion (single name) structured name _ := oneInclusion_single listed
  exact .missing (.inr ⟨["api.raml"], .refl, name, one.asks, one.target.symm⟩)
    (textOf_missing listed)

/-! ## Telling folders apart -/

section Copy

variable {fs : FileStore} {place : Location} (empty : HoldsCopy fs d vacant)
  (found : fs.locate d = .ok place)
include empty found

theorem holdsCopy_single (name : String) :
    HoldsCopy (fs.put (place ++ ["api.raml"]) (.file (including name).toUTF8)) d (single name) ∧
      (fs.put (place ++ ["api.raml"]) (.file (including name).toUTF8)).locate d = .ok place :=
  empty.put found (by decide) rfl (by rw [node?_vacant (by decide)]; nofun)

theorem holdsCopy_pair (listed : name ∈ telling) :
    HoldsCopy ((fs.put (place ++ ["api.raml"]) (.file (including name).toUTF8)).put
      (place ++ [name]) (.file declaration.toUTF8)) d (pair name) := by
  obtain ⟨outer, found'⟩ := holdsCopy_single empty found name
  have other : [name] ≠ ["api.raml"] := by simpa using (plain_of_telling name listed).1
  have free : (single name).node? [name] = none := by
    rw [single, node?_put (by decide), if_neg other, node?_vacant (List.cons_ne_nil _ _)]
  exact (outer.put found' (List.cons_ne_nil _ _) rfl (by rw [free]; nofun)).1

end Copy

theorem lies_single (can : CanHold d) (listed : name ∈ telling) :
    ∃ shelf, Lies (single name) "api.raml" shelf d := by
  obtain ⟨fs, empty⟩ := can.empty
  obtain ⟨place, found, -⟩ := empty.copied
  have copy := (holdsCopy_single empty found name).1
  exact ⟨⟨_, []⟩, (oneInclusion_single listed).lies_in can copy⟩

theorem lies_pair (can : CanHold d) (listed : name ∈ telling) :
    ∃ shelf, Lies (pair name) "api.raml" shelf d := by
  obtain ⟨fs, empty⟩ := can.empty
  obtain ⟨place, found, -⟩ := empty.copied
  have copy := holdsCopy_pair empty found listed
  exact ⟨⟨_, []⟩, (oneInclusion_pair listed).lies_in can copy⟩

/-- A store with the two documents in the folder of a path and nothing else. -/
def pairIn (d : FilePath) (name : String) : FileStore :=
  ((vacant.ensureFolders d).2.put (vacant.spot d ++ ["api.raml"])
    (.file (including name).toUTF8)).put (vacant.spot d ++ [name]) (.file declaration.toUTF8)

theorem lies_pairIn (ordinary : IsOrdinary d) (listed : name ∈ telling) :
    Lies (pair name) "api.raml" ⟨pairIn d name, []⟩ d := by
  obtain ⟨empty, found⟩ :=
    holdsCopy_vacant ordinary.readable ordinary.searchable ordinary.down
  exact (oneInclusion_pair listed).lies_in ordinary.canHold (holdsCopy_pair empty found listed)

/-- What is loaded from a folder depends on how it tells the inner document. -/
theorem load_pair (listed : name ∈ telling) (lies : Lies (pair name) "api.raml" shelf d) :
    load shelf d "api.raml" none =
      Specification.ofDocument (outer name (shown (kindIn d [name]))) none
        (some (d.below ["api.raml"]).text) := by
  have one : OneInclusion (pair name) (kindIn d) name _ := oneInclusion_pair listed
  have means : valueOf (pair name) (kindIn d) (shelf.depth + 2) ["api.raml"] =
      .ok (outer name (shown (kindIn d [name]))) := by
    rw [valueOf_of_textOf one.lies]
    refine followOf_of_through one.comes fun reference v known => ?_
    obtain ⟨rfl, rfl⟩ := only_eq_some.mp known
    exact answerOf_inner listed
  have proper : (ofText "api.raml").parts = ["api.raml"] := by decide
  rw [lies.load_eq, ← lies.valueOf_eq (Nat.le_add_right shelf.depth 2), proper, means]
  rfl

theorem isOk_load (listed : name ∈ telling) (lies : Lies (pair name) "api.raml" shelf d) :
    (load shelf d "api.raml" none).isOk = kindIn d [name] := by
  have portable : Portable fun d =>
      Specification.ofDocument _ none (some (d.below ["api.raml"]).text) :=
    Specification.portable_ofDocument (outer name (shown (kindIn d [name]))) none
  rw [load_pair listed lies]
  exact (portable.isOk_eq d ⟨"", []⟩).trans (isOk_outer name listed _)

/-- Folders between which trees can be moved are alike. -/
theorem alike_of_relocates (here : CanHold d) (there : CanHold d') (relocates : Relocates d d') :
    Alike d d' := by
  obtain ⟨_, empty⟩ := here.empty
  obtain ⟨_, empty'⟩ := there.empty
  refine alike_of_telling empty.readable empty'.readable fun name listed => ?_
  obtain ⟨shelf, lies⟩ := lies_pair here listed
  obtain ⟨shelf', lies'⟩ := lies_pair there listed
  obtain ⟨⟨result, same, same'⟩, -⟩ := relocates _ _ _ _ none lies lies'
  rw [← isOk_load listed lies, ← isOk_load listed lies', same, same', isOk_mapError,
    isOk_mapError]

/-- Trees can be moved between all folders that are alike, and between no others in which
small trees can lie. -/
theorem relocates_iff_alike (d d' : FilePath) : (Alike d d' → Relocates d d') ∧
    (CanHold d → CanHold d' → Relocates d d' → Alike d d') :=
  ⟨Alike.relocates, alike_of_relocates⟩

theorem failure_missing {location cause : String} (place : (d.below [name]).text = location)
    (shown : AccessFault.text ⟨.missing, (d.below [name]).quoted⟩ = cause) :
    Flaw.failure d (.unread [name] .missing) =
      .specification (.notRead location cause) (some location) := by
  rw [Flaw.failure, place, shown]

/-- Two folders between which trees can be moved. A tree of two documents loads from both, and
where the inner one is missing each load reports the place where it was looked for. -/
theorem specs_relocate : Relocates ⟨"", ["specs"]⟩ ⟨"/", ["srv", "copy"]⟩ ∧
    (∃ shelf shelf' s, Lies (pair "t.yaml") "api.raml" shelf ⟨"", ["specs"]⟩ ∧
      Lies (pair "t.yaml") "api.raml" shelf' ⟨"/", ["srv", "copy"]⟩ ∧
      load shelf ⟨"", ["specs"]⟩ "api.raml" none = .ok s ∧
      load shelf' ⟨"/", ["srv", "copy"]⟩ "api.raml" none = .ok s) ∧
    ∃ shelf shelf', Lies (single "t.yaml") "api.raml" shelf ⟨"", ["specs"]⟩ ∧
      Lies (single "t.yaml") "api.raml" shelf' ⟨"/", ["srv", "copy"]⟩ ∧
      load shelf ⟨"", ["specs"]⟩ "api.raml" none = .error (.specification
        (.notRead "specs/t.yaml" "[Errno 2] No such file or directory: 'specs/t.yaml'")
        (some "specs/t.yaml")) ∧
      load shelf' ⟨"/", ["srv", "copy"]⟩ "api.raml" none = .error (.specification
        (.notRead "/srv/copy/t.yaml" "[Errno 2] No such file or directory: '/srv/copy/t.yaml'")
        (some "/srv/copy/t.yaml")) := by
  have here : CanHold ⟨"", ["specs"]⟩ := IsOrdinary.canHold (by decide)
  have there : CanHold ⟨"/", ["srv", "copy"]⟩ := IsOrdinary.canHold (by decide)
  have relocates := (relocates_iff_alike ⟨"", ["specs"]⟩ ⟨"/", ["srv", "copy"]⟩).1 (by decide)
  have listed : "t.yaml" ∈ telling := by decide
  refine ⟨relocates, ?_, ?_⟩
  · obtain ⟨shelf, lies⟩ := lies_pair here listed
    obtain ⟨shelf', lies'⟩ := lies_pair there listed
    obtain ⟨⟨result, same, same'⟩, -⟩ := relocates _ _ _ _ none lies lies'
    have succeeds := isOk_load listed lies
    rw [same, isOk_mapError] at succeeds
    cases result with
    | error flaw =>
        rw [show kindIn ⟨"", ["specs"]⟩ ["t.yaml"] = true by decide] at succeeds
        cases succeeds
    | ok s => exact ⟨shelf, shelf', s, lies, lies', same, same'⟩
  · obtain ⟨shelf, lies⟩ := lies_single here listed
    obtain ⟨shelf', lies'⟩ := lies_single there listed
    obtain ⟨-, broken⟩ := relocates _ _ _ _ none lies lies'
    obtain ⟨failed, failed'⟩ := broken _ (breaks_single listed)
    refine ⟨shelf, shelf', lies, lies', failed.trans ?_, failed'.trans ?_⟩
    · exact congrArg _ (failure_missing rfl (by decide +kernel))
    · exact congrArg _ (failure_missing rfl (by decide +kernel))

/-- Whether a load fails with a section that is no mapping. -/
def isSectionFault (section_ location : String) : Outcome Specification → Bool
  | .error (.specification (.sectionNotMapping s) source) =>
    s == section_ && source == some location
  | _ => false

theorem eq_of_isSectionFault {section_ location : String} {x : Outcome Specification}
    (h : isSectionFault section_ location x = true) :
    x = .error (.specification (.sectionNotMapping section_) (some location)) := by
  unfold isSectionFault at h
  split at h
  · obtain ⟨rfl, rfl⟩ : _ = section_ ∧ _ = some location := by simpa using h
    rfl
  · cases h

/-- In a folder with a question mark in its name the inner document is taken as text. -/
theorem marked_folder_misreads :
    Lies (pair "t.yaml") "api.raml" ⟨pairIn ⟨"", ["a?b"]⟩ "t.yaml", []⟩ ⟨"", ["a?b"]⟩ ∧
    Lies (pair "t.yaml") "api.raml" ⟨pairIn ⟨"", ["ab"]⟩ "t.yaml", []⟩ ⟨"", ["ab"]⟩ ∧
    load ⟨pairIn ⟨"", ["a?b"]⟩ "t.yaml", []⟩ ⟨"", ["a?b"]⟩ "api.raml" none =
      .error (.specification (.sectionNotMapping "types") (some "a?b/api.raml")) ∧
    (∃ s, load ⟨pairIn ⟨"", ["ab"]⟩ "t.yaml", []⟩ ⟨"", ["ab"]⟩ "api.raml" none = .ok s ∧
      Table.names s.types = ["Money"]) ∧
    ¬ Relocates ⟨"", ["a?b"]⟩ ⟨"", ["ab"]⟩ := by
  have listed : "t.yaml" ∈ telling := by decide
  have here : IsOrdinary ⟨"", ["a?b"]⟩ := by decide
  have there : IsOrdinary ⟨"", ["ab"]⟩ := by decide
  have lies := lies_pairIn here listed
  have lies' := lies_pairIn there listed
  have misread := load_pair listed lies
  have read := load_pair listed lies'
  rw [show kindIn ⟨"", ["a?b"]⟩ ["t.yaml"] = false by decide] at misread
  rw [show kindIn ⟨"", ["ab"]⟩ ["t.yaml"] = true by decide] at read
  refine ⟨lies, lies', eq_of_isSectionFault ?_, ?_, fun relocates => ?_⟩
  · rw [misread]
    decide +kernel
  · have declares : (load ⟨pairIn ⟨"", ["ab"]⟩ "t.yaml", []⟩ ⟨"", ["ab"]⟩ "api.raml"
        none).toOption.map (fun s => Table.names s.types) = some ["Money"] := by
      rw [read]
      decide +kernel
    obtain ⟨s, loaded, types⟩ := Option.map_eq_some_iff.mp declares
    exact ⟨s, eq_ok_of_toOption loaded, types⟩
  · exact absurd (alike_of_relocates here.canHold there.canHold relocates) (by decide)

end Loading

end ClientForge
