import ClientForge.Proofs.Generation
import ClientForge.Proofs.Misuse
import ClientForge.Proofs.Resolution

/-!
# What a package needs

Settings and display names may be of any type until a file is made of them. A package is
named after texts, some settings are written out, and a display name that counts as true
has to be a text. Where the settings serve and every action can be named, rendering fails
only because a reference dangles or because two files have one path, and both is
reported. For the definitions and actions of a document nothing else is needed: once the
references are checked every look-up finds what it looks for.
-/

namespace ClientForge

open ClientForge.Outcome

theorem Value.exists_text {v : Value} (h : v.text?.isSome = true) : ∃ s, v = .str s := by
  cases v with
  | str s => exact ⟨s, rfl⟩
  | _ => cases h

theorem needWritable_eq_ok {vs : List Value} :
    needWritable vs = .ok () ↔ Value.areWritable vs = true := by
  unfold needWritable
  split <;> simp_all [misused]

theorem written_eq_ok {v : Value} : (∃ s, written v = .ok s) ↔ v.isWritable = true := by
  cases writable : v.isWritable <;>
    simp [written, needWritable, Value.areWritable, writable, misused]

/-- Definitions need that every declaration can be built. -/
theorem Catalog.needs_definitions (r : Registry) (policy : Policy) (types traits : Table Value) :
    Needs (definitions r policy types traits)
      (∀ e ∈ merge types traits, isBuildable r e.1 e.2 = true) := by
  unfold definitions
  dsimp only
  split
  next unbuilt =>
    refine .misused fun all => ?_
    obtain ⟨e, he, unbuildable⟩ := List.any_eq_true.mp unbuilt
    simp [all e he] at unbuildable
  next built =>
    have all : ∀ e ∈ merge types traits, isBuildable r e.1 e.2 = true := by simpa using built
    split
    · exact .error rfl _
    · exact (Needs.ok _).congr (iff_of_true trivial all)

/-- Whether a method can be named after what a display name is, or need not be. -/
def Action.IsNameable (a : Action) : Prop :=
  a.displayName.text?.isSome = true ∨ a.displayName.isTruthy = false

theorem Action.isNameable_iff {a : Action} :
    a.IsNameable ↔ ∃ name, Naming.methodName a = .ok name := by
  unfold IsNameable Naming.methodName
  split
  next s given =>
    refine iff_of_true (.inl (by simp [given, Value.text?])) ?_
    split <;> exact ⟨_, rfl⟩
  next other =>
    have none : a.displayName.text?.isSome = false := by
      cases given : a.displayName with
      | str s => exact absurd given (other s)
      | _ => rfl
    cases a.displayName.isTruthy <;> simp [none, misused]

namespace Emission

variable {l : Language} {s : Settings} {e : Emitter} {index : Index} {actions : List Action}
  {definitions : List Definition}

/-- Whether a value can be part of the name of a package. -/
def Spells : Language → Value → Prop
  | .javascript, v => v.isWritable = true
  | .php, v => v.text?.isSome = true

/-- Whether settings give what the files of a package need of them. -/
structure Settings.Serve (l : Language) (s : Settings) : Prop where
  apiName : s.apiName.text?.isSome = true
  /-- A vendor is part of every namespace, and of the name of a package that has none. -/
  vendor : l = .php ∨ (s.package.isTruthy = false ∧ s.vendor.isTruthy = true) → Spells l s.vendor
  package : s.package.isTruthy = true → Spells l s.package
  common : s.common.isTruthy = true → s.common.isWritable = true
  version : s.version.isWritable = true
  /-- Only packages of one language have a file with the base address. -/
  baseUrl : l = .php → (s.baseUrl.orElse (.str "")).text?.isSome = true

/-- An emitter that has what its files need. -/
structure Emitter.IsReady (e : Emitter) : Prop where
  common : e.common.isWritable = true
  space : e.language = .php → ∃ space, e.resolver.namespaceName = .ok space
  support : ∀ index clients, ∃ files, supportFiles e index clients = .ok files

/-- Where the names of a package come from. -/
def Settings.resolver (l : Language) (s : Settings) : Naming.Resolver :=
  ⟨l, s.vendor, s.apiName, s.package⟩

/-- The runtime library of a package. -/
def Settings.library (l : Language) (s : Settings) : Outcome Value :=
  if s.common.isTruthy then .ok s.common else .str <$> (s.resolver l).defaultCommonPackage

theorem Settings.ofSettings_eq_ok : Emitter.ofSettings l s = .ok e ↔ ∃ common,
    s.library l = .ok common ∧
      e = ⟨s.resolver l, common, s.baseUrl.orElse (.str ""), s.version, true⟩ := by
  have steps : Emitter.ofSettings l s = s.library l >>= fun common =>
      .ok ⟨s.resolver l, common, s.baseUrl.orElse (.str ""), s.version, true⟩ := by
    unfold Emitter.ofSettings library
    cases s.common.isTruthy <;> rfl
  rw [steps, bind_eq_ok]
  refine exists_congr fun common => and_congr_right fun _ => ?_
  exact ⟨fun made => (Except.ok.inj made).symm, fun made => congrArg _ made.symm⟩

theorem apiWords_of_text {api : String} (named : s.apiName = .str api) :
    (s.resolver l).apiWords = .ok (Naming.orName (Naming.hyphenated api) "api") := by
  simp [Settings.resolver, Naming.Resolver.apiWords, Naming.nameText, named]

theorem defaultCommonPackage_of_text {vendor : String} (given : s.vendor = .str vendor) :
    (s.resolver .php).defaultCommonPackage = .ok
      (if Naming.titled vendor == "" then "RestClientCommon"
        else Naming.titled vendor ++ "\\Component\\RestClientCommon") := by
  simp [Settings.resolver, Naming.Resolver.defaultCommonPackage, Naming.nameText, given]

section Serve

variable (serve : s.Serve l)
include serve

theorem Settings.Serve.exists_library :
    ∃ common, s.library l = .ok common ∧ common.isWritable = true := by
  unfold library
  cases chosen : s.common.isTruthy with
  | true => exact ⟨s.common, rfl, serve.common chosen⟩
  | false =>
      cases l with
      | javascript => exact ⟨_, rfl, rfl⟩
      | php =>
          obtain ⟨vendor, named⟩ := Value.exists_text (serve.vendor (.inl rfl))
          rw [defaultCommonPackage_of_text named]
          exact ⟨_, rfl, rfl⟩

/-- A package that the settings do not name gets a name that is a text. -/
theorem Settings.Serve.exists_packageName (unnamed : s.package.isTruthy = false) :
    ∃ name, (s.resolver l).packageName = .ok (.str name) := by
  obtain ⟨api, apiName⟩ := Value.exists_text serve.apiName
  simp only [Naming.Resolver.packageName, apiWords_of_text apiName, ok_bind]
  cases l with
  | javascript =>
      cases given : s.vendor.isTruthy with
      | false => simp [resolver, unnamed, given]
      | true =>
          obtain ⟨vendor, spelled⟩ := written_eq_ok.mpr (serve.vendor (.inr ⟨unnamed, given⟩))
          simp [resolver, unnamed, given, spelled]
  | php =>
      obtain ⟨vendor, named⟩ := Value.exists_text (serve.vendor (.inl rfl))
      simp [resolver, unnamed, named, Naming.nameText]

/-- A package gets a name that can be part of its files. -/
theorem Settings.Serve.exists_spelled :
    ∃ name, (s.resolver l).packageName = .ok name ∧ Spells l name := by
  cases chosen : s.package.isTruthy with
  | true =>
      exact ⟨s.package, by simp [Naming.Resolver.packageName, resolver, chosen],
        serve.package chosen⟩
  | false =>
      obtain ⟨name, named⟩ := serve.exists_packageName chosen
      refine ⟨.str name, named, ?_⟩
      cases l <;> rfl

/-- Settings that serve give an emitter that has what its files need. -/
theorem Settings.Serve.isReady {common : Value} (writable : common.isWritable = true)
    (namesClients : Bool) : Emitter.IsReady
      ⟨s.resolver l, common, s.baseUrl.orElse (.str ""), s.version, namesClients⟩ := by
  obtain ⟨name, named, spelled⟩ := serve.exists_spelled
  cases l with
  | javascript =>
      refine ⟨writable, nofun, fun index clients => ?_⟩
      have short : name.isWritable = true := spelled
      have all : needWritable [name, s.version, common] = .ok () :=
        needWritable_eq_ok.mpr (by simp [Value.areWritable, short, serve.version, writable])
      have language : (s.resolver .javascript).language = .javascript := rfl
      simp [supportFiles, Emitter.language, language, named, all]
  | php =>
      obtain ⟨name, rfl⟩ := Value.exists_text spelled
      have space : ∃ space, (s.resolver .php).namespaceName = .ok space := by
        obtain ⟨api, apiName⟩ := Value.exists_text serve.apiName
        obtain ⟨vendor, vendorName⟩ := Value.exists_text (serve.vendor (.inl rfl))
        simp [Naming.Resolver.namespaceName, Naming.nameText, resolver, apiName, vendorName]
      refine ⟨writable, fun _ => space, fun index clients => ?_⟩
      obtain ⟨space, spaced⟩ := space
      obtain ⟨address, addressed⟩ := Value.exists_text (serve.baseUrl rfl)
      obtain ⟨library, common⟩ := written_eq_ok.mpr writable
      obtain ⟨version, versioned⟩ := written_eq_ok.mpr serve.version
      have language : (s.resolver .php).language = .php := rfl
      simp [supportFiles, Emitter.language, language, named, spaced, addressed, common,
        versioned, packageVendor, addressText]

end Serve

theorem text_of_nameText {v : Value} {t : String} (h : Naming.nameText v = .ok t) :
    v.text?.isSome = true := by
  cases v with
  | str s => rfl
  | _ => cases h

theorem name_of_packageName {r : Naming.Resolver} {name : Value}
    (truthy : r.package.isTruthy = true) (h : r.packageName = .ok name) : name = r.package := by
  rw [Naming.Resolver.packageName, if_pos truthy] at h
  exact (Except.ok.inj h).symm

/-- The name of a package that has none is made with the vendor written out. -/
theorem written_of_packageName {r : Naming.Resolver} {name : Value}
    (language : r.language = .javascript) (unnamed : r.package.isTruthy = false)
    (given : r.vendor.isTruthy = true) (h : r.packageName = .ok name) :
    r.vendor.isWritable = true := by
  simp only [Naming.Resolver.packageName, unnamed, language, given, if_true, Bool.false_eq_true,
    if_false] at h
  obtain ⟨words, -, h⟩ := bind_eq_ok.mp h
  obtain ⟨front, spelled, -⟩ := bind_eq_ok.mp h
  cases vendor : written r.vendor with
  | ok text => exact written_eq_ok.mp ⟨text, vendor⟩
  | error f =>
      rw [vendor] at spelled
      cases spelled

theorem text_of_packageVendor {v : Value} {t : String} (h : packageVendor v = .ok t) :
    v.text?.isSome = true := by
  cases v with
  | str s => rfl
  | _ => cases h

theorem text_of_addressText {v : Value} {t : String} (h : addressText v = .ok t) :
    v.text?.isSome = true := by
  cases v with
  | str s => rfl
  | _ => cases h

/-- Settings that give the files of a package serve, if the interface is named by a text. -/
theorem Settings.serve_of_files {common : Value} {namesClients : Bool} {clients : List String}
    {files : List (String × SourceFile)} (library : s.library l = .ok common)
    (apiName : s.apiName.text?.isSome = true)
    (made : supportFiles ⟨s.resolver l, common, s.baseUrl.orElse (.str ""), s.version,
      namesClients⟩ index clients = .ok files) : s.Serve l := by
  have chosen (truthy : s.common.isTruthy = true) : common = s.common := by
    rw [Settings.library, if_pos truthy] at library
    exact (Except.ok.inj library).symm
  cases l with
  | javascript =>
      obtain ⟨name, named, made⟩ := bind_eq_ok.mp made
      obtain ⟨⟨⟩, all, -⟩ := bind_eq_ok.mp made
      have all := needWritable_eq_ok.mp all
      simp only [Value.areWritable, Bool.and_true, Bool.and_eq_true] at all
      obtain ⟨short, version, writable⟩ := all
      refine ⟨apiName, ?_, fun truthy => ?_, fun truthy => ?_, version, ?_⟩
      · rintro (⟨⟨⟩⟩ | ⟨unnamed, given⟩)
        exact written_of_packageName (r := s.resolver .javascript) rfl unnamed given named
      · have same : name = s.package :=
          name_of_packageName (r := s.resolver .javascript) truthy named
        exact same ▸ short
      · exact chosen truthy ▸ writable
      · rintro ⟨⟩
  | php =>
      obtain ⟨space, spaced, made⟩ := bind_eq_ok.mp made
      obtain ⟨name, named, made⟩ := bind_eq_ok.mp made
      obtain ⟨owner, owned, made⟩ := bind_eq_ok.mp made
      obtain ⟨shared, common, made⟩ := bind_eq_ok.mp made
      obtain ⟨address, addressed, made⟩ := bind_eq_ok.mp made
      obtain ⟨version, versioned, -⟩ := bind_eq_ok.mp made
      obtain ⟨vendor, vendorName, -⟩ := bind_eq_ok.mp spaced
      refine ⟨apiName, fun _ => text_of_nameText vendorName, fun truthy => ?_, fun truthy => ?_,
        written_eq_ok.mp ⟨_, versioned⟩, fun _ => text_of_addressText addressed⟩
      · have same : name = s.package := name_of_packageName (r := s.resolver .php) truthy named
        exact same ▸ text_of_packageVendor owned
      · exact chosen truthy ▸ written_eq_ok.mp ⟨_, common⟩

section Ready

variable (ready : e.IsReady)
include ready

/-- The file of a definition that has a view is rendered. -/
theorem exists_entitySource {d : Definition}
    (viewed : ∃ v, entityView e.language index d = .ok v) :
    ∃ file, entitySource e index d = .ok file := by
  obtain ⟨v, viewed⟩ := viewed
  have library (needed : Prop) [Decidable needed] :
      needWritable (if needed then [e.common] else []) = .ok () := by
    split
    · exact needWritable_eq_ok.mpr (by simp [Value.areWritable, ready.common])
    · rfl
  cases language : e.language with
  | javascript =>
      rw [language] at viewed
      simp [entitySource, language, viewed, library]
  | php =>
      obtain ⟨space, named⟩ := ready.space language
      rw [language] at viewed
      simp [entitySource, language, viewed, named, library]

omit ready in
/-- Actions that have views are named apart in order. -/
theorem exists_methodViews
    (each : ∀ a ∈ actions, ∃ v, actionView l index a = .ok v ∧ v.reply.lacksKey = false)
    (taken : Taken) : ∃ methods, methodViews l index taken actions = .ok methods ∧
      ∀ m ∈ methods, m.reply.lacksKey = false := by
  induction actions generalizing taken with
  | nil => exact ⟨[], rfl, List.forall_mem_nil _⟩
  | cons a rest ih =>
      obtain ⟨v, viewed, keyed⟩ := each a List.mem_cons_self
      obtain ⟨methods, others, rest⟩ := ih (fun b hb => each b (List.mem_cons_of_mem _ hb))
        (uniqueName v.name a.pathParameters taken).2
      refine ⟨{ v with name := (uniqueName v.name a.pathParameters taken).1 } :: methods, ?_,
        List.forall_mem_cons.mpr ⟨keyed, rest⟩⟩
      simp [methodViews, viewed, others]

/-- The file of a client whose actions have views is rendered. -/
theorem exists_clientSource (client : String)
    (each : ∀ a ∈ actions, ∃ v, actionView e.language index a = .ok v ∧
      v.reply.lacksKey = false) : ∃ file, clientSource e index client actions = .ok file := by
  obtain ⟨methods, viewed, keyed⟩ := exists_methodViews each []
  have complete : ¬ ∃ m, m ∈ methods ∧ m.reply.lacksKey = true := by
    rintro ⟨m, hm, lacks⟩
    simp [keyed m hm] at lacks
  obtain ⟨library, common⟩ := written_eq_ok.mpr ready.common
  cases language : e.language with
  | javascript =>
      rw [language] at viewed
      simp [clientSource, clientView, language, viewed, common, complete]
  | php =>
      obtain ⟨space, named⟩ := ready.space language
      rw [language] at viewed
      simp [clientSource, clientView, language, viewed, named, common, complete]

/-- Rendering fails only with a report where the emitter has what it needs and every action
can be named. -/
theorem misusesNothing_render (definitionsWell : ∀ d ∈ definitions, d.WellFormed)
    (actionsWell : ∀ a ∈ actions, a.WellFormed) (named : actions = [] ∨ e.namesClients = true)
    (nameable : ∀ a ∈ actions, a.IsNameable) : MisusesNothing (render e definitions actions) := by
  cases checked : dangling? definitions actions with
  | some r =>
      rw [render, checkReferences, checked]
      refine Avoids.error_iff.mpr ?_
      rintro ⟨cause, ⟨⟩⟩
  | none =>
      have quiet := (dangling?_eq_none_iff definitionsWell actionsWell).mp checked
      have keys : ∀ d ∈ definitions, d.kind = .result → d.itemsKey.isSome :=
        fun d hd => (definitionsWell d hd).itemsKey
      have viewed : ∀ a ∈ actions, ∃ v, actionView e.language definitions a = .ok v ∧
          v.reply.lacksKey = false := by
        intro a ha
        obtain ⟨body, requested⟩ := exists_requestView (l := e.language) (actionsWell a ha)
          fun r hr => resolves_request quiet ha hr
        obtain ⟨answer, answered, keyed⟩ := exists_responseView (l := e.language)
          (actionsWell a ha) keys fun r hr => resolves_response quiet ha hr
        obtain ⟨name, called⟩ := Action.isNameable_iff.mp (nameable a ha)
        simp only [actionView_eq, requested, answered, called, ok_bind]
        exact ⟨_, rfl, keyed⟩
      refine avoids_render (fun _ => Failure.not_isMisuse_emission _) checked (fun d hd => ?_)
        (named.imp_right .inl) (fun g hg => ?_) fun names => ?_
      · obtain ⟨file, rendered⟩ := exists_entitySource ready
          (exists_entityView (definitionsWell d hd) (fun p hp => resolves_property quiet hd hp)
            fun r hr => resolves_item quiet hd hr)
        exact rendered ▸ Avoids.ok _
      · obtain ⟨file, rendered⟩ := exists_clientSource ready g.1 fun a ha =>
          viewed a (mem_groupByClient hg ha).1
        exact rendered ▸ Avoids.ok _
      · obtain ⟨files, made⟩ := ready.support definitions names
        exact made ▸ Avoids.ok _

end Ready

end Emission

end ClientForge
