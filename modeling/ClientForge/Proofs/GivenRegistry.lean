import ClientForge.Proofs.Replacement

/-!
# The registry that is given

A run may be given a registry. What it builds, or why it refuses to, is then a matter
of dispatch over that registry, which takes no more builders afterwards. This holds for
every registry that has an entry. An empty one counts as none: the run dispatches over
the standard builders, and the registry that was given stays as it was.
-/

namespace ClientForge.Generation

open ClientForge.Outcome

variable {c : Configuration} {given : Option Registry} {r : Registry} {s : Specification}
  {product : Product} {w w' : Workspace} {f : Failure}

theorem registryFor_of_nonempty (nonempty : r.entries ≠ []) : registryFor (some r) = r := by
  rw [registryFor, if_neg (by simpa using nonempty)]

theorem frozen_registryAfter (nonempty : r.entries ≠ []) : (registryAfter r).frozen = true := by
  rw [registryAfter, if_neg (by simpa using nonempty)]
  rfl

/-- An empty registry is as good as none, and is left alone. -/
theorem ofSpecification_of_empty (none : r.entries = []) (c : Configuration) (s : Specification) :
    ofSpecification c (some r) s = ofSpecification c .none s ∧ registryAfter r = r := by
  rw [registryAfter, if_pos (by simpa using none)]
  have same : registryFor (some r) = registryFor .none := by
    rw [registryFor, if_pos (by simpa using none), registryFor]
  exact ⟨by rw [ofSpecification, ofSpecification, same], rfl⟩

/-- What a run returns was built by dispatch over its registry. -/
theorem definitions_of_run
    (returned : (ofSpecification c given s).outcome w = (.ok product, w')) :
    Catalog.definitions (registryFor given) c.policy s.types s.traits =
      .ok product.definitions := by
  obtain ⟨p, written, fingerprint, planned, -, -, rfl⟩ := ofSpecification_eq_ok.mp returned
  obtain ⟨definitions, e, tree, target, built, -, -, -, rfl⟩ := plan_eq_ok.mp planned
  exact built

/-- What that dispatch refuses ends the run, before the store is touched. -/
theorem refused_of_definitions
    (refused : Catalog.definitions (registryFor given) c.policy s.types s.traits = .error f)
    (w : Workspace) :
    (ofSpecification c given s).outcome w = (.error f, started c given s w) := by
  refine ofSpecification_eq_error.mpr (.inl ⟨?_, rfl⟩)
  rw [plan, refused]
  rfl

/-- What a run owes to the registry that it is given: it returns what dispatch over the
registry builds, fails as that dispatch fails, and leaves the registry frozen. -/
structure Heeds (c : Configuration) (r : Registry) (s : Specification) : Prop where
  definitions : ∀ w product w', (ofSpecification c (some r) s).outcome w = (.ok product, w') →
    Catalog.definitions r c.policy s.types s.traits = .ok product.definitions
  refusals : ∀ w f, Catalog.definitions r c.policy s.types s.traits = .error f →
    ∃ w', (ofSpecification c (some r) s).outcome w = (.error f, w')
  frozen : (registryAfter r).frozen = true

/-- A document that declares one type. -/
def moneyShop : Specification :=
  ⟨"Shop", [("Money", .map [(.str "type", .str "object")])], [], [], .null, none⟩

/-- The standard builders take the type, also where unknown shapes are refused. -/
theorem exists_run_moneyShop : ∃ product w',
    (ofSpecification { Configuration.default with policy := .refuse } none moneyShop).outcome
      ⟨⟨[], []⟩, []⟩ = (.ok product, w') := by
  have succeeds : ((ofSpecification { Configuration.default with policy := .refuse } none
      moneyShop).outcome ⟨⟨[], []⟩, []⟩).1.isOk = true := by
    decide +kernel
  rcases ended : (ofSpecification { Configuration.default with policy := .refuse } none
      moneyShop).outcome ⟨⟨[], []⟩, []⟩ with ⟨f | product, w'⟩
  · rw [ended] at succeeds
    cases succeeds
  · exact ⟨product, w', rfl⟩

/-- No builder of an empty registry takes it. -/
theorem definitions_moneyShop (none : r.entries = []) :
    Catalog.definitions r .refuse moneyShop.types moneyShop.traits =
      .error (.unrecognized ["Money"]) := by
  obtain ⟨entries, frozen⟩ := r
  obtain rfl := none
  rfl

/-- A registry is heeded, whatever the document and the settings, if it has an entry, and
only then. -/
theorem heeds_iff (r : Registry) : (∀ c s, Heeds c r s) ↔ r.entries ≠ [] := by
  constructor
  · intro heeds none
    obtain ⟨product, w', returned⟩ := exists_run_moneyShop
    rw [← (ofSpecification_of_empty none _ _).1] at returned
    have built := (heeds _ moneyShop).definitions _ _ _ returned
    rw [definitions_moneyShop none] at built
    cases built
  · intro nonempty c s
    have used := registryFor_of_nonempty nonempty
    refine ⟨?_, ?_, frozen_registryAfter nonempty⟩
    · intro w product w' returned
      exact used ▸ definitions_of_run returned
    · intro w f refused
      exact ⟨_, refused_of_definitions (used.symm ▸ refused) w⟩

/-- A run that refuses unknown shapes is given a registry without builders. Dispatch over
it refuses the only type of the document, yet the run returns, and the registry can still
be changed. -/
theorem empty_registry_unheeded : ∃ product w',
    (ofSpecification { Configuration.default with policy := .refuse } (some .empty)
      moneyShop).outcome ⟨⟨[], []⟩, []⟩ = (.ok product, w') ∧
    Catalog.definitions .empty .refuse moneyShop.types moneyShop.traits =
      .error (.unrecognized ["Money"]) ∧
    (registryAfter .empty).frozen = false := by
  obtain ⟨product, w', returned⟩ := exists_run_moneyShop
  exact ⟨product, w', (ofSpecification_of_empty (r := .empty) rfl _ _).1.symm ▸ returned,
    definitions_moneyShop rfl, rfl⟩

end ClientForge.Generation
