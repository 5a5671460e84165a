import ClientForge.Registry

/-!
# Dispatch in a registry

Dispatch walks the entries and stops at the first builder that supports a declaration.
In a registry whose positions ascend that is the supporting builder of lowest position.
The standard registry is one of these, and each of its builders names what it gives
after the declaration.
-/

namespace ClientForge.Registry

open ClientForge.Builder

variable {r : Registry} {p : Placed} {name : String} {declaration : Value} {d : Definition}

/-- The positions of a registry ascend strictly. -/
def Ascending (r : Registry) : Prop :=
  r.entries.Pairwise fun a b => a.position.less? b.position = some true

/-- A declaration goes to a builder if that supports it and none before it does, so that in
an ascending registry every other supporting one stands at a higher position; it goes to
none if none supports it. -/
def Gives (r : Registry) (name : String) (declaration : Value) : Option Builder → Prop
  | some b => ∃ before p after, r.entries = before ++ p :: after ∧ p.builder = b ∧
      b.supports name declaration = true ∧
      (∀ q ∈ before, q.builder.supports name declaration = false) ∧
      (r.Ascending → ∀ q ∈ r.entries, q.builder.supports name declaration = true →
        q = p ∨ p.position.less? q.position = some true)
  | none => ∀ p ∈ r.entries, p.builder.supports name declaration = false

/-- Dispatch gives a declaration to the first builder that supports it. -/
theorem gives_firstMatch (r : Registry) (name : String) (declaration : Value) :
    r.Gives name declaration (r.firstMatch name declaration) := by
  rw [firstMatch]
  cases found : r.entries.find? fun e => e.builder.supports name declaration with
  | none =>
      intro p hp
      simpa using List.find?_eq_none.mp found p hp
  | some p =>
      obtain ⟨supports, before, after, entries, refuse⟩ := List.find?_eq_some_iff_append.mp found
      have earlier : ∀ q ∈ before, q.builder.supports name declaration = false := by
        intro q hq
        simpa using refuse q hq
      refine ⟨before, p, after, entries, rfl, supports, earlier, ?_⟩
      intro ascending q hq supportsToo
      rw [entries, List.mem_append, List.mem_cons] at hq
      rcases hq with hq | rfl | hq
      · exact absurd supportsToo (by simp [earlier q hq])
      · exact .inl rfl
      · rw [Ascending, entries, List.pairwise_append, List.pairwise_cons] at ascending
        exact .inr (ascending.2.1.1 q hq)

/-- The builder that dispatch finds stands in the registry and supports the declaration. -/
theorem firstMatch_eq_some {b : Builder} (h : r.firstMatch name declaration = some b) :
    ∃ p ∈ r.entries, p.builder = b ∧ b.supports name declaration = true := by
  obtain ⟨p, found, rfl⟩ := Option.map_eq_some_iff.mp h
  exact ⟨p, List.mem_of_find?_eq_some found, rfl, by simpa using List.find?_some found⟩

theorem mem_standard : p ∈ standard.entries ↔
    p = ⟨.int 100, filter⟩ ∨ p = ⟨.int 200, result⟩ ∨ p = ⟨.int 300, enumeration⟩ ∨
      p = ⟨.int 400, trait⟩ ∨ p = ⟨.int 500, object⟩ := by
  simp [standard]

/-- A standard builder names its definition after the declaration. -/
theorem name_of_standard (hp : p ∈ standard.entries)
    (h : p.builder.build name declaration = some d) : d.name = name := by
  rcases mem_standard.mp hp with rfl | rfl | rfl | rfl | rfl
  · obtain rfl := Option.some.inj h
    rfl
  · obtain ⟨items, -, made⟩ := Option.bind_eq_some_iff.mp h
    obtain rfl := Option.some.inj made
    rfl
  · obtain rfl := Option.some.inj h
    rfl
  · cases h
  · obtain rfl := Option.some.inj h
    rfl

end ClientForge.Registry
