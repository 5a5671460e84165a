import ClientForge.Proofs.Accessors
import ClientForge.Proofs.Words

/-!
# Methods of the runtime library

Generated code works on entities through three methods of their common base: it reads a value
under a key, it writes one, and it takes the raw data out of an entity. A class that has an
accessor of one of these names has it in place of the method of the base. A property without
any word has accessors with nothing behind `get` and `set`, and the one that reads it calls
itself; a property whose only word is `data` has a reading accessor of the name under which
all others ask for raw data. No other property is in the way.
-/

namespace ClientForge.Emission

open ClientForge.Naming ClientForge.Text

variable {name : String} {r : Reference} {m : String}

/-! ## Calls of generated code -/

/-- The methods of entities that an expression calls. -/
def Code.calls : Code → List String
  | argument _ => []
  | data => []
  | item => []
  | stored _ => ["get"]
  | orEmpty c => c.calls
  | dateOf c => c.calls
  | dateText c => c.calls
  | construct _ c _ => c.calls
  | rawOf c => "getData" :: c.calls
  | ifPresent t c => t.calls ++ c.calls
  | mapped l b _ => l.calls ++ b.calls

/-- The methods of entities that the body of a method calls. -/
def Body.calls : Body → List String
  | give c => c.calls
  | bindThenGive s c => s.calls ++ c.calls
  | store _ c => "set" :: c.calls

/-- A method of entities that generated code calls: in an accessor, where the items of a result
are made, or where a client makes its reply. -/
inductive IsCalled (m : String) : Prop
  | reading (key : String) (c : Conversion) (h : m ∈ (Body.reading key c).calls)
  | writing (key argument : String) (c : Conversion) (h : m ∈ (Body.writing key argument c).calls)
  | creating (l : Language) (c : Conversion) (h : m ∈ (Body.creating l c).calls)
  | reply (reply : Reply) (c : Code) (given : reply.code? = some c) (h : m ∈ c.calls)

/-- Every accessor that reads calls the method that reads. -/
theorem calls_reading (key : String) (c : Conversion) : (Body.reading key c).calls = ["get"] := by
  cases c <;> rfl

theorem calls_creating (l : Language) (c : Conversion) : (Body.creating l c).calls = [] := by
  cases l <;> cases c <;> rfl

theorem calls_writing (key argument : String) (c : Conversion) :
    (Body.writing key argument c).calls = "set" :: if c.wraps then ["getData"] else [] := by
  cases c <;> rfl

theorem calls_reply {reply : Reply} {c : Code} (given : reply.code? = some c) : c.calls = [] := by
  cases reply with
  | nothing => cases given
  | data => cases given
  | entity => obtain rfl := Option.some.inj given; rfl
  | entities => obtain rfl := Option.some.inj given; rfl
  | result => obtain rfl := Option.some.inj given; rfl

/-- Generated code calls three methods of entities. -/
theorem isCalled_iff : IsCalled m ↔ m ∈ ["get", "set", "getData"] := by
  constructor
  · intro called
    cases called with
    | reading key c h =>
        rw [calls_reading] at h
        simp_all
    | writing key argument c h =>
        rw [calls_writing] at h
        split at h <;> simp_all
    | creating l c h =>
        rw [calls_creating] at h
        cases h
    | reply reply c given h =>
        rw [calls_reply given] at h
        cases h
  · simp only [List.mem_cons, List.not_mem_nil, or_false]
    rintro (rfl | rfl | rfl)
    · exact .reading "" .plain List.mem_cons_self
    · exact .writing "" "" .plain List.mem_cons_self
    · exact .writing "" "" (.entity "") (by decide)

/-! ## Accessors in their way -/

theorem isCalled_setter_iff : IsCalled (setter name) ↔ pascal name = "" := by
  have bare : setter name = "set" ↔ pascal name = "" :=
    ⟨fun same => (String.append_right_inj "set").mp same, fun none_ => by rw [setter, none_]; rfl⟩
  have other (reader : String) (h : reader.toList.head? = some 'g') : setter name ≠ reader := by
    rintro rfl
    simp [setter] at h
  simp [isCalled_iff, bare, other "get" rfl, other "getData" rfl]

theorem isCalled_getter_iff : IsCalled (getter name r) ↔
    isBoolean r = false ∧ (pascal name = "" ∨ pascal name = "Data") := by
  cases boolean : isBoolean r with
  | true =>
      have other (method : String) (h : method.toList.head? ≠ some 'i') :
          getter name r ≠ method := by
        rintro rfl
        simp [getter, boolean] at h
      simp [isCalled_iff, other "get" (by decide), other "set" (by decide),
        other "getData" (by decide)]
  | false =>
      have reads : getter name r = "get" ++ pascal name := by
        rw [getter, boolean]
        rfl
      have bare : "get" ++ pascal name = "get" ↔ pascal name = "" :=
        ⟨fun same => (String.append_right_inj "get").mp same, fun none_ => by rw [none_]; rfl⟩
      have data : "get" ++ pascal name = "getData" ↔ pascal name = "Data" :=
        ⟨fun same => (String.append_right_inj "get").mp same, fun word => by rw [word]; rfl⟩
      have other : "get" ++ pascal name ≠ "set" := fun same =>
        getter_ne_setter name "" r (reads.trans same)
      rw [isCalled_iff, reads]
      simp [bare, data, other]

theorem pascal_eq_data_iff : pascal name = "Data" ↔
    StandsAlone "Data".toList name.toList ∨ StandsAlone "data".toList name.toList := by
  have letters : "Data" = String.ofList ['D', 'a', 't', 'a'] := by decide
  have small_ : "data".toList = small 'D' :: ['a', 't', 'a'] := by decide
  rw [small_, letters, String.toList_ofList]
  exact pascal_eq_iff name (by decide) (by simp [isAsciiLower])

/-- An accessor of a property is called by generated code exactly if the name of the property
consists of separators, or if it is no boolean and its only word is `data`, with a capital or
without. The methods that are called are `get`, `set` and `getData`. -/
theorem isCalled_accessor_iff (p : Property) :
    ((∃ m ∈ p.accessors, IsCalled m) ↔
      AreSeparators p.name.toList ∨ isBoolean p.reference = false ∧
        (StandsAlone "Data".toList p.name.toList ∨ StandsAlone "data".toList p.name.toList)) ∧
    ∀ m, IsCalled m ↔ m ∈ ["get", "set", "getData"] := by
  refine ⟨?_, fun _ => isCalled_iff⟩
  have either : (∃ m ∈ p.accessors, IsCalled m) ↔
      IsCalled (getter p.name p.reference) ∨ IsCalled (setter p.name) := by
    simp [Property.accessors]
  rw [either, isCalled_getter_iff, isCalled_setter_iff, pascal_eq_empty_iff, pascal_eq_data_iff]
  constructor
  · rintro (⟨reads, none_ | alone⟩ | none_)
    · exact .inl none_
    · exact .inr ⟨reads, alone⟩
    · exact .inl none_
  · rintro (none_ | ⟨reads, alone⟩)
    · exact .inr none_
    · exact .inl ⟨reads, .inr alone⟩

/-- The accessors of a name without words are the methods that they call, and the value of a
property named `data` is read where raw data is asked for. -/
theorem accessors_called :
    (Property.mk "-" "string" (.scalar .string) false none).accessors = ["get", "set"] ∧
    (Body.reading "-" .plain).calls = ["get"] ∧
    (Body.writing "-" "value" .plain).calls = ["set"] ∧
    (Property.mk "data" "string" (.scalar .string) false none).accessors =
      ["getData", "setData"] ∧
    (Body.writing "owner" "owner" (.entity "Client")).calls = ["set", "getData"] := by
  decide

end ClientForge.Emission
