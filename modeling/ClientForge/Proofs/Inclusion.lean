import ClientForge.Loading
import ClientForge.Proofs.FileAccess
import ClientForge.Proofs.Misuse

/-!
# Documents within documents

A document is given as a value that may be put together from several texts: its own and
those of the documents that it includes. It trips if one of these texts cannot be taken
for what it is, so that no report is made: the bytes are no text, the path is none, two
addresses cannot be joined, a scalar is beyond its kind, or the documents lead back to
themselves. Everything else that goes wrong while documents are read is reported.
-/

namespace ClientForge

open ClientForge.Outcome

namespace Logged

variable {α β : Type} {x : Logged α} {g : α → Logged β}

/-- What a computation gives, its records aside. -/
def outcome (x : Logged α) : Outcome α := (x.run.run []).1

/-- A computation whose outcome does not depend on the records before it. -/
def Steady (x : Logged α) : Prop := ∀ before, (x.run.run before).1 = x.outcome

theorem run_bind (x : Logged α) (g : α → Logged β) (before : List Record) :
    (x >>= g).run.run before =
      match x.run.run before with
      | (.ok a, after) => (g a).run.run after
      | (.error f, after) => (.error f, after) := by
  change ExceptT.bindCont g (x.run.run before).1 (x.run.run before).2 = _
  rcases x.run.run before with ⟨_ | _, _⟩ <;> rfl

theorem outcome_bind (rest : ∀ a, (g a).Steady) :
    (x >>= g).outcome = x.outcome >>= fun a => (g a).outcome := by
  rw [outcome, run_bind, outcome]
  rcases x.run.run [] with ⟨_ | a, after⟩
  · rfl
  · exact rest a after

namespace Steady

theorem bind (first : x.Steady) (rest : ∀ a, (g a).Steady) : (x >>= g).Steady := by
  intro before
  rw [outcome_bind rest, run_bind, ← first before]
  rcases x.run.run before with ⟨_ | a, after⟩
  · rfl
  · exact rest a after

theorem pure (a : α) : (pure a : Logged α).Steady := fun _ => rfl

theorem throw (f : Failure) : (throw f : Logged α).Steady := fun _ => rfl

theorem tell (r : Record) : (Logged.tell r).Steady := fun _ => rfl

theorem ofOutcome (o : Outcome α) : (Loading.ofOutcome o).Steady := fun _ => rfl

end Steady

@[simp] theorem outcome_pure (a : α) : (pure a : Logged α).outcome = .ok a := rfl

@[simp] theorem outcome_throw (f : Failure) : (throw f : Logged α).outcome = .error f := rfl

@[simp] theorem outcome_tell (r : Record) : (tell r).outcome = .ok () := rfl

@[simp] theorem outcome_ofOutcome (o : Outcome α) : (Loading.ofOutcome o).outcome = o := rfl

end Logged

namespace FileStore

variable {fs : FileStore} {p : FilePath}

theorem read_of_isBarred (barred : p.isBarred = true) :
    fs.read p = .error ⟨.misuse p.barring, p.quoted⟩ := by
  simp [read, at?, locate_of_isBarred barred, Except.map]

theorem misuse?_of_read {fault : AccessFault} (clean : p.isBarred = false)
    (h : fs.read p = .error fault) : fault.error.misuse? = none := by
  rw [read, at?] at h
  cases located : fs.locate p with
  | ok at_ =>
      rw [located, Except.map] at h
      cases there : fs.node? at_ with
      | none =>
          rw [there] at h
          obtain rfl := Except.error.inj h
          rfl
      | some node =>
          rw [there] at h
          cases node with
          | folder =>
              obtain rfl := Except.error.inj h
              rfl
          | file content => cases h
  | error e =>
      rw [located] at h
      obtain rfl := Except.error.inj h
      exact misuse?_of_locate clean located

end FileStore

namespace Loading

variable {shelf : Shelf} {depth : Nat} {location reference target : String}

theorem steady_text (shelf : Shelf) (location : String) : (text shelf location).Steady := by
  unfold text
  split
  · exact .bind (.tell _) fun _ => .ofOutcome _
  · exact .ofOutcome _

theorem outcome_text (shelf : Shelf) (location : String) :
    (text shelf location).outcome =
      if WebAddress.isFetchable location then pageText shelf.web location
      else fileText shelf.store location := by
  unfold text
  split <;> rfl

/-- What stands in the place of a reference in the document at a location. -/
def answer (shelf : Shelf) (depth : Nat) (location reference : String) : Logged Value := do
  let target ← ofOutcome (resolve location reference)
  if isStructured target then value shelf depth target
  else do
    let s ← text shelf target
    pure (.str s)

/-- Carry the reading of the document at a location through. -/
def follow (shelf : Shelf) (depth : Nat) (location : String) (r : Yaml.Reading Value) :
    Logged Value :=
  r.run (answer shelf depth location) fun fault => throw (failureOf location fault)

theorem value_succ : value shelf (depth + 1) location =
    text shelf location >>= fun s => follow shelf depth location (Yaml.read s) := rfl

theorem follow_ask (next : Value → Yaml.Reading Value) :
    follow shelf depth location (.ask reference next) =
      answer shelf depth location reference >>= fun v => follow shelf depth location (next v) :=
  rfl

theorem steady_answer (inner : ∀ target, (value shelf depth target).Steady) :
    (answer shelf depth location reference).Steady := by
  refine .bind (.ofOutcome _) fun target => ?_
  split
  · exact inner target
  · exact .bind (steady_text shelf target) fun _ => .pure _

theorem steady_follow (inner : ∀ target, (value shelf depth target).Steady)
    (r : Yaml.Reading Value) : (follow shelf depth location r).Steady := by
  induction r with
  | done v => exact .pure v
  | failed fault => exact .throw _
  | ask reference next ih => exact .bind (steady_answer inner) ih

theorem steady_value (shelf : Shelf) (depth : Nat) (location : String) :
    (value shelf depth location).Steady := by
  induction depth generalizing location with
  | zero => exact .throw _
  | succ depth ih =>
      rw [value_succ]
      exact .bind (steady_text shelf location) fun s => steady_follow ih _

/-- Whether what lies at a location cannot be taken as text: no file can lie there, or the
bytes of the file are no text. -/
def IsIllegible (shelf : Shelf) (location : String) : Prop :=
  WebAddress.isFetchable location = false ∧
    ((FilePath.ofText location).isBarred = true ∨
      ∃ content, shelf.store.read (.ofText location) = .ok content ∧
        String.fromUTF8? content = none)

mutual

/-- A document that cannot be taken as a value, with documents nested at most so deep. -/
inductive Trips (shelf : Shelf) : Nat → String → Prop
  /-- Documents are nested deeper than there are any. -/
  | endless (location : String) : Trips shelf 0 location
  | illegible {depth : Nat} {location : String} (h : IsIllegible shelf location) :
      Trips shelf (depth + 1) location
  | reading {depth : Nat} {location s : String} (lies : (text shelf location).outcome = .ok s)
      (stumbles : Stumbles shelf depth location (Yaml.read s)) : Trips shelf (depth + 1) location

/-- A reading of the document at a location that comes upon something that cannot be taken
as a value. -/
inductive Stumbles (shelf : Shelf) : Nat → String → Yaml.Reading Value → Prop
  /-- A scalar is beyond its kind, or a node lies inside itself. -/
  | own {depth : Nat} {location : String} (cause : Misuse) :
      Stumbles shelf depth location (.failed (.misuse cause))
  /-- A reference and the address that it is seen from cannot be joined. -/
  | nowhere {depth : Nat} {location reference : String} {next : Value → Yaml.Reading Value}
      (far : WebAddress.isFetchable location = true)
      (near : WebAddress.isFetchable reference = false)
      (apart : WebAddress.join? location reference = none) :
      Stumbles shelf depth location (.ask reference next)
  | document {depth : Nat} {location reference target : String}
      {next : Value → Yaml.Reading Value}
      (leads : resolve location reference = .ok target) (structured : isStructured target = true)
      (trips : Trips shelf depth target) : Stumbles shelf depth location (.ask reference next)
  | text {depth : Nat} {location reference target : String} {next : Value → Yaml.Reading Value}
      (leads : resolve location reference = .ok target) (plain : isStructured target = false)
      (illegible : IsIllegible shelf target) :
      Stumbles shelf depth location (.ask reference next)
  | later {depth : Nat} {location reference : String} {v : Value}
      {next : Value → Yaml.Reading Value}
      (answered : (answer shelf depth location reference).outcome = .ok v)
      (stumbles : Stumbles shelf depth location (next v)) :
      Stumbles shelf depth location (.ask reference next)

end

theorem not_misuses_pageText (web : Web) (location : String) :
    ¬ Misuses (pageText web location) := by
  unfold pageText
  split
  · split <;> simp
  · simp

theorem misuses_decode_iff {content : ByteArray} :
    Misuses (decode content) ↔ String.fromUTF8? content = none := by
  unfold decode
  cases String.fromUTF8? content <;> simp

theorem misuses_fileText_iff {store : FileStore} :
    Misuses (fileText store location) ↔ (FilePath.ofText location).isBarred = true ∨
      ∃ content, store.read (.ofText location) = .ok content ∧
        String.fromUTF8? content = none := by
  unfold fileText
  cases barred : (FilePath.ofText location).isBarred with
  | true => simp [FileStore.read_of_isBarred barred, AccessError.misuse?]
  | false =>
      cases read : store.read (.ofText location) with
      | ok content => simp [misuses_decode_iff]
      | error fault => simp [FileStore.misuse?_of_read barred read]

/-- A text is misused exactly where it is illegible. -/
theorem misuses_text_iff : Misuses (text shelf location).outcome ↔ IsIllegible shelf location := by
  rw [outcome_text, IsIllegible]
  cases WebAddress.isFetchable location with
  | true => simpa using not_misuses_pageText shelf.web location
  | false => simpa using misuses_fileText_iff

theorem misuses_resolve_iff : Misuses (resolve location reference) ↔
    WebAddress.isFetchable location = true ∧ WebAddress.isFetchable reference = false ∧
      WebAddress.join? location reference = none := by
  unfold resolve
  cases WebAddress.isFetchable reference with
  | true => simp
  | false =>
      cases WebAddress.isFetchable location with
      | false => simp
      | true => cases WebAddress.join? location reference <;> simp

theorem misuses_answer_iff (inner : ∀ target, Trips shelf depth target ↔
      Misuses (value shelf depth target).outcome) :
    Misuses (answer shelf depth location reference).outcome ↔
      Misuses (resolve location reference) ∨ ∃ target, resolve location reference = .ok target ∧
        (isStructured target = true ∧ Trips shelf depth target ∨
          isStructured target = false ∧ IsIllegible shelf target) := by
  rw [answer, Logged.outcome_bind, Logged.outcome_ofOutcome, misuses_bind_iff]
  · refine or_congr_right (exists_congr fun target => and_congr_right fun _ => ?_)
    cases isStructured target with
    | true => simpa using (inner target).symm
    | false =>
        simp only [Bool.false_eq_true, if_false, false_and, true_and, false_or]
        rw [Logged.outcome_bind fun _ => .pure _, misuses_bind_iff, misuses_text_iff]
        simp
  · intro target
    split
    · exact steady_value shelf depth target
    · exact .bind (steady_text shelf target) fun _ => .pure _

theorem stumbles_iff (inner : ∀ target, Trips shelf depth target ↔
      Misuses (value shelf depth target).outcome) (r : Yaml.Reading Value) :
    Stumbles shelf depth location r ↔ Misuses (follow shelf depth location r).outcome := by
  induction r with
  | done v =>
      constructor
      · nofun
      · exact fun misuses => absurd misuses (not_misuses_ok v)
  | failed fault =>
      constructor
      · rintro ⟨cause⟩
        exact misuses_misused
      · rintro ⟨cause, failed⟩
        cases fault with
        | malformed => cases failed
        | misuse cause => exact .own cause
  | ask reference next ih =>
      rw [follow_ask, Logged.outcome_bind fun v => steady_follow (steady_value shelf depth) _,
        misuses_bind_iff, misuses_answer_iff inner, misuses_resolve_iff]
      constructor
      · intro stumbles
        cases stumbles with
        | nowhere far near apart => exact .inl (.inl ⟨far, near, apart⟩)
        | document leads structured trips =>
            exact .inl (.inr ⟨_, leads, .inl ⟨structured, trips⟩⟩)
        | text leads plain illegible =>
            exact .inl (.inr ⟨_, leads, .inr ⟨plain, illegible⟩⟩)
        | later answered stumbles => exact .inr ⟨_, answered, (ih _).mp stumbles⟩
      · rintro ((⟨far, near, apart⟩ | ⟨target, leads, ⟨structured, trips⟩ | ⟨plain, illegible⟩⟩) |
          ⟨v, answered, misuses⟩)
        · exact .nowhere far near apart
        · exact .document leads structured trips
        · exact .text leads plain illegible
        · exact .later answered ((ih v).mpr misuses)

/-- A document trips exactly where a value is misused while it is read. -/
theorem trips_iff (depth : Nat) (location : String) :
    Trips shelf depth location ↔ Misuses (value shelf depth location).outcome := by
  induction depth generalizing location with
  | zero => exact iff_of_true (.endless location) misuses_misused
  | succ depth ih =>
      rw [value_succ, Logged.outcome_bind fun s => steady_follow (steady_value shelf depth) _,
        misuses_bind_iff, misuses_text_iff]
      constructor
      · intro trips
        cases trips with
        | illegible h => exact .inl h
        | reading lies stumbles => exact .inr ⟨_, lies, (stumbles_iff ih _).mp stumbles⟩
      · rintro (illegible | ⟨s, lies, misuses⟩)
        · exact .illegible illegible
        · exact .reading lies ((stumbles_iff ih _).mpr misuses)

/-- The value of a document needs that the document does not trip. -/
theorem needs_value (shelf : Shelf) (depth : Nat) (location : String) :
    Needs (value shelf depth location).outcome (¬ Trips shelf depth location) := by
  rw [trips_iff]
  refine ⟨fun v given misuses => ?_, misusesNothing_iff.mpr⟩
  rw [given] at misuses
  exact not_misuses_ok v misuses

theorem outcome_specification (shelf : Shelf) (location : String) (client : Option String) :
    (specification shelf location client).outcome =
      (value shelf shelf.depth location).outcome >>= fun document =>
        Specification.ofDocument document client (some location) := by
  rw [specification, Logged.outcome_bind]
  · refine congrArg _ (funext fun document => ?_)
    cases Specification.ofDocument document client (some location) <;> rfl
  · exact fun document => .bind (.ofOutcome _) fun s => .bind (.tell _) fun _ => .pure _

end Loading

end ClientForge
