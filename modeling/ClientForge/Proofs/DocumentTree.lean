import ClientForge.Proofs.Subtree
import Mathlib.Logic.Relation

/-!
# Documents in a tree

A tree of documents that refer to each other by relative paths has a meaning of its own:
the value of a document, or the first flaw that its reading comes upon, told by paths in
the tree. Each reference is seen from the document that makes it, so a path in the tree
gains parts with every step, double dots among them. Where no document leads back to
itself the depth to which documents are nested is not more than there are files.

Loading from a copy of the tree gives what the tree means, with each flaw reported at its
place in the copy. Nothing but the kind of a document, which is told by its whole path,
depends on the folder.
-/

namespace ClientForge

open FilePath FileStore Relation

namespace Loading

/-- What is wrong with a document of a tree, at its path in the tree. -/
inductive Flaw
  | unread (parts : List String) (cause : AccessError)
  | faulty (parts : List String) (fault : SpecificationFault)
  | misuse (cause : Misuse)

/-- A flaw as it is reported for a copy of the tree in a folder. -/
def Flaw.failure (d : FilePath) : Flaw → Failure
  | unread parts cause =>
    .specification
      (.notRead (d.below parts).text (AccessFault.text ⟨cause, (d.below parts).quoted⟩))
      (some (d.below parts).text)
  | faulty parts fault => .specification fault (some (d.below parts).text)
  | misuse cause => .misuse cause

/-- The flaw of the document at a path. -/
def flawOf (parts : List String) : Yaml.Fault → Flaw
  | .malformed => .faulty parts .malformed
  | .misuse cause => .misuse cause

/-- The text of the file at a path. -/
def textOf (tree : FileStore) (parts : List String) : Except Flaw String :=
  if parts.any isBarredPart then .error (.misuse (FilePath.barring ⟨"", parts⟩))
  else
    match tree.content parts with
    | .error cause => .error (.unread parts cause)
    | .ok content =>
      match String.fromUTF8? content with
      | some s => .ok (Text.ofCharacters (String.ofList (plainLineEnds s.toList)))
      | none => .error (.misuse .undecodable)

/-- The path that a reference names, seen from the document that makes it. -/
def targetOf (parts : List String) (reference : String) : List String :=
  parts.dropLast ++ (ofText reference).parts

variable (tree : FileStore) (structured : List String → Bool)

/-- The value of the document at a path, with documents nested at most so deep. -/
def valueOf : Nat → List String → Except Flaw Value
  | 0, _ => .error (.misuse .endless)
  | depth + 1, parts => do
    let s ← textOf tree parts
    (Yaml.read s).run
      (fun reference =>
        if structured (targetOf parts reference) then valueOf depth (targetOf parts reference)
        else (textOf tree (targetOf parts reference)).map .str)
      (fun fault => .error (flawOf parts fault))

/-- What stands in the place of a reference. -/
def answerOf (depth : Nat) (parts : List String) (reference : String) : Except Flaw Value :=
  if structured (targetOf parts reference) then
    valueOf tree structured depth (targetOf parts reference)
  else (textOf tree (targetOf parts reference)).map .str

/-- Carry the reading of the document at a path through. -/
def followOf (depth : Nat) (parts : List String) (r : Yaml.Reading Value) : Except Flaw Value :=
  r.run (answerOf tree structured depth parts) fun fault => .error (flawOf parts fault)

/-- A reading comes to another one when references are answered as the tree says. -/
inductive Comes (parts : List String) : Yaml.Reading Value → Yaml.Reading Value → Prop
  | here (r : Yaml.Reading Value) : Comes parts r r
  | answered {depth : Nat} {reference : String} {v : Value}
      {next : Value → Yaml.Reading Value} {r : Yaml.Reading Value}
      (answer : answerOf tree structured depth parts reference = .ok v)
      (comes : Comes parts (next v) r) : Comes parts (.ask reference next) r

/-- The reading of the document at a path comes to ask for a reference. -/
def Asks (parts : List String) (reference : String) : Prop :=
  ∃ s next, textOf tree parts = .ok s ∧
    Comes tree structured parts (Yaml.read s) (.ask reference next)

/-- A document includes the file at a path, which may be text or a document itself. -/
def Includes (parts parts' : List String) : Prop :=
  ∃ reference, Asks tree structured parts reference ∧ parts' = targetOf parts reference

/-- A document includes another document. -/
def Opens (parts parts' : List String) : Prop :=
  Includes tree structured parts parts' ∧ structured parts' = true

/-- A document is opened when another one is read: it is the same, or included at some
depth. -/
abbrev Opened (root parts : List String) : Prop :=
  ReflTransGen (Opens tree structured) root parts

/-- The references that are met when a document is read are relative and stay inside of the
tree, and no document leads back to itself. -/
structure Coherent (root : List String) : Prop where
  inside : (depthFrom 0 root).isSome
  relative : ∀ parts, Opened tree structured root parts → ∀ reference,
    Asks tree structured parts reference →
      WebAddress.isFetchable reference = false ∧ (ofText reference).isAbsolute = false ∧
        (depthFrom 0 (targetOf parts reference)).isSome
  acyclic : ∀ parts parts', Opened tree structured root parts →
    TransGen (Opens tree structured) parts parts' →
      ∀ place, tree.walk [] parts = .ok place → tree.walk [] parts' ≠ .ok place

/-- A missing file, or a malformed document, that is met when a document is read. -/
inductive Breaks (root : List String) : Flaw → Prop
  | missing {parts : List String} {cause : AccessError}
      (met : Opened tree structured root parts ∨
        ∃ above, Opened tree structured root above ∧ Includes tree structured above parts)
      (unread : textOf tree parts = .error (.unread parts cause)) :
      Breaks root (.unread parts cause)
  | malformed {parts : List String} {s : String} (met : Opened tree structured root parts)
      (lies : textOf tree parts = .ok s)
      (ends : Comes tree structured parts (Yaml.read s) (.failed .malformed)) :
      Breaks root (.faulty parts .malformed)

variable {tree : FileStore} {structured : List String → Bool} {parts parts' root : List String}
  {depth : Nat} {reference : String} {flaw : Flaw} {r r' : Yaml.Reading Value} {v : Value}

theorem valueOf_succ : valueOf tree structured (depth + 1) parts =
    textOf tree parts >>= fun s => followOf tree structured depth parts (Yaml.read s) := rfl

theorem valueOf_of_textOf {s : String} (lies : textOf tree parts = .ok s) :
    valueOf tree structured (depth + 1) parts =
      followOf tree structured depth parts (Yaml.read s) := by
  rw [valueOf_succ, lies]
  rfl

theorem followOf_ask (next : Value → Yaml.Reading Value) :
    followOf tree structured depth parts (.ask reference next) =
      answerOf tree structured depth parts reference >>= fun v =>
        followOf tree structured depth parts (next v) := rfl

theorem Comes.next {next : Value → Yaml.Reading Value}
    (comes : Comes tree structured parts r (.ask reference next))
    (answer : answerOf tree structured depth parts reference = .ok v) :
    Comes tree structured parts r (next v) := by
  generalize asked : Yaml.Reading.ask reference next = r' at comes
  induction comes with
  | here r =>
      subst asked
      exact .answered answer (.here _)
  | answered answer' _ ih => exact .answered answer' (ih asked)

/-! ## Depth -/

/-- A reading that gives a value gives it with every other way to answer that gives the same
answers. -/
theorem followOf_eq_ok {deeper : Nat}
    (kept : ∀ reference v, answerOf tree structured depth parts reference = .ok v →
      answerOf tree structured deeper parts reference = .ok v)
    (h : followOf tree structured depth parts r = .ok v) :
    followOf tree structured deeper parts r = .ok v := by
  induction r with
  | done w => exact h
  | failed fault => cases h
  | ask reference next ih =>
      rw [followOf_ask] at h ⊢
      cases answer : answerOf tree structured depth parts reference with
      | error flaw =>
          rw [answer] at h
          cases h
      | ok w =>
          rw [answer] at h
          rw [kept reference w answer]
          exact ih w h

/-- A value that is found is found at every greater depth. -/
theorem valueOf_eq_ok {deeper : Nat} (le : depth ≤ deeper)
    (h : valueOf tree structured depth parts = .ok v) :
    valueOf tree structured deeper parts = .ok v := by
  induction depth generalizing deeper parts v with
  | zero => cases h
  | succ depth ih =>
      obtain ⟨deeper, rfl⟩ := Nat.exists_eq_succ_of_ne_zero (show deeper ≠ 0 by omega)
      rw [valueOf_succ] at h ⊢
      cases lies : textOf tree parts with
      | error flaw =>
          rw [lies] at h
          cases h
      | ok s =>
          rw [lies] at h
          refine followOf_eq_ok (fun reference w answer => ?_) h
          unfold answerOf at answer ⊢
          split at answer
          next kind => rw [if_pos kind, ih (by omega) answer]
          next kind => rw [if_neg kind, answer]

theorem answerOf_eq_ok {deeper : Nat} (le : depth ≤ deeper)
    (h : answerOf tree structured depth parts reference = .ok v) :
    answerOf tree structured deeper parts reference = .ok v := by
  unfold answerOf at h ⊢
  split at h
  next kind => rw [if_pos kind, valueOf_eq_ok le h]
  next kind => rw [if_neg kind, h]

/-- What is read after some answers is what decides a reading. -/
theorem followOf_of_comes (comes : Comes tree structured parts r r') :
    ∃ enough, ∀ depth ≥ enough, followOf tree structured depth parts r =
      followOf tree structured depth parts r' := by
  induction comes with
  | here r => exact ⟨0, fun _ _ => rfl⟩
  | @answered depth reference v next r' answer _ ih =>
      obtain ⟨enough, same⟩ := ih
      refine ⟨max depth enough, fun deeper le => ?_⟩
      rw [followOf_ask, answerOf_eq_ok (by omega) answer]
      exact same deeper (by omega)

/-- A document that has the same flaw at all great depths. -/
def Fails (tree : FileStore) (structured : List String → Bool) (parts : List String)
    (flaw : Flaw) : Prop :=
  ∃ enough, ∀ depth ≥ enough, valueOf tree structured depth parts = .error flaw

theorem fails_of_comes {s : String} (lies : textOf tree parts = .ok s)
    (comes : Comes tree structured parts (Yaml.read s) r)
    (fails : ∃ enough, ∀ depth ≥ enough, followOf tree structured depth parts r = .error flaw) :
    Fails tree structured parts flaw := by
  obtain ⟨enough, same⟩ := followOf_of_comes comes
  obtain ⟨enough', failed⟩ := fails
  refine ⟨max enough enough' + 1, fun depth le => ?_⟩
  obtain ⟨depth, rfl⟩ := Nat.exists_eq_succ_of_ne_zero (show depth ≠ 0 by omega)
  rw [valueOf_of_textOf lies, same depth (by omega), failed depth (by omega)]

/-- A reference that cannot be answered keeps a document from being read. -/
theorem fails_of_asks (asks : Asks tree structured parts reference)
    (fails : ∃ enough, ∀ depth ≥ enough,
      answerOf tree structured depth parts reference = .error flaw) :
    Fails tree structured parts flaw := by
  obtain ⟨s, next, lies, comes⟩ := asks
  obtain ⟨enough, failed⟩ := fails
  refine fails_of_comes lies comes ⟨enough, fun depth le => ?_⟩
  rw [followOf_ask, failed depth le]
  rfl

theorem fails_of_unread (unread : textOf tree parts = .error flaw) :
    Fails tree structured parts flaw := by
  refine ⟨1, fun depth le => ?_⟩
  obtain ⟨depth, rfl⟩ := Nat.exists_eq_succ_of_ne_zero (show depth ≠ 0 by omega)
  rw [valueOf_succ, unread]
  rfl

/-- A flaw of a document is one of all documents that it is opened for. -/
theorem fails_of_opened (opened : Opened tree structured root parts)
    (fails : Fails tree structured parts flaw) : Fails tree structured root flaw := by
  induction opened using ReflTransGen.head_induction_on with
  | refl => exact fails
  | head opens _ ih =>
      obtain ⟨⟨reference, asks, rfl⟩, kind⟩ := opens
      obtain ⟨enough, failed⟩ := ih
      refine fails_of_asks asks ⟨enough, fun depth le => ?_⟩
      rw [answerOf, if_pos kind, failed depth le]

/-- A missing file or a malformed document that is met is what a reading fails with. -/
theorem Breaks.fails (breaks : Breaks tree structured root flaw) :
    Fails tree structured root flaw := by
  cases breaks with
  | @missing parts cause met unread =>
      rcases met with opened | ⟨above, opened, reference, asks, rfl⟩
      · exact fails_of_opened opened (fails_of_unread unread)
      · refine fails_of_opened opened (fails_of_asks asks ?_)
        by_cases kind : structured (targetOf above reference) = true
        · have fails : Fails tree structured (targetOf above reference) _ := fails_of_unread unread
          obtain ⟨enough, failed⟩ := fails
          refine ⟨enough, fun depth le => ?_⟩
          rw [answerOf, if_pos kind, failed depth le]
        · refine ⟨0, fun depth _ => ?_⟩
          rw [answerOf, if_neg kind, unread]
          rfl
  | malformed met lies ends =>
      exact fails_of_opened met (fails_of_comes lies ends ⟨0, fun _ _ => rfl⟩)

/-- A bound on the number of files of a tree. -/
def HasAtMost (tree : FileStore) (count : Nat) : Prop :=
  ∀ places : List Location, places.Nodup →
    (∀ place ∈ places, ∃ content, tree.node? place = some (.file content)) → places.length ≤ count

theorem exists_file_of_textOf {s : String} (lies : textOf tree parts = .ok s) :
    ∃ place content, tree.walk [] parts = .ok place ∧
      tree.node? place = some (.file content) := by
  unfold textOf at lies
  split at lies
  · cases lies
  · split at lies
    · cases lies
    next content held =>
      obtain ⟨place, walked, there⟩ := node?_of_content held
      exact ⟨place, content, walked, there⟩

theorem ne_nil_of_textOf {s : String} (lies : textOf tree parts = .ok s) : parts ≠ [] := by
  rintro rfl
  obtain ⟨place, content, walked, there⟩ := exists_file_of_textOf lies
  obtain rfl : [] = place := Except.ok.inj walked
  cases there

/-- Readings that ask for the same references in vain or with the same answers are alike. -/
theorem followOf_congr {deeper : Nat}
    (same : ∀ reference next, Comes tree structured parts r (.ask reference next) →
      answerOf tree structured deeper parts reference =
        answerOf tree structured depth parts reference) :
    followOf tree structured deeper parts r = followOf tree structured depth parts r := by
  induction r with
  | done w => rfl
  | failed fault => rfl
  | ask reference next ih =>
      rw [followOf_ask, followOf_ask, same reference next (.here _)]
      cases answer : answerOf tree structured depth parts reference with
      | error flaw => rfl
      | ok v => exact ih v fun reference' next' comes => same _ _ (.answered answer comes)

/-- Where no document leads back to itself, a document is opened below as many others as the
list of their places says, so the depth that is left counts what has not been opened. -/
theorem valueOf_eq_of_seen {count : Nat} (coherent : Coherent tree structured root)
    (most : HasAtMost tree count) {seen : List Location} (once : seen.Nodup)
    (opened : Opened tree structured root parts)
    (above : ∀ place ∈ seen, (∃ content, tree.node? place = some (.file content)) ∧
      ∃ outer, Opened tree structured root outer ∧ tree.walk [] outer = .ok place ∧
        TransGen (Opens tree structured) outer parts)
    (left : count < depth + seen.length) {deeper : Nat} (le : depth ≤ deeper) :
    valueOf tree structured deeper parts = valueOf tree structured depth parts := by
  induction depth generalizing parts seen deeper with
  | zero =>
      have few := most seen once fun place there => (above place there).1
      omega
  | succ depth ih =>
      obtain ⟨deeper, rfl⟩ := Nat.exists_eq_succ_of_ne_zero (show deeper ≠ 0 by omega)
      rw [valueOf_succ, valueOf_succ]
      cases lies : textOf tree parts with
      | error flaw => rfl
      | ok s =>
          obtain ⟨place, content, walked, there⟩ := exists_file_of_textOf lies
          have fresh : place ∉ seen := by
            intro old
            obtain ⟨-, outer, opened', walked', leads⟩ := above place old
            exact coherent.acyclic outer parts opened' leads place walked' walked
          refine followOf_congr fun reference next comes => ?_
          unfold answerOf
          split
          next kind =>
            have opens : Opens tree structured parts (targetOf parts reference) :=
              ⟨⟨reference, ⟨s, next, lies, comes⟩, rfl⟩, kind⟩
            have once' : (place :: seen).Nodup := List.nodup_cons.mpr ⟨fresh, once⟩
            refine ih once' (opened.tail opens) ?_ (by rw [List.length_cons]; omega) (by omega)
            rw [List.forall_mem_cons]
            refine ⟨⟨⟨content, there⟩, parts, opened, walked, .single opens⟩, fun old mem => ?_⟩
            obtain ⟨file, outer, opened', walked', leads⟩ := above old mem
            exact ⟨file, outer, opened', walked', leads.tail opens⟩
          next => rfl

/-- More depth than there are files is as good as any. -/
theorem valueOf_eq_of_count {count : Nat} (coherent : Coherent tree structured root)
    (most : HasAtMost tree count) (enough : count < depth) {deeper : Nat} (le : depth ≤ deeper) :
    valueOf tree structured deeper root = valueOf tree structured depth root :=
  valueOf_eq_of_seen coherent most List.nodup_nil .refl (by simp) (by simpa using enough) le

/-! ## Copies -/

/-- A tree has no more files than a store that has a copy of it. -/
theorem hasAtMost_of_copy {fs : FileStore} {d : FilePath} (copy : HoldsCopy fs d tree) :
    HasAtMost tree fs.nodes.length := by
  obtain ⟨base, -, copied⟩ := copy.copied
  intro places once files
  have listed : places.map (base ++ ·) ⊆ fs.nodes.map (·.1) := by
    intro at_ member
    obtain ⟨place, mem, rfl⟩ := List.mem_map.mp member
    obtain ⟨content, there⟩ := files place mem
    rw [← copied] at there
    have named : base ++ place ≠ [] := by
      intro root
      rw [root] at there
      cases there
    rw [node?_of_ne_nil named, Option.map_eq_some_iff] at there
    obtain ⟨e, found, -⟩ := there
    have same : e.1 = base ++ place := by simpa using List.find?_some found
    exact List.mem_map.mpr ⟨e, List.mem_of_find?_eq_some found, same⟩
  have apart : (places.map (base ++ ·)).Nodup := once.map fun _ _ same => by simpa using same
  simpa using (apart.subperm listed).length_le

/-- Whether the document at a path of a tree is structured, seen from the folder that the
tree is copied to. -/
def kindIn (d : FilePath) (parts : List String) : Bool := isStructured (d.below parts).text

/-- Parts that a text can give. -/
def AreProper (parts : List String) : Prop := ∀ part ∈ parts, isPart part = true ∧ '/' ∉ part.toList

/-- Whether every path that is met when a document is read is short enough to be looked for
in a copy of the tree. -/
def Fits (tree : FileStore) (structured : List String → Bool) (root : List String)
    (d : FilePath) : Prop :=
  isPathTooLong (d.below root) = false ∧ ∀ parts parts', Opened tree structured root parts →
    Includes tree structured parts parts' → isPathTooLong (d.below parts') = false

theorem isFetchable_text {p : FilePath} (h : p.Readable) :
    WebAddress.isFetchable p.text = false := by
  have plain : '/' ∉ "http:".toList ∧ '/' ∉ "https:".toList := by decide
  rw [WebAddress.isFetchable, Bool.or_eq_false_iff]
  exact ⟨h.not_startsWith plain.1 (by decide), h.not_startsWith plain.2 (by decide)⟩

theorem misuse?_of_content {cause : AccessError} (held : tree.content parts = .error cause) :
    cause.misuse? = none := by
  unfold FileStore.content at held
  cases walked : tree.walk [] parts with
  | error e =>
      rw [walked] at held
      obtain rfl := Except.error.inj held
      exact misuse?_of_walk walked
  | ok at_ =>
      rw [walked, Except.map] at held
      cases there : tree.node? at_ with
      | none =>
          rw [there] at held
          obtain rfl := Except.error.inj held
          rfl
      | some node =>
          rw [there] at held
          cases node with
          | file content => cases held
          | folder =>
              obtain rfl := Except.error.inj held
              rfl

section Copy

variable {shelf : Shelf} {d : FilePath}

/-- The text of a file in a copy. -/
theorem outcome_text_below (copy : HoldsCopy shelf.store d tree) (proper : AreProper parts)
    (inside : (depthFrom 0 parts).isSome) (short : isPathTooLong (d.below parts) = false) :
    (text shelf (d.below parts).text).outcome = (textOf tree parts).mapError (Flaw.failure d) := by
  have readable : (d.below parts).Readable := copy.readable.append proper
  rw [outcome_text, isFetchable_text readable, if_neg (by decide), fileText, readable.ofText_text,
    textOf]
  cases barred : parts.any isBarredPart with
  | true =>
      rw [read_of_isBarred (by rw [copy.isBarred_below, barred]), copy.barring_below]
      rfl
  | false =>
      rw [copy.read_below inside barred short]
      cases held : tree.content parts with
      | error cause => simp [Except.mapError, Flaw.failure, misuse?_of_content held]
      | ok content =>
          simp only [Except.mapError, decode]
          cases String.fromUTF8? content <;> rfl

/-- A reference in a copy leads to where it leads in the tree. -/
theorem resolve_below (readable : (d.below parts).Readable) (named : parts ≠ [])
    (near : WebAddress.isFetchable reference = false)
    (relative : (ofText reference).isAbsolute = false) :
    resolve (d.below parts).text reference = .ok (d.below (targetOf parts reference)).text := by
  have upper : (d.below parts).parent = d.below parts.dropLast := by
    rw [below, parent, List.dropLast_append_of_ne_nil named]
    rfl
  rw [resolve, near, isFetchable_text readable, if_neg (by decide), if_neg (by decide),
    readable.ofText_text, upper, child, join, relative, if_neg (by decide)]
  simp [below, targetOf, List.append_assoc]

theorem areProper_targetOf (proper : AreProper parts) (reference : String) :
    AreProper (targetOf parts reference) := by
  intro part h
  rcases List.mem_append.mp h with above | here
  · exact proper part ((List.dropLast_sublist parts).subset above)
  · exact (readable_ofText reference).parts part here

theorem areProper_of_opened (proper : AreProper root) (opened : Opened tree structured root parts) :
    AreProper parts := by
  induction opened with
  | refl => exact proper
  | tail _ opens ih =>
      obtain ⟨⟨reference, -, rfl⟩, -⟩ := opens
      exact areProper_targetOf ih reference

/-- A path at which a file of a tree can be read from a copy in a folder. -/
structure IsMet (d : FilePath) (parts : List String) : Prop where
  proper : AreProper parts
  inside : (depthFrom 0 parts).isSome
  short : isPathTooLong (d.below parts) = false

/-- What is done with the target of a reference leaves records only. -/
theorem steady_onward (depth : Nat) (target : String) :
    (if isStructured target then value shelf depth target
      else text shelf target >>= fun s => pure (.str s) : Logged Value).Steady := by
  split
  · exact steady_value shelf depth target
  · exact .bind (steady_text shelf target) fun _ => .pure _

variable (coherent : Coherent tree (kindIn d) root) (fits : Fits tree (kindIn d) root d)
  (proper : AreProper root)
include coherent fits proper

theorem isMet_of_includes {parts' : List String} (opened : Opened tree (kindIn d) root parts)
    (includes : Includes tree (kindIn d) parts parts') : IsMet d parts' := by
  have short := fits.2 parts parts' opened includes
  obtain ⟨reference, asks, rfl⟩ := includes
  obtain ⟨-, -, inside⟩ := coherent.relative parts opened reference asks
  exact ⟨areProper_targetOf (areProper_of_opened proper opened) reference, inside, short⟩

theorem isMet_of_opened (opened : Opened tree (kindIn d) root parts) : IsMet d parts := by
  cases opened with
  | refl => exact ⟨proper, coherent.inside, fits.1⟩
  | tail opened opens => exact isMet_of_includes coherent fits proper opened opens.1

/-- A reference in a copy is answered as in the tree, if the documents that it can open are
loaded as in the tree. -/
theorem outcome_answer (copy : HoldsCopy shelf.store d tree)
    (inner : ∀ parts, Opened tree (kindIn d) root parts →
      (value shelf depth (d.below parts).text).outcome =
        (valueOf tree (kindIn d) depth parts).mapError (Flaw.failure d))
    (opened : Opened tree (kindIn d) root parts) (asks : Asks tree (kindIn d) parts reference) :
    (answer shelf depth (d.below parts).text reference).outcome =
      (answerOf tree (kindIn d) depth parts reference).mapError (Flaw.failure d) := by
  have met := isMet_of_opened coherent fits proper opened
  have includes : Includes tree (kindIn d) parts (targetOf parts reference) :=
    ⟨reference, asks, rfl⟩
  have met' := isMet_of_includes coherent fits proper opened includes
  obtain ⟨near, relative, -⟩ := coherent.relative parts opened reference asks
  obtain ⟨s, -, lies, -⟩ := asks
  have kind : isStructured (d.below (targetOf parts reference)).text =
      kindIn d (targetOf parts reference) := rfl
  rw [answer, Logged.outcome_bind (steady_onward depth), Logged.outcome_ofOutcome,
    resolve_below (copy.readable.append met.proper) (ne_nil_of_textOf lies) near relative,
    Outcome.ok_bind, kind, answerOf]
  split
  next structured => exact inner _ (opened.tail ⟨includes, structured⟩)
  next =>
    rw [Logged.outcome_bind fun _ => .pure _,
      outcome_text_below copy met'.proper met'.inside met'.short]
    cases textOf tree (targetOf parts reference) <;> rfl

omit coherent fits proper in
/-- A reading in a copy is carried through as in the tree, if its references are answered as
in the tree. -/
theorem outcome_follow {s : String} (lies : textOf tree parts = .ok s)
    (answers : ∀ reference, Asks tree (kindIn d) parts reference →
      (answer shelf depth (d.below parts).text reference).outcome =
        (answerOf tree (kindIn d) depth parts reference).mapError (Flaw.failure d))
    (comes : Comes tree (kindIn d) parts (Yaml.read s) r) :
    (follow shelf depth (d.below parts).text r).outcome =
      (followOf tree (kindIn d) depth parts r).mapError (Flaw.failure d) := by
  induction r with
  | done v => rfl
  | failed fault => cases fault <;> rfl
  | ask reference next ih =>
      rw [follow_ask, Logged.outcome_bind fun v => steady_follow (steady_value shelf depth) _,
        answers reference ⟨s, next, lies, comes⟩, followOf_ask]
      cases answer : answerOf tree (kindIn d) depth parts reference with
      | error flaw => rfl
      | ok v => exact ih v (comes.next answer)

/-- Loading a document from a copy of a tree gives what it means in the tree, with each flaw
at its place in the copy. -/
theorem outcome_value (copy : HoldsCopy shelf.store d tree) (depth : Nat)
    (opened : Opened tree (kindIn d) root parts) :
    (value shelf depth (d.below parts).text).outcome =
      (valueOf tree (kindIn d) depth parts).mapError (Flaw.failure d) := by
  induction depth generalizing parts with
  | zero => rfl
  | succ depth ih =>
      have met := isMet_of_opened coherent fits proper opened
      rw [value_succ, Logged.outcome_bind fun s => steady_follow (steady_value shelf depth) _,
        outcome_text_below copy met.proper met.inside met.short, valueOf_succ]
      cases lies : textOf tree parts with
      | error flaw => rfl
      | ok s =>
          have answers : ∀ reference, Asks tree (kindIn d) parts reference → _ := fun reference =>
            outcome_answer coherent fits proper copy (fun parts => ih) opened
          exact outcome_follow lies answers (.here _)

end Copy

end Loading

end ClientForge
