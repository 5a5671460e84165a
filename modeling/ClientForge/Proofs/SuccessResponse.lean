import ClientForge.Proofs.Registration
import ClientForge.Proofs.ResourceTree

/-!
# The response that gives an action its type

A method declares its responses under codes, which may be numbers and texts side by
side. The reader puts them in the order in which their codes are written and takes the
first one that succeeds and has a body. Where no two codes are written alike, that is
the answering response with the least code: neither the order of the mapping nor any
response that does not answer leaves a trace.
-/

namespace ClientForge

section Sorting

variable {α : Type} {before : α → α → Bool}

theorem insertBy_perm (before : α → α → Bool) (x : α) (xs : List α) :
    (insertBy before x xs).Perm (x :: xs) := by
  induction xs with
  | nil => exact .refl _
  | cons y rest ih =>
      rw [insertBy]
      split
      next => exact .refl _
      next => exact (ih.cons y).trans (.swap x y rest)

theorem sortBy_perm (before : α → α → Bool) (xs : List α) : (sortBy before xs).Perm xs := by
  have grown : ∀ sorted : List α,
      (xs.foldl (fun sorted x => insertBy before x sorted) sorted).Perm (xs ++ sorted) := by
    induction xs with
    | nil => exact fun sorted => .refl _
    | cons x xs ih =>
        intro sorted
        exact (ih _).trans (((insertBy_perm before x sorted).append_left xs).trans
          List.perm_middle)
  exact (grown []).trans (by rw [List.append_nil])

/-- No item stands behind one that the order puts after it. -/
def IsSortedBy (before : α → α → Bool) (xs : List α) : Prop :=
  xs.Pairwise fun a b => before b a = false

theorem IsSortedBy.insertBy (asymm : ∀ a b, before a b = true → before b a = false)
    (trans : ∀ a b c, before b a = false → before c b = false → before c a = false)
    {xs : List α} (sorted : IsSortedBy before xs) (x : α) :
    IsSortedBy before (insertBy before x xs) := by
  induction xs with
  | nil => exact List.pairwise_singleton _ x
  | cons y rest ih =>
      obtain ⟨behind, sorted⟩ := List.pairwise_cons.mp sorted
      rw [ClientForge.insertBy]
      split
      next first =>
        refine List.pairwise_cons.mpr ⟨fun z hz => ?_, List.pairwise_cons.mpr ⟨behind, sorted⟩⟩
        rcases List.mem_cons.mp hz with rfl | hz
        · exact asymm x z first
        · exact trans x y z (asymm x y first) (behind z hz)
      next notFirst =>
        refine List.pairwise_cons.mpr ⟨fun z hz => ?_, ih sorted⟩
        rcases List.mem_cons.mp ((insertBy_perm before x rest).mem_iff.mp hz) with rfl | hz
        · exact Bool.eq_false_iff.mpr notFirst
        · exact behind z hz

theorem isSortedBy_sortBy (asymm : ∀ a b, before a b = true → before b a = false)
    (trans : ∀ a b c, before b a = false → before c b = false → before c a = false)
    (xs : List α) : IsSortedBy before (sortBy before xs) := by
  have kept : ∀ sorted : List α, IsSortedBy before sorted →
      IsSortedBy before
        (xs.foldl (fun sorted x => ClientForge.insertBy before x sorted) sorted) := by
    induction xs with
    | nil => exact fun _ h => h
    | cons x xs ih => exact fun sorted h => ih _ (h.insertBy asymm trans x)
  exact kept [] .nil

/-- The first item of some kind in a sorted list: no other one of that kind is put before it. -/
theorem IsSortedBy.least_of_find? {p : α → Bool} {xs : List α} (sorted : IsSortedBy before xs)
    {x : α} (found : xs.find? p = some x) :
    ∀ y ∈ xs, p y = true → y = x ∨ before y x = false := by
  obtain ⟨-, ahead, behind, rfl, others⟩ := List.find?_eq_some_iff_append.mp found
  intro y hy kind
  rcases List.mem_append.mp hy with hy | hy
  · exact absurd kind (by simpa using others y hy)
  · rcases List.mem_cons.mp hy with rfl | hy
    · exact .inl rfl
    · have later := (List.pairwise_append.mp sorted).2.1
      exact .inr ((List.pairwise_cons.mp later).1 y hy)

end Sorting

namespace Specification

open ClientForge.Outcome ClientForge.Value

theorem byCode_perm (es : Entries) : (byCode es).Perm es := sortBy_perm _ es

/-- Responses in order have ascending codes. -/
theorem isSortedBy_byCode (es : Entries) :
    IsSortedBy (fun a b => Text.codeLess a.1.text.toList b.1.text.toList) (byCode es) := by
  refine isSortedBy_sortBy ?_ ?_ es
  · intro a b first
    rw [Positions.codeLess_eq, decide_eq_true_eq] at first
    rw [Positions.codeLess_eq, decide_eq_false_iff_not]
    exact lt_asymm first
  · intro a b c one two
    rw [Positions.codeLess_eq, decide_eq_false_iff_not, not_lt] at one two ⊢
    exact one.trans two

/-- A response that can give the type: its code begins with a two, and it is a mapping with
a body that is not null. -/
structure Answers (e : Value × Value) : Prop where
  success : ∃ rest, e.1.text.toList = '2' :: rest
  body : ∃ fields body, e.2 = .map fields ∧ Entries.text? "body" fields = some body ∧ body ≠ .null

/-- The body that a response declares, null if there is none. -/
def responseBody (e : Value × Value) : Value := e.2.field "body"

theorem isSuccess_iff (code : String) :
    isSuccess code = true ↔ ∃ rest, code.toList = '2' :: rest := by
  have two : ("2" : String).toList = ['2'] := rfl
  rw [isSuccess, Text.startsWith, two]
  cases code.toList with
  | nil => simp
  | cons c rest =>
      simp only [List.isPrefixOf, Bool.and_true, beq_iff_eq, List.cons.injEq, exists_and_left,
        exists_eq', and_true]
      exact eq_comm

theorem hasBody_iff (response : Value) :
    hasBody response = true ↔ ∃ fields body, response = .map fields ∧
      Entries.text? "body" fields = some body ∧ body ≠ .null := by
  cases response with
  | map fields =>
      have looked : (Value.map fields).field? "body" = Entries.text? "body" fields := rfl
      rw [hasBody, looked]
      cases found : Entries.text? "body" fields with
      | none => simp [found]
      | some body => cases body <;> simp [found, Value.isNull]
  | _ => simp [hasBody, Value.field?]

theorem answers_iff (e : Value × Value) :
    Answers e ↔ (isSuccess e.1.text && hasBody e.2) = true := by
  rw [Bool.and_eq_true, isSuccess_iff, hasBody_iff]
  exact ⟨fun h => ⟨h.success, h.body⟩, fun h => ⟨h.1, h.2⟩⟩

/-- The response with the least code among those that answer. -/
structure IsLeastAnswer (es : Entries) (e : Value × Value) : Prop where
  listed : e ∈ es
  answers : Answers e
  least : ∀ other ∈ es, Answers other → e.1.text ≤ other.1.text

/-- What the reader takes: the body of a response with the least code, or nothing where none
answers. -/
theorem responseType_cases (es : Entries) :
    (∃ e, IsLeastAnswer es e ∧ responseType (.map es) = bodyType (responseBody e)) ∨
      ((∀ e ∈ es, ¬ Answers e) ∧ responseType (.map es) = none) := by
  rw [responseType]
  cases found : (byCode es).find? fun e => isSuccess e.1.text && hasBody e.2 with
  | none =>
      refine .inr ⟨fun e he answers => ?_, rfl⟩
      exact List.find?_eq_none.mp found e ((byCode_perm es).mem_iff.mpr he)
        ((answers_iff e).mp answers)
  | some e =>
      have listed := (byCode_perm es).mem_iff.mp (List.mem_of_find?_eq_some found)
      have picked := List.find?_some found
      refine .inl ⟨e, ⟨listed, (answers_iff e).mpr picked, fun other ho answers => ?_⟩, rfl⟩
      have later := (isSortedBy_byCode es).least_of_find? found other
        ((byCode_perm es).mem_iff.mpr ho) ((answers_iff other).mp answers)
      rcases later with rfl | later
      · exact le_refl _
      · rw [Positions.codeLess_eq, decide_eq_false_iff_not, ← String.lt_iff_toList_lt] at later
        exact not_lt.mp later

/-- Where no two codes are written alike, one response at most has the least code. -/
theorem IsLeastAnswer.unique {es : Entries} (distinct : (es.map (·.1.text)).Nodup)
    {e other : Value × Value} (he : IsLeastAnswer es e) (ho : IsLeastAnswer es other) :
    e = other :=
  List.inj_on_of_nodup_map distinct he.listed ho.listed
    (le_antisymm (he.least other ho.listed ho.answers) (ho.least e he.listed he.answers))

/-- The least answer depends on the responses that answer only. -/
theorem IsLeastAnswer.of_same_answers {es es' : Entries} {e : Value × Value}
    (same : ∀ e, Answers e → (e ∈ es' ↔ e ∈ es)) (h : IsLeastAnswer es' e) :
    IsLeastAnswer es e where
  listed := (same e h.answers).mp h.listed
  answers := h.answers
  least other ho answers := h.least other ((same other answers).mpr ho) answers

section Distinct

variable {es : Entries} (distinct : (es.map (·.1.text)).Nodup)

include distinct

theorem responseType_of_isLeastAnswer {e : Value × Value} (h : IsLeastAnswer es e) :
    responseType (.map es) = bodyType (responseBody e) := by
  obtain ⟨other, least, same⟩ | ⟨none, -⟩ := responseType_cases es
  · rw [same, least.unique distinct h]
  · exact absurd h.answers (none e h.listed)

theorem responseType_of_same_answers {es' : Entries}
    (same : ∀ e, Answers e → (e ∈ es' ↔ e ∈ es)) :
    responseType (.map es') = responseType (.map es) := by
  -- Codes need not be written in different ways in `es'`: it can repeat what it shares with `es`.
  obtain ⟨e, least, taken⟩ | ⟨none, nothing⟩ := responseType_cases es'
  · rw [taken, responseType_of_isLeastAnswer distinct (least.of_same_answers same)]
  · obtain ⟨e, least, -⟩ | ⟨-, nothing'⟩ := responseType_cases es
    · exact absurd least.answers (none e ((same e least.answers).mpr least.listed))
    · rw [nothing, nothing']

end Distinct

/-- The response type of an action is read off the responses of its node. -/
theorem responseType_of_action {s : Setting} {path : String} {method : Method} {node : Value}
    {inherited : List String} {a : Action} (made : action s path method node inherited = .ok a) :
    a.responseType = responseType (node.field "responses") := by
  rw [action_eq] at made
  obtain ⟨request, -, made⟩ := bind_eq_ok.mp made
  obtain ⟨-, -, made⟩ := bind_eq_ok.mp made
  obtain rfl := Except.ok.inj made
  rfl

/-- Where no two codes are written alike, the response type is the body type of the answering
response with the least code, and none where no response answers. Responses in another order,
and responses that differ only in what does not answer, have the same type; it is the one that
an action gets. -/
theorem responseType_eq_least_answer {es : Entries} (distinct : (es.map (·.1.text)).Nodup) :
    ((∃ e ∈ es, Answers e) → ∃ e, IsLeastAnswer es e) ∧
      (∀ e, IsLeastAnswer es e → responseType (.map es) = bodyType (responseBody e)) ∧
      ((∀ e ∈ es, ¬ Answers e) → responseType (.map es) = none) ∧
      (∀ es', es'.Perm es → responseType (.map es') = responseType (.map es)) ∧
      (∀ es' : Entries, (∀ e, Answers e → (e ∈ es' ↔ e ∈ es)) →
        responseType (.map es') = responseType (.map es)) ∧
      ∀ s path method node inherited a, action s path method node inherited = .ok a →
        node.field "responses" = .map es → a.responseType = responseType (.map es) := by
  refine ⟨?_, fun e => responseType_of_isLeastAnswer distinct, ?_, ?_,
    fun es' => responseType_of_same_answers distinct, ?_⟩
  · rintro ⟨e, he, answers⟩
    obtain ⟨least, h, -⟩ | ⟨none, -⟩ := responseType_cases es
    · exact ⟨least, h⟩
    · exact absurd answers (none e he)
  · intro none
    obtain ⟨e, least, -⟩ | ⟨-, nothing⟩ := responseType_cases es
    · exact absurd least.answers (none e least.listed)
    · exact nothing
  · exact fun es' perm => responseType_of_same_answers distinct fun e _ => perm.mem_iff
  · intro s path method node inherited a made declared
    rw [responseType_of_action made, declared]

/-- Responses under numbers and texts: those for an accepted and for a created transfer succeed
and have a body, and the code of the latter is less. -/
def transferResponses : Entries :=
  [(.str "404", .map [(.str "body", .str "Error")]),
    (.str "202", .map [(.str "body", .str "Receipt")]),
    (.int 201, .map [(.str "body", .str "Transfer")]),
    (.str "200", .map [])]

theorem responseType_transferResponses :
    (transferResponses.map (·.1.text)).Nodup ∧
      responseType (.map transferResponses) = some (.named "Transfer") ∧
      responseType (.map transferResponses.reverse) = some (.named "Transfer") := by
  have distinct : (transferResponses.map (·.1.text)).Nodup := by decide
  have least :
      IsLeastAnswer transferResponses (.int 201, .map [(.str "body", .str "Transfer")]) := by
    refine ⟨by simp [transferResponses], ⟨⟨['0', '1'], rfl⟩, _, _, rfl, rfl, nofun⟩, ?_⟩
    intro other ho answers
    have picked := (answers_iff other).mp answers
    simp only [transferResponses, List.mem_cons, List.not_mem_nil, or_false] at ho
    rcases ho with rfl | rfl | rfl | rfl
    · exact absurd picked (by decide)
    · exact le_of_lt (by decide)
    · exact le_refl _
    · exact absurd picked (by decide)
  obtain ⟨-, taken, -, permuted, -⟩ := responseType_eq_least_answer distinct
  have body : bodyType (.str "Transfer") = some (.named "Transfer") := by
    have token : TypeExpr.parse "Transfer" = (.named "Transfer", false) := by decide
    simp [bodyType, Value.isNull, preferredBody, TypeExpr.ofNode, token]
  have typed := (taken _ least).trans body
  exact ⟨distinct, typed, (permuted _ (List.reverse_perm _)).trans typed⟩

end Specification

end ClientForge
