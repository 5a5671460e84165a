import ClientForge.Proofs.Variables
import ClientForge.Proofs.WordScan
import Mathlib.Data.List.Chain

/-!
# Names that casing leaves alone

The words of a class or a variable are not the ones that it was made of: single letters have come
together as an acronym, digits have joined the letters in front of them, and an acronym that led is
in small letters. What the name keeps is that no small letter stands behind a digit. A small letter
opens a word only behind a digit or a separator, so in such a name each word but the first begins
with a capital or a digit, and setting the words together changes nothing behind the first
character.

So a text is its own class exactly if it consists of letters and digits and no small letter stands
in front or behind a digit, and it is its own camel-cased form exactly if no capital stands in
front and no small letter behind a digit. Classes and variables are such texts, those of clients
and escaped ones among them, and are the same when they are named again.
-/

namespace ClientForge.Naming

open ClientForge.Text

variable {l : Language} {name : String} {c d : Char} {cs ds rest w : List Char}
  {ws : List (List Char)}

/-! ## Settled texts -/

/-- Whether a character may stand behind another one: behind a digit a small letter may not. -/
def Follows (c d : Char) : Prop := isAsciiDigit c = true → isAsciiLower d = false

instance : DecidableRel Follows := fun _ _ => inferInstanceAs (Decidable (_ → _))

/-- Letters and digits with no small letter behind a digit. -/
structure IsSettled (cs : List Char) : Prop where
  word : ∀ c ∈ cs, isWordChar c = true
  chain : cs.IsChain Follows

instance (cs : List Char) : Decidable (IsSettled cs) :=
  decidable_of_iff (cs.all isWordChar = true ∧ cs.IsChain Follows)
    ⟨fun h => ⟨List.all_eq_true.mp h.1, h.2⟩, fun h => ⟨List.all_eq_true.mpr h.word, h.chain⟩⟩

namespace IsSettled

theorem tail (h : IsSettled (c :: cs)) : IsSettled cs :=
  ⟨fun d hd => h.word d (List.mem_cons_of_mem c hd), h.chain.tail⟩

theorem append (hc : IsSettled cs) (hd : IsSettled ds)
    (starts : ds.head?.any isAsciiLower = false) : IsSettled (cs ++ ds) := by
  refine ⟨fun c h => (List.mem_append.mp h).elim (hc.word c) (hd.word c), ?_⟩
  refine List.isChain_append.mpr ⟨hc.chain, hd.chain, fun c _ d first _ => ?_⟩
  rwa [Option.mem_def.mp first] at starts

/-- The first character may take another case. -/
theorem cons_of_isAsciiDigit_eq (h : IsSettled (c :: cs)) (word : isWordChar d = true)
    (digit : isAsciiDigit d = isAsciiDigit c) : IsSettled (d :: cs) := by
  refine ⟨List.forall_mem_cons.mpr ⟨word, h.tail.word⟩, ?_⟩
  refine List.isChain_cons.mpr ⟨fun e first digit_ => ?_, h.tail.chain⟩
  exact (List.isChain_cons.mp h.chain).1 e first (digit ▸ digit_)

end IsSettled

/-! ## Words of a settled text -/

/-- Where a word ends, a small letter comes next only behind a digit. -/
theorem isAsciiLower_of_goesOn_eq_false (follows : Follows c d)
    (ends : goesOn c (d :: rest) = false) : isAsciiLower d = false := by
  rw [goesOn] at ends
  split at ends
  next => exact (Bool.or_eq_false_iff.mp ends).1
  next =>
    split at ends
    next digit => exact follows digit
    next => exact (Bool.or_eq_false_iff.mp ends).1

theorem IsSettled.flatten_words (h : IsSettled cs) : (words cs).flatten = cs := by
  rw [Naming.flatten_words, List.filter_eq_self.mpr h.word]

/-- Each word but the first begins with a capital or a digit. -/
theorem IsSettled.starts_of_mem_tail (h : IsSettled cs) (hw : w ∈ (words cs).tail) :
    w.head?.any isAsciiLower = false := by
  fun_induction words cs with
  | case1 => cases hw
  | case2 c rest sign _ =>
      have word := h.word c List.mem_cons_self
      simp [word] at sign
  | case3 c rest _ _ ih =>
      -- The word that goes on is the first one, with a character more.
      refine ih h.tail ?_
      cases cut : words rest with
      | nil =>
          rw [cut] at hw
          cases hw
      | cons first more =>
          rw [cut] at hw
          exact hw
  | case4 c rest _ ends ih =>
      have whole := h.tail.flatten_words
      cases cut : words rest with
      | nil =>
          rw [cut] at hw
          cases hw
      | cons first more =>
          rw [cut] at hw ih whole
          rcases List.mem_cons.mp hw with rfl | hw
          · obtain ⟨d, tail, rfl⟩ :=
              List.exists_cons_of_ne_nil (ne_nil_of_mem_words (cut ▸ List.mem_cons_self))
            subst whole
            have follows : Follows c d := (List.isChain_cons_cons.mp h.chain).1
            exact isAsciiLower_of_goesOn_eq_false follows (Bool.eq_false_iff.mpr ends)
          · exact ih h.tail hw

/-- The first word of a settled text begins as the text does, and the others complete it. -/
theorem IsSettled.exists_words (h : IsSettled (c :: cs)) : ∃ w ws,
    words (c :: cs) = (c :: w) :: ws ∧ w ++ ws.flatten = cs ∧
      ∀ v ∈ ws, v.head?.any isAsciiLower = false := by
  have whole := h.flatten_words
  have starts : ∀ v ∈ (words (c :: cs)).tail, v.head?.any isAsciiLower = false :=
    fun v hv => h.starts_of_mem_tail hv
  have some_ : ∀ v ∈ words (c :: cs), v ≠ [] := fun _ => ne_nil_of_mem_words
  generalize words (c :: cs) = all at whole starts some_ ⊢
  cases all with
  | nil => cases whole
  | cons first ws =>
      obtain ⟨d, w, rfl⟩ := List.exists_cons_of_ne_nil (some_ first List.mem_cons_self)
      obtain ⟨rfl, others⟩ := List.cons.inj whole
      exact ⟨w, ws, rfl, others, starts⟩

theorem capitalized_eq_self (starts : w.head?.any isAsciiLower = false) : capitalized w = w := by
  cases w with
  | nil => rfl
  | cons c rest =>
      have lower : isAsciiLower c = false := starts
      rw [capitalized, capital_eq_self lower]

/-- Words that begin with capitals and digits are set together as they are. -/
theorem pascalOf_eq_flatten (starts : ∀ w ∈ ws, w.head?.any isAsciiLower = false) :
    pascalOf ws = ws.flatten := by
  rw [pascalOf, ← List.flatMap_id]
  exact List.flatMap_congr fun w hw => capitalized_eq_self (starts w hw)

theorem IsSettled.pascalOf_words (h : IsSettled cs) (starts : cs.head?.any isAsciiLower = false) :
    pascalOf (words cs) = cs := by
  cases cs with
  | nil => rfl
  | cons c cs =>
      obtain ⟨w, ws, cut, rfl, others⟩ := h.exists_words
      have each : ∀ v ∈ (c :: w) :: ws, v.head?.any isAsciiLower = false :=
        List.forall_mem_cons.mpr ⟨starts, others⟩
      rw [cut, pascalOf_eq_flatten each]
      rfl

theorem IsSettled.camelOf_words (h : IsSettled cs) (starts : cs.head?.any isAsciiUpper = false) :
    camelOf (words cs) = cs := by
  cases cs with
  | nil => rfl
  | cons c cs =>
      obtain ⟨w, ws, cut, rfl, others⟩ := h.exists_words
      have upper : isAsciiUpper c = false := starts
      have noAcronym : isAcronym (c :: w) = false := by simp [isAcronym, upper]
      have same : small c = c := small_eq_self upper
      rw [cut, camelOf, noAcronym, if_neg Bool.false_ne_true, uncapitalized, same,
        pascalOf_eq_flatten others, List.cons_append]

/-! ## Words set together are settled -/

theorem isAsciiDigit_capital (c : Char) : isAsciiDigit (capital c) = isAsciiDigit c := by
  cases lower : isAsciiLower c with
  | true =>
      obtain ⟨n, high, low, rfl⟩ := exists_code_of_isAsciiLower lower
      revert n
      decide
  | false => rw [capital_eq_self lower]

theorem isAsciiDigit_small (c : Char) : isAsciiDigit (small c) = isAsciiDigit c := by
  cases upper : isAsciiUpper c with
  | true =>
      obtain ⟨n, high, low, rfl⟩ := exists_code_of_isAsciiUpper upper
      revert n
      decide
  | false => rw [small_eq_self upper]

/-- A small letter is no capital. -/
theorem isAsciiUpper_small (c : Char) : isAsciiUpper (small c) = false := by
  cases upper : isAsciiUpper c with
  | true =>
      obtain ⟨n, high, low, rfl⟩ := exists_code_of_isAsciiUpper upper
      revert n
      decide
  | false => rwa [small_eq_self upper]

theorem isChain_of_forall_letter (letter : ∀ c ∈ cs, isAsciiDigit c = false) :
    cs.IsChain Follows := by
  have pairs : cs.Pairwise Follows :=
    List.pairwise_of_forall_mem_list fun c hc _ _ digit => by simp [letter c hc] at digit
  exact pairs.isChain

theorem isChain_of_forall_not_lower (noLower : ∀ c ∈ cs, isAsciiLower c = false) :
    cs.IsChain Follows := by
  have pairs : cs.Pairwise Follows :=
    List.pairwise_of_forall_mem_list fun _ _ d hd _ => noLower d hd
  exact pairs.isChain

/-- Within a word digits are last, or there are no letters, or there are only capitals. -/
theorem isChain_of_isWordForm (form : IsWordForm w) : w.IsChain Follows := by
  cases form with
  | capitals _ upper =>
      exact isChain_of_forall_not_lower fun c hc => not_isAsciiLower_of_isAsciiUpper (upper c hc)
  | digits _ digit =>
      exact isChain_of_forall_not_lower fun c hc => not_isAsciiLower_of_isAsciiDigit (digit c hc)
  | @mixed opening letters digits single upper some_ lower digit =>
      have letter : ∀ c ∈ opening ++ letters, isAsciiDigit c = false := by
        intro c hc
        refine isAsciiDigit_of_isAsciiLetter ?_
        rcases List.mem_append.mp hc with hc | hc
        · simp [isAsciiLetter, upper c hc]
        · simp [isAsciiLetter, lower c hc]
      have noLower : ∀ c ∈ digits, isAsciiLower c = false := fun c hc =>
        not_isAsciiLower_of_isAsciiDigit (digit c hc)
      refine List.isChain_append.mpr ⟨isChain_of_forall_letter letter,
        isChain_of_forall_not_lower noLower, fun c _ d first _ => ?_⟩
      exact noLower d (List.mem_of_mem_head? first)

theorem isSettled_of_mem_words (h : w ∈ words cs) : IsSettled w :=
  ⟨fun _ => isWordChar_of_mem_words h, isChain_of_isWordForm (isWordForm_of_mem_words h)⟩

theorem IsSettled.capitalized (h : IsSettled w) : IsSettled (capitalized w) := by
  cases w with
  | nil => exact h
  | cons c rest =>
      exact h.cons_of_isAsciiDigit_eq (isWordChar_capital (h.word c List.mem_cons_self))
        (isAsciiDigit_capital c)

theorem IsSettled.uncapitalized (h : IsSettled w) : IsSettled (uncapitalized w) := by
  cases w with
  | nil => exact h
  | cons c rest =>
      exact h.cons_of_isAsciiDigit_eq (isWordChar_small (h.word c List.mem_cons_self))
        (isAsciiDigit_small c)

/-- An acronym has no digits. -/
theorem isSettled_map_small (acronym : isAcronym w = true) : IsSettled (w.map small) := by
  simp only [isAcronym, Bool.and_eq_true, List.all_eq_true] at acronym
  have lower : ∀ c ∈ w.map small, isAsciiLower c = true := by
    intro c hc
    obtain ⟨d, hd, rfl⟩ := List.mem_map.mp hc
    exact isAsciiLower_small (acronym.2 d hd)
  refine ⟨fun c hc => isWordChar_of_isAsciiLower (lower c hc), isChain_of_forall_letter ?_⟩
  exact fun c hc => isAsciiDigit_of_isAsciiLetter (by simp [isAsciiLetter, lower c hc])

theorem head?_pascalOf (ws : List (List Char)) :
    (pascalOf ws).head?.any isAsciiLower = false := by
  induction ws with
  | nil => rfl
  | cons w ws ih =>
      cases w with
      | nil => exact ih
      | cons c rest => exact isAsciiLower_capital c

theorem isSettled_pascalOf (h : ∀ w ∈ ws, IsSettled w) : IsSettled (pascalOf ws) := by
  induction ws with
  | nil => decide
  | cons w ws ih =>
      obtain ⟨first, others⟩ := List.forall_mem_cons.mp h
      exact first.capitalized.append (ih others) (head?_pascalOf ws)

theorem isSettled_camelOf (h : ∀ w ∈ ws, IsSettled w) : IsSettled (camelOf ws) := by
  cases ws with
  | nil => decide
  | cons first ws =>
      obtain ⟨front, others⟩ := List.forall_mem_cons.mp h
      refine IsSettled.append ?_ (isSettled_pascalOf others) (head?_pascalOf ws)
      split
      next acronym => exact isSettled_map_small acronym
      next => exact front.uncapitalized

theorem isSettled_pascal (name : String) : IsSettled (pascal name).toList := by
  rw [pascal, String.toList_ofList]
  exact isSettled_pascalOf fun _ => isSettled_of_mem_words

theorem isSettled_camel (name : String) : IsSettled (camel name).toList := by
  rw [camel, String.toList_ofList]
  exact isSettled_camelOf fun _ => isSettled_of_mem_words

/-! ## Names that are their own -/

theorem head?_pascal_not_isAsciiLower (name : String) :
    (pascal name).toList.head?.any isAsciiLower = false := by
  rw [pascal, String.toList_ofList]
  exact head?_pascalOf _

/-- The texts that are their own classes. -/
theorem pascal_eq_self_iff : pascal name = name ↔
    IsSettled name.toList ∧ name.toList.head?.any isAsciiLower = false := by
  constructor
  · intro same
    have starts := head?_pascal_not_isAsciiLower name
    rw [same] at starts
    exact ⟨same ▸ isSettled_pascal name, starts⟩
  · rintro ⟨settled, starts⟩
    rw [pascal, settled.pascalOf_words starts, String.ofList_toList]

theorem head?_camel_not_isAsciiUpper (name : String) :
    (camel name).toList.head?.any isAsciiUpper = false := by
  rw [head?_camel, Option.any_map]
  cases leading? name with
  | none => rfl
  | some c => exact isAsciiUpper_small c

/-- The texts that are their own camel-cased forms. -/
theorem camel_eq_self_iff : camel name = name ↔
    IsSettled name.toList ∧ name.toList.head?.any isAsciiUpper = false := by
  constructor
  · intro same
    have starts := head?_camel_not_isAsciiUpper name
    rw [same] at starts
    exact ⟨same ▸ isSettled_camel name, starts⟩
  · rintro ⟨settled, starts⟩
    rw [camel, settled.camelOf_words starts, String.ofList_toList]

/-- The class of a client is a class of its own. -/
theorem className_clientClass (client : String) :
    className (clientClass client) = clientClass client := by
  have settled : IsSettled (clientClass client).toList := by
    rw [clientClass, String.toList_append]
    exact (isSettled_pascal client).append (by decide) (by decide)
  refine pascal_eq_self_iff.mpr ⟨settled, ?_⟩
  rw [clientClass, String.toList_append, List.head?_append, head?_pascal]
  cases leading? client with
  | none => decide
  | some c => exact isAsciiLower_capital c

theorem isSettled_variableName (l : Language) (name : String) :
    IsSettled (variableName l name).toList := by
  have plain : IsSettled (plainVariable name).toList := by
    unfold plainVariable orName
    split
    · decide
    · exact isSettled_camel name
  rw [variableName_eq]
  rcases escaped_cases l (plainVariable name) with same | ⟨digit, same⟩ | ⟨-, same⟩
  · rwa [same]
  · rw [same, String.toList_append]
    refine IsSettled.append (by decide) plain ?_
    cases first : (plainVariable name).toList.head? with
    | none => rfl
    | some c =>
        rw [first] at digit
        exact not_isAsciiLower_of_isAsciiDigit digit
  · rw [same, String.toList_append]
    exact plain.append (by decide) (by decide)

/-- A variable begins with neither a capital nor a digit. -/
theorem IsVariable.head?_any_eq_false (h : IsVariable l name) :
    name.toList.head?.any isAsciiUpper = false ∧ name.toList.head?.any isAsciiDigit = false := by
  obtain ⟨c, first, lower⟩ := (Option.any_eq_true _ _).mp h.starts
  have noDigit : isAsciiDigit c = false :=
    isAsciiDigit_of_isAsciiLetter (by simp [isAsciiLetter, lower])
  rw [first]
  exact ⟨not_isAsciiUpper_of_isAsciiLower lower, noDigit⟩

/-- The texts that are their own variables. -/
theorem variableName_eq_self_iff : variableName l name = name ↔
    IsSettled name.toList ∧ IsVariable l name := by
  constructor
  · intro same
    exact ⟨same ▸ isSettled_variableName l name, same ▸ isVariable_variableName l name⟩
  · rintro ⟨settled, variable_⟩
    obtain ⟨noCapital, noDigit⟩ := variable_.head?_any_eq_false
    have same : camel name = name := camel_eq_self_iff.mpr ⟨settled, noCapital⟩
    have some_ : name ≠ "" := by
      rintro rfl
      cases variable_.starts
    have plain : plainVariable name = name := by
      rw [plainVariable, orName, same, if_neg (by simpa using some_)]
    have free : ¬ (reservedWords l).contains name = true := fun reserved =>
      variable_.free (List.contains_iff_mem.mp reserved)
    rw [variableName_eq, plain, escaped, noDigit, if_neg Bool.false_ne_true, if_neg free]

/-- Casing settles in one step. A text that was converted once is converted to itself, and so are
the classes of types and of clients and the variables of either language when they are named
again. The texts that are converted to themselves are told by their first character and by what
stands behind their digits. -/
theorem casing_settles (name : String) :
    (pascal (pascal name) = pascal name ∧ camel (camel name) = camel name) ∧
    (className (className name) = className name ∧
      className (clientClass name) = clientClass name ∧
      ∀ l, variableName l (variableName l name) = variableName l name) ∧
    (pascal name = name ↔
      IsSettled name.toList ∧ name.toList.head?.any isAsciiLower = false) ∧
    (camel name = name ↔
      IsSettled name.toList ∧ name.toList.head?.any isAsciiUpper = false) ∧
    ∀ l, variableName l name = name ↔ IsSettled name.toList ∧ IsVariable l name := by
  have class_ : pascal (pascal name) = pascal name :=
    pascal_eq_self_iff.mpr ⟨isSettled_pascal name, head?_pascal_not_isAsciiLower name⟩
  have camel_ : camel (camel name) = camel name :=
    camel_eq_self_iff.mpr ⟨isSettled_camel name, head?_camel_not_isAsciiUpper name⟩
  have variable_ (l : Language) : variableName l (variableName l name) = variableName l name :=
    variableName_eq_self_iff.mpr ⟨isSettled_variableName l name, isVariable_variableName l name⟩
  exact ⟨⟨class_, camel_⟩, ⟨class_, className_clientClass name, variable_⟩, pascal_eq_self_iff,
    camel_eq_self_iff, fun _ => variableName_eq_self_iff⟩

/-- The words of a class are not the words that it was made of. -/
example : splitWords "a_b_c2_d" = ["a", "b", "c2", "d"] ∧ pascal "a_b_c2_d" = "ABC2D" ∧
    splitWords "ABC2D" = ["ABC", "2", "D"] := by decide

end ClientForge.Naming
