import ClientForge.Proofs.Naming

/-!
# Where words stand

What is no letter and no digit separates words. A text of separators has none, a part that
begins with a separator has its words for itself, and a text with a single word has nothing
but separators around it. When words are set together each of them begins with a capital or a
digit. So a capital with small letters behind it comes from one word, and that one stands alone
in its name. Small letters by themselves come from one word as well, which is in small letters,
leads with a capital, or is all in capitals.
-/

namespace ClientForge.Naming

open ClientForge.Text

variable {c : Char} {before after cs tail w : List Char} {ws : List (List Char)} {name : String}

/-! ## Separators -/

/-- Characters between words. -/
def AreSeparators (cs : List Char) : Prop := ∀ c ∈ cs, isWordChar c = false

instance (cs : List Char) : Decidable (AreSeparators cs) :=
  inferInstanceAs (Decidable (∀ c ∈ cs, isWordChar c = false))

theorem isWordChar_eq_false_iff : isWordChar c = false ↔
    isAsciiUpper c = false ∧ isAsciiLower c = false ∧ isAsciiDigit c = false := by
  simp only [isWordChar, isAsciiLetter, Bool.or_eq_false_iff, and_assoc]

theorem areSeparators_nil : AreSeparators [] := fun _ h => absurd h List.not_mem_nil

/-- A word goes on with a letter or a digit. -/
theorem exists_cons_of_goesOn (h : goesOn c cs = true) :
    ∃ d rest, cs = d :: rest ∧ isWordChar d = true := by
  cases cs with
  | nil => cases h
  | cons d rest =>
      refine ⟨d, rest, rfl, eq_true_of_ne_false fun sign => ?_⟩
      obtain ⟨upper, lower, digit⟩ := isWordChar_eq_false_iff.mp sign
      simp [goesOn, upper, lower, digit] at h

section Separated

variable (separated : ∀ d ∈ after.head?, isWordChar d = false)
include separated

/-- Whether a word goes on does not depend on what a separator begins. -/
theorem goesOn_append (c : Char) (cs : List Char) : goesOn c (cs ++ after) = goesOn c cs := by
  cases cs with
  | nil =>
      rw [List.nil_append, goesOn, Bool.eq_false_iff]
      intro h
      obtain ⟨d, rest, rfl, word⟩ := exists_cons_of_goesOn h
      simp [separated d rfl] at word
  | cons d rest =>
      cases rest with
      | nil =>
          have small_ : after.head?.any isAsciiLower = false := by
            cases first : after.head? with
            | none => rfl
            | some d => exact (isWordChar_eq_false_iff.mp (separated d first)).2.1
          simp [goesOn, small_]
      | cons d' rest => rfl

/-- A part that begins with a separator has its words for itself. -/
theorem words_append (cs : List Char) : words (cs ++ after) = words cs ++ words after := by
  fun_induction words cs with
  | case1 => rfl
  | case2 c rest sign ih =>
      rw [List.cons_append, words, if_pos sign, ih]
  | case3 c rest sign on ih =>
      obtain ⟨d, rest, rfl, word⟩ := exists_cons_of_goesOn on
      rw [List.cons_append, words, if_neg sign, goesOn_append separated, if_pos on, ih]
      obtain ⟨first, more, cut⟩ : ∃ first more, words (d :: rest) = first :: more := by
        rw [words, if_neg (by simp [word])]
        split
        · cases words rest with
          | nil => exact ⟨_, _, rfl⟩
          | cons first more => exact ⟨_, _, rfl⟩
        · exact ⟨_, _, rfl⟩
      rw [cut]
      rfl
  | case4 c rest sign on ih =>
      rw [List.cons_append, words, if_neg sign, goesOn_append separated, if_neg on, ih,
        List.cons_append]

end Separated

theorem words_separators (h : AreSeparators cs) : words cs = [] := by
  induction cs with
  | nil => rfl
  | cons c rest ih =>
      rw [words, if_pos (by simp [h c List.mem_cons_self])]
      exact ih fun d hd => h d (List.mem_cons_of_mem c hd)

theorem words_append_separators (h : AreSeparators after) (cs : List Char) :
    words (cs ++ after) = words cs := by
  rw [words_append (fun d hd => h d (List.mem_of_mem_head? hd)), words_separators h,
    List.append_nil]

theorem words_separators_append (h : AreSeparators before) (cs : List Char) :
    words (before ++ cs) = words cs := by
  induction before with
  | nil => rfl
  | cons c rest ih =>
      rw [List.cons_append, words, if_pos (by simp [h c List.mem_cons_self])]
      exact ih fun d hd => h d (List.mem_cons_of_mem c hd)

theorem ne_nil_of_mem_words (h : w ∈ words cs) : w ≠ [] := by
  fun_induction words cs with
  | case1 => cases h
  | case2 _ _ _ ih => exact ih h
  | case3 c rest _ _ ih =>
      cases cut : words rest with
      | nil =>
          rw [cut] at h
          simp [List.mem_singleton.mp h]
      | cons first more =>
          rw [cut] at h ih
          rcases List.mem_cons.mp h with rfl | h
          · exact List.cons_ne_nil c first
          · exact ih (List.mem_cons_of_mem first h)
  | case4 c rest _ _ ih =>
      rcases List.mem_cons.mp h with rfl | h
      · exact List.cons_ne_nil c []
      · exact ih h

/-- A text has no words exactly if it consists of separators. -/
theorem words_eq_nil_iff : words cs = [] ↔ AreSeparators cs := by
  refine ⟨fun none_ => ?_, words_separators⟩
  fun_induction words cs with
  | case1 => exact areSeparators_nil
  | case2 c rest sign ih =>
      intro d hd
      rcases List.mem_cons.mp hd with rfl | hd
      · simpa using sign
      · exact ih none_ d hd
  | case3 c rest _ _ _ =>
      cases cut : words rest <;> simp [cut, attach] at none_
  | case4 => cases none_

theorem flatten_attach (c : Char) (ws : List (List Char)) :
    (attach c ws).flatten = c :: ws.flatten := by
  cases ws <;> rfl

/-- The words of a text are its letters and digits in their order. -/
theorem flatten_words (cs : List Char) : (words cs).flatten = cs.filter isWordChar := by
  fun_induction words cs with
  | case1 => rfl
  | case2 c rest sign ih => rw [ih, List.filter_cons_of_neg (by simpa using sign)]
  | case3 c rest word _ ih =>
      rw [flatten_attach, ih, List.filter_cons_of_pos (by simpa using word)]
  | case4 c rest word _ ih =>
      rw [List.flatten_cons, ih, List.filter_cons_of_pos (by simpa using word)]
      rfl

/-! ## Single words -/

/-- A text stands alone in another one: all else is separators. -/
def StandsAlone (w cs : List Char) : Prop :=
  ∃ before after, AreSeparators before ∧ AreSeparators after ∧ cs = before ++ w ++ after

/-- A single word stands alone. -/
theorem standsAlone_of_words (h : words cs = [w]) : StandsAlone w cs := by
  fun_induction words cs generalizing w with
  | case1 => cases h
  | case2 c rest sign ih =>
      obtain ⟨before, after, first, last, rfl⟩ := ih h
      refine ⟨c :: before, after, ?_, last, rfl⟩
      intro d hd
      rcases List.mem_cons.mp hd with rfl | hd
      · simpa using sign
      · exact first d hd
  | case3 c rest _ on ih =>
      obtain ⟨d, rest, rfl, word⟩ := exists_cons_of_goesOn on
      cases cut : words (d :: rest) with
      | nil =>
          have sign := words_eq_nil_iff.mp cut d List.mem_cons_self
          simp [word] at sign
      | cons first more =>
          rw [cut] at h ih
          obtain ⟨rfl, rfl⟩ := List.cons.inj h
          obtain ⟨before, after, front, last, whole⟩ := ih rfl
          cases before with
          | nil => exact ⟨[], after, areSeparators_nil, last, by simp [whole]⟩
          | cons b before =>
              have sign := front b List.mem_cons_self
              obtain rfl := (List.cons.inj whole).1
              simp [word] at sign
  | case4 c rest _ _ ih =>
      obtain ⟨rfl, none_⟩ := List.cons.inj h
      exact ⟨[], rest, areSeparators_nil, words_eq_nil_iff.mp none_, rfl⟩

theorem words_eq_singleton_iff (single : words w = [w]) : words cs = [w] ↔ StandsAlone w cs := by
  refine ⟨standsAlone_of_words, ?_⟩
  rintro ⟨before, after, first, last, rfl⟩
  rw [words_append_separators last, words_separators_append first, single]

theorem isAsciiDigit_of_isAsciiLetter (letter : isAsciiLetter c = true) :
    isAsciiDigit c = false := by
  refine Bool.eq_false_iff.mpr fun digit => ?_
  simp only [isAsciiLetter, isAsciiUpper, isAsciiLower, isAsciiDigit, Bool.or_eq_true,
    Bool.and_eq_true, decide_eq_true_eq] at letter digit
  have high : c.toNat ≤ 57 := digit.2
  rcases letter with letter | letter
  · have low : 65 ≤ c.toNat := letter.1
    omega
  · have low : 97 ≤ c.toNat := letter.1
    omega

theorem not_isAsciiLower_of_isAsciiUpper (upper : isAsciiUpper c = true) :
    isAsciiLower c = false := by
  obtain ⟨n, high, low, rfl⟩ := exists_code_of_isAsciiUpper upper
  revert n
  decide

theorem not_isAsciiUpper_of_isAsciiLower (lower : isAsciiLower c = true) :
    isAsciiUpper c = false := by
  refine Bool.eq_false_iff.mpr fun upper => ?_
  rw [not_isAsciiLower_of_isAsciiUpper upper] at lower
  cases lower

/-- A letter with small letters behind it is one word. -/
theorem words_of_small (letter : isAsciiLetter c = true)
    (small_ : ∀ d ∈ tail, isAsciiLower d = true) : words (c :: tail) = [c :: tail] := by
  have word : ¬ (!isWordChar c) = true := by simp [isWordChar, letter]
  induction tail generalizing c with
  | nil => rw [words, if_neg word, goesOn, if_neg Bool.false_ne_true, words]
  | cons d tail ih =>
      have next := small_ d List.mem_cons_self
      have letter' : isAsciiLetter d = true := by simp [isAsciiLetter, next]
      have on : goesOn c (d :: tail) = true := by
        unfold goesOn
        simp [next, isAsciiDigit_of_isAsciiLetter letter]
      have behind := ih letter' (fun e he => small_ e (List.mem_cons_of_mem d he))
        (by simp [isWordChar, letter'])
      rw [words, if_neg word, if_pos on, behind]
      rfl

/-- A word of capitals is one word. -/
theorem words_of_capitals (upper : ∀ d ∈ c :: tail, isAsciiUpper d = true) :
    words (c :: tail) = [c :: tail] := by
  induction tail generalizing c with
  | nil =>
      have word : ¬ (!isWordChar c) = true := by
        simp [isWordChar, isAsciiLetter, upper c List.mem_cons_self]
      rw [words, if_neg word, goesOn, if_neg Bool.false_ne_true, words]
  | cons d tail ih =>
      have behind := ih fun e he => upper e (List.mem_cons_of_mem c he)
      have first := upper c List.mem_cons_self
      have next := upper d (List.mem_cons_of_mem c List.mem_cons_self)
      have word : ¬ (!isWordChar c) = true := by simp [isWordChar, isAsciiLetter, first]
      have on : goesOn c (d :: tail) = true := by
        have capitals : tail.head?.any isAsciiLower = false := by
          cases tail with
          | nil => rfl
          | cons e tail => exact not_isAsciiLower_of_isAsciiUpper (upper e (by simp))
        have letter : isAsciiLetter c = true := by simp [isAsciiLetter, first]
        simp [goesOn, not_isAsciiLower_of_isAsciiUpper first,
          isAsciiDigit_of_isAsciiLetter letter, next, capitals]
      rw [words, if_neg word, if_pos on, behind]
      rfl

/-! ## Words set together -/

theorem capital_of_isAsciiUpper (upper : isAsciiUpper c = true) :
    capital c = c ∧ capital (small c) = c := by
  obtain ⟨n, high, low, rfl⟩ := exists_code_of_isAsciiUpper upper
  revert n
  decide

theorem isAsciiLower_small (upper : isAsciiUpper c = true) : isAsciiLower (small c) = true := by
  obtain ⟨n, high, low, rfl⟩ := exists_code_of_isAsciiUpper upper
  revert n
  decide

theorem small_capital (lower : isAsciiLower c = true) : small (capital c) = c := by
  obtain ⟨n, high, low, rfl⟩ := exists_code_of_isAsciiLower lower
  revert n
  decide

/-- A capital is no small letter. -/
theorem isAsciiLower_capital (c : Char) : isAsciiLower (capital c) = false := by
  cases lower : isAsciiLower c with
  | true =>
      obtain ⟨n, high, low, rfl⟩ := exists_code_of_isAsciiLower lower
      revert n
      decide
  | false => rwa [capital_eq_self lower]

/-- A capital comes from itself and from its small letter. -/
theorem capital_eq_iff {d : Char} (upper : isAsciiUpper c = true) :
    capital d = c ↔ d = c ∨ d = small c := by
  obtain ⟨same, back⟩ := capital_of_isAsciiUpper upper
  constructor
  · rintro rfl
    cases lower : isAsciiLower d with
    | true => exact .inr (small_capital lower).symm
    | false => exact .inl (capital_eq_self lower).symm
  · rintro (rfl | rfl)
    · exact same
    · exact back

/-- A character with small letters behind it comes from one word. -/
theorem eq_singleton_of_pascalOf (some_ : ∀ w ∈ ws, w ≠ [])
    (small_ : ∀ d ∈ tail, isAsciiLower d = true) (h : pascalOf ws = c :: tail) :
    ∃ first, capital first = c ∧ ws = [first :: tail] := by
  cases ws with
  | nil => cases h
  | cons w more =>
      obtain ⟨first, rest, rfl⟩ := List.exists_cons_of_ne_nil (some_ w List.mem_cons_self)
      obtain ⟨same, behind⟩ := List.cons.inj h
      cases more with
      | nil => exact ⟨first, same, by simpa [pascalOf] using behind⟩
      | cons v more =>
          obtain ⟨next, others, rfl⟩ := List.exists_cons_of_ne_nil
            (some_ v (List.mem_cons_of_mem _ List.mem_cons_self))
          have inside : capital next ∈ tail := by
            rw [← behind]
            exact List.mem_append_right rest List.mem_cons_self
          exact absurd (small_ _ inside) (by simp [isAsciiLower_capital])

theorem pascal_eq_empty_iff : pascal name = "" ↔ AreSeparators name.toList := by
  rw [← words_eq_nil_iff, pascal, ← String.ofList_nil, String.ofList_inj]
  constructor
  · intro none_
    cases cut : words name.toList with
    | nil => rfl
    | cons w more =>
        have some_ : w ≠ [] := ne_nil_of_mem_words (cut ▸ List.mem_cons_self)
        obtain ⟨first, rest, rfl⟩ := List.exists_cons_of_ne_nil some_
        rw [cut] at none_
        cases none_
  · intro none_
    rw [none_]
    rfl

/-- A capital with small letters behind it is the class of the names in which it stands alone,
with the capital or without. -/
theorem pascal_eq_iff (name : String) (upper : isAsciiUpper c = true)
    (small_ : ∀ d ∈ tail, isAsciiLower d = true) :
    pascal name = String.ofList (c :: tail) ↔
      StandsAlone (c :: tail) name.toList ∨ StandsAlone (small c :: tail) name.toList := by
  have single {first : Char} (same : capital first = c) :
      words (first :: tail) = [first :: tail] := by
    refine words_of_small ?_ small_
    rcases (capital_eq_iff upper).mp same with rfl | rfl
    · simp [isAsciiLetter, upper]
    · simp [isAsciiLetter, isAsciiLower_small upper]
  obtain ⟨same, back⟩ := capital_of_isAsciiUpper upper
  rw [pascal, String.ofList_inj, ← words_eq_singleton_iff (single same),
    ← words_eq_singleton_iff (single back)]
  constructor
  · intro h
    obtain ⟨first, made, cut⟩ :=
      eq_singleton_of_pascalOf (fun _ => ne_nil_of_mem_words) small_ h
    rcases (capital_eq_iff upper).mp made with rfl | rfl
    · exact .inl cut
    · exact .inr cut
  · rintro (cut | cut)
    · simp [cut, pascalOf, capitalized, same]
    · simp [cut, pascalOf, capitalized, back]

/-! ## Words in small letters -/

theorem isAsciiUpper_capital (lower : isAsciiLower c = true) : isAsciiUpper (capital c) = true := by
  obtain ⟨n, high, low, rfl⟩ := exists_code_of_isAsciiLower lower
  revert n
  decide

theorem small_of_isAsciiLower (lower : isAsciiLower c = true) : small c = c := by
  obtain ⟨n, high, low, rfl⟩ := exists_code_of_isAsciiLower lower
  revert n
  decide

/-- A small letter comes from itself and from its capital. -/
theorem small_eq_iff {d : Char} (lower : isAsciiLower c = true) :
    small d = c ↔ d = c ∨ d = capital c := by
  constructor
  · rintro rfl
    cases upper : isAsciiUpper d with
    | true => exact .inr (capital_of_isAsciiUpper upper).2.symm
    | false => exact .inl (small_eq_self upper).symm
  · rintro (rfl | rfl)
    · exact small_of_isAsciiLower lower
    · exact small_capital lower

theorem isAsciiUpper_of_mem_map_capital (small_ : ∀ d ∈ w, isAsciiLower d = true)
    (h : c ∈ w.map capital) : isAsciiUpper c = true := by
  obtain ⟨d, hd, rfl⟩ := List.mem_map.mp h
  exact isAsciiUpper_capital (small_ d hd)

/-- The ways to write a word of small letters that are read as one word: as it is, with a capital
in front, and in capitals throughout. -/
def spellings (w : List Char) : List (List Char) := [w, capitalized w, w.map capital]

theorem words_of_mem_spellings {spelled : List Char}
    (small_ : ∀ d ∈ c :: tail, isAsciiLower d = true) (h : spelled ∈ spellings (c :: tail)) :
    words spelled = [spelled] := by
  have first := small_ c List.mem_cons_self
  have others : ∀ d ∈ tail, isAsciiLower d = true := fun d hd =>
    small_ d (List.mem_cons_of_mem c hd)
  simp only [spellings, List.mem_cons, List.not_mem_nil, or_false] at h
  rcases h with rfl | rfl | rfl
  · exact words_of_small (by simp [isAsciiLetter, first]) others
  · exact words_of_small (by simp [isAsciiLetter, isAsciiUpper_capital first]) others
  · exact words_of_capitals fun d hd => isAsciiUpper_of_mem_map_capital small_ hd

theorem camelOf_singleton (w : List Char) :
    camelOf [w] = if isAcronym w then w.map small else uncapitalized w :=
  List.append_nil _

/-- A spelling of a word in small letters becomes that word. -/
theorem camelOf_of_mem_spellings {spelled : List Char}
    (small_ : ∀ d ∈ c :: tail, isAsciiLower d = true) (h : spelled ∈ spellings (c :: tail)) :
    camelOf [spelled] = c :: tail := by
  have first := small_ c List.mem_cons_self
  have noAcronym {d : Char} {v : List Char} (h : d ∈ v) (lower : isAsciiLower d = true) :
      isAcronym v = false := by
    have other : v.all isAsciiUpper = false := by
      refine List.all_eq_false.mpr ⟨d, h, fun upper => ?_⟩
      simp [not_isAsciiLower_of_isAsciiUpper upper] at lower
    rw [isAcronym, other, Bool.and_false]
  have opening : camelOf [capitalized (c :: tail)] = c :: tail := by
    have noAcronym_ : isAcronym (capital c :: tail) = false := by
      cases tail with
      | nil => rfl
      | cons d tail => exact noAcronym (.tail _ (.head _)) (small_ d (.tail _ (.head _)))
    rw [capitalized, camelOf_singleton, noAcronym_, if_neg Bool.false_ne_true, uncapitalized,
      small_capital first]
  simp only [spellings, List.mem_cons, List.not_mem_nil, or_false] at h
  rcases h with rfl | rfl | rfl
  · rw [camelOf_singleton, noAcronym List.mem_cons_self first, if_neg Bool.false_ne_true,
      uncapitalized, small_of_isAsciiLower first]
  · exact opening
  · cases tail with
    | nil => exact opening
    | cons d tail =>
        have upper : ((c :: d :: tail).map capital).all isAsciiUpper = true :=
          List.all_eq_true.mpr fun e he => isAsciiUpper_of_mem_map_capital small_ he
        have acronym : isAcronym ((c :: d :: tail).map capital) = true := by
          rw [isAcronym, upper, Bool.and_true]
          simp
        rw [camelOf_singleton, if_pos acronym, List.map_map]
        exact (List.map_congr_left fun e he => small_capital (small_ e he)).trans (List.map_id _)

/-- The only words that are a word of small letters when they are set together are its
spellings, each of them alone. -/
theorem camelOf_eq_iff (some_ : ∀ w ∈ ws, w ≠ [])
    (small_ : ∀ d ∈ c :: tail, isAsciiLower d = true) :
    camelOf ws = c :: tail ↔ ∃ spelled ∈ spellings (c :: tail), ws = [spelled] := by
  constructor
  · intro h
    cases ws with
    | nil => cases h
    | cons w more =>
        cases more with
        | cons v more =>
            -- A second word would bring a capital or a digit.
            obtain ⟨next, others, rfl⟩ := List.exists_cons_of_ne_nil
              (some_ v (List.mem_cons_of_mem _ List.mem_cons_self))
            have inside : capital next ∈ c :: tail := by
              rw [← h]
              exact List.mem_append_right _ List.mem_cons_self
            exact absurd (small_ _ inside) (by simp [isAsciiLower_capital])
        | nil =>
            rw [camelOf_singleton] at h
            refine ⟨w, ?_, rfl⟩
            split at h
            next acronym =>
              have upper : ∀ d ∈ w, isAsciiUpper d = true := by
                simp only [isAcronym, Bool.and_eq_true, List.all_eq_true] at acronym
                exact acronym.2
              have back : (w.map small).map capital = w := by
                rw [List.map_map]
                exact (List.map_congr_left fun d hd =>
                  (capital_of_isAsciiUpper (upper d hd)).2).trans (List.map_id w)
              rw [← back, h]
              exact .tail _ (.tail _ (.head _))
            next =>
              obtain ⟨d, rest, rfl⟩ := List.exists_cons_of_ne_nil (some_ w List.mem_cons_self)
              obtain ⟨same, rfl⟩ := List.cons.inj h
              rcases (small_eq_iff (small_ c List.mem_cons_self)).mp same with rfl | rfl
              · exact .head _
              · exact .tail _ (.head _)
  · rintro ⟨spelled, h, rfl⟩
    exact camelOf_of_mem_spellings small_ h

/-- A word of small letters is the variable of the names in which one of its spellings stands
alone. -/
theorem camel_eq_iff (name : String) (small_ : ∀ d ∈ c :: tail, isAsciiLower d = true) :
    camel name = String.ofList (c :: tail) ↔
      ∃ spelled ∈ spellings (c :: tail), StandsAlone spelled name.toList := by
  rw [camel, String.ofList_inj, camelOf_eq_iff (fun _ => ne_nil_of_mem_words) small_]
  refine exists_congr fun spelled => and_congr_right fun h => ?_
  exact words_eq_singleton_iff (words_of_mem_spellings small_ h)

end ClientForge.Naming
