import ClientForge.Proofs.Words
import Mathlib.Data.List.Basic

/-!
# Scanning for words

The words of a text can be told from three patterns, which are tried in this order at each place:
capitals that no small letter follows, as many as there can be; small letters, with a capital in
front if there is one and digits behind if there are any; digits. The first pattern gives its last
capital back where a small letter follows, and does not fit if none is left. A place where no
pattern fits is passed over.

The rule for where a word goes on finds the same words. So each word has one of three forms,
words follow one another with nothing but separators between them, and together they are all
letters and digits of the text. A run of letters and digits is never without a word, for each of
its characters is in one.
-/

namespace ClientForge.Naming

open ClientForge.Text

variable {c d : Char} {cs w rest run after : List Char} {ws : List (List Char)}

/-! ## Patterns -/

/-- The forms of a word. -/
inductive IsWordForm : List Char → Prop
  | capitals {w : List Char} (some_ : w ≠ []) (upper : ∀ c ∈ w, isAsciiUpper c = true) :
      IsWordForm w
  /-- Small letters, with at most one capital in front and any digits behind. -/
  | mixed {opening letters digits : List Char} (single : opening.length ≤ 1)
      (upper : ∀ c ∈ opening, isAsciiUpper c = true) (some_ : letters ≠ [])
      (lower : ∀ c ∈ letters, isAsciiLower c = true)
      (digit : ∀ c ∈ digits, isAsciiDigit c = true) : IsWordForm (opening ++ letters ++ digits)
  | digits {w : List Char} (some_ : w ≠ []) (digit : ∀ c ∈ w, isAsciiDigit c = true) : IsWordForm w

/-- Characters of one class at the head of a text, if there are any, and what follows them. -/
def front? (p : Char → Bool) (cs : List Char) : Option (List Char × List Char) :=
  if cs.head?.any p then some (cs.takeWhile p, cs.dropWhile p) else none

/-- Capitals at the head of a text that no small letter follows, as many as there can be, and what
follows them. -/
def capitalsFront? : List Char → Option (List Char × List Char)
  | [] => none
  | c :: rest =>
    if isAsciiUpper c then
      match capitalsFront? rest with
      | some (more, after) => some (c :: more, after)
      | none => if rest.head?.any isAsciiLower then none else some ([c], rest)
    else none

/-- Small letters at the head of a text with the digits behind them, and what follows. -/
def smallFront? (cs : List Char) : Option (List Char × List Char) :=
  (front? isAsciiLower cs).map fun r =>
    (r.1 ++ r.2.takeWhile isAsciiDigit, r.2.dropWhile isAsciiDigit)

/-- The same, with a capital in front if there is one. -/
def openedFront? : List Char → Option (List Char × List Char)
  | [] => none
  | c :: rest =>
    if isAsciiUpper c then (smallFront? rest).map fun r => (c :: r.1, r.2)
    else smallFront? (c :: rest)

/-- The word at the head of a text by the first pattern that fits, and what follows it. -/
def wordFront? (cs : List Char) : Option (List Char × List Char) :=
  ((capitalsFront? cs).or (openedFront? cs)).or (front? isAsciiDigit cs)

/-! ## One word -/

/-- A word with what follows it: it goes on from each of its characters to the next, and from the
last one no further. -/
inductive IsFirstWord (rest : List Char) : List Char → Prop
  | last {c : Char} (word : isWordChar c = true) (ends : goesOn c rest = false) :
      IsFirstWord rest [c]
  | cons {c : Char} {w : List Char} (word : isWordChar c = true)
      (on : goesOn c (w ++ rest) = true) (more : IsFirstWord rest w) : IsFirstWord rest (c :: w)

theorem IsFirstWord.words_eq (h : IsFirstWord rest w) : words (w ++ rest) = w :: words rest := by
  induction h with
  | last word ends =>
      rw [List.singleton_append, words, if_neg (by simp [word]), if_neg (by simp [ends])]
  | cons word on _ ih =>
      rw [List.cons_append, words, if_neg (by simp [word]), if_pos on, ih, attach]

theorem isWordChar_of_isAsciiUpper (h : isAsciiUpper c = true) : isWordChar c = true := by
  simp [isWordChar, isAsciiLetter, h]

theorem isWordChar_of_isAsciiLower (h : isAsciiLower c = true) : isWordChar c = true := by
  simp [isWordChar, isAsciiLetter, h]

theorem isWordChar_of_isAsciiDigit (h : isAsciiDigit c = true) : isWordChar c = true := by
  simp [isWordChar, h]

theorem goesOn_of_isAsciiUpper (upper : isAsciiUpper c = true) (d : Char) (rest : List Char) :
    goesOn c (d :: rest) =
      (isAsciiLower d || (isAsciiUpper d && !rest.head?.any isAsciiLower)) := by
  have digit : isAsciiDigit c = false :=
    isAsciiDigit_of_isAsciiLetter (by simp [isAsciiLetter, upper])
  rw [goesOn, not_isAsciiLower_of_isAsciiUpper upper, digit]
  rfl

theorem goesOn_of_isAsciiLower (lower : isAsciiLower c = true) (d : Char) (rest : List Char) :
    goesOn c (d :: rest) = (isAsciiLower d || isAsciiDigit d) := by
  rw [goesOn, if_pos lower]

theorem goesOn_of_isAsciiDigit (digit : isAsciiDigit c = true) (d : Char) (rest : List Char) :
    goesOn c (d :: rest) = isAsciiDigit d := by
  have lower : isAsciiLower c = false := by
    refine Bool.eq_false_iff.mpr fun lower => ?_
    simp [isAsciiDigit_of_isAsciiLetter (c := c) (by simp [isAsciiLetter, lower])] at digit
  rw [goesOn, lower, digit]
  rfl

/-! ## The word of a pattern -/

theorem front?_eq_some {p : Char → Bool} (h : front? p cs = some (w, rest)) :
    cs = w ++ rest ∧ w ≠ [] ∧ (∀ c ∈ w, p c = true) ∧ ∀ d ∈ rest.head?, p d = false := by
  unfold front? at h
  split at h
  next opens =>
    obtain ⟨rfl, rfl⟩ := Prod.mk.inj (Option.some.inj h)
    refine ⟨List.takeWhile_append_dropWhile.symm, ?_, ?_, ?_⟩
    · intro none_
      cases cs with
      | nil => cases opens
      | cons c cs => simp [show p c = true from opens] at none_
    · exact List.all_eq_true.mp List.all_takeWhile
    · intro d hd
      have stops := List.head?_dropWhile_not p cs
      rwa [hd] at stops
  next => cases h

theorem front?_eq_none {p : Char → Bool} (h : front? p cs = none) : cs.head?.any p = false := by
  unfold front? at h
  split at h
  · cases h
  next none_ => exact Bool.eq_false_iff.mpr none_

/-- Digits that no digit follows are a word. -/
theorem isFirstWord_digits (some_ : w ≠ []) (digit : ∀ c ∈ w, isAsciiDigit c = true)
    (ends : ∀ d ∈ rest.head?, isAsciiDigit d = false) : IsFirstWord rest w := by
  induction w with
  | nil => exact absurd rfl some_
  | cons c w ih =>
      have first := digit c List.mem_cons_self
      have word := isWordChar_of_isAsciiDigit first
      cases w with
      | nil =>
          refine .last word ?_
          cases rest with
          | nil => rfl
          | cons d tail => rw [goesOn_of_isAsciiDigit first, ends d rfl]
      | cons d w =>
          have others : ∀ e ∈ d :: w, isAsciiDigit e = true := fun e he =>
            digit e (List.mem_cons_of_mem c he)
          refine .cons word ?_ (ih (List.cons_ne_nil d w) others)
          rw [List.cons_append, goesOn_of_isAsciiDigit first, others d List.mem_cons_self]

/-- Small letters with digits behind them, as many of both as there can be, are a word. -/
theorem isFirstWord_small {letters digits : List Char} (some_ : letters ≠ [])
    (lower : ∀ c ∈ letters, isAsciiLower c = true) (digit : ∀ c ∈ digits, isAsciiDigit c = true)
    (letterEnds : ∀ d ∈ (digits ++ rest).head?, isAsciiLower d = false)
    (ends : ∀ d ∈ rest.head?, isAsciiDigit d = false) : IsFirstWord rest (letters ++ digits) := by
  induction letters with
  | nil => exact absurd rfl some_
  | cons c letters ih =>
      have first := lower c List.mem_cons_self
      have word := isWordChar_of_isAsciiLower first
      cases letters with
      | cons d letters =>
          have others : ∀ e ∈ d :: letters, isAsciiLower e = true := fun e he =>
            lower e (List.mem_cons_of_mem c he)
          refine .cons word ?_ (ih (List.cons_ne_nil d letters) others)
          exact (goesOn_of_isAsciiLower first d _).trans (by simp [others d List.mem_cons_self])
      | nil =>
          cases digits with
          | nil =>
              refine .last word ?_
              cases rest with
              | nil => rfl
              | cons d tail =>
                  rw [goesOn_of_isAsciiLower first, letterEnds d rfl, ends d rfl]
                  rfl
          | cons d digits =>
              refine .cons word ?_ (isFirstWord_digits (List.cons_ne_nil d digits) digit ends)
              exact (goesOn_of_isAsciiLower first d _).trans (by simp [digit d List.mem_cons_self])

/-- What a pattern finds at the head of a text: a word of one of the forms. -/
structure IsFound (cs w rest : List Char) : Prop where
  whole : cs = w ++ rest
  form : IsWordForm w
  first : IsFirstWord rest w

theorem smallFront?_eq_some (h : smallFront? cs = some (w, rest)) :
    ∃ letters digits, w = letters ++ digits ∧ letters ≠ [] ∧
      (∀ c ∈ letters, isAsciiLower c = true) ∧ (∀ c ∈ digits, isAsciiDigit c = true) ∧
      cs = w ++ rest ∧ IsFirstWord rest w := by
  obtain ⟨⟨letters, tail⟩, found, same⟩ := Option.map_eq_some_iff.mp h
  obtain ⟨rfl, rfl⟩ := Prod.mk.inj same
  obtain ⟨rfl, some_, lower, ends⟩ := front?_eq_some found
  have digit : ∀ c ∈ tail.takeWhile isAsciiDigit, isAsciiDigit c = true :=
    List.all_eq_true.mp List.all_takeWhile
  have whole : tail.takeWhile isAsciiDigit ++ tail.dropWhile isAsciiDigit = tail :=
    List.takeWhile_append_dropWhile
  refine ⟨letters, _, rfl, some_, lower, digit, by rw [List.append_assoc, whole], ?_⟩
  refine isFirstWord_small some_ lower digit (by rwa [whole]) fun d hd => ?_
  have stops := List.head?_dropWhile_not isAsciiDigit tail
  rwa [hd] at stops

theorem isFound_small (h : smallFront? cs = some (w, rest)) : IsFound cs w rest := by
  obtain ⟨letters, digits, rfl, some_, lower, digit, whole, first⟩ := smallFront?_eq_some h
  have none_ : ∀ c ∈ ([] : List Char), isAsciiUpper c = true := fun c hc =>
    absurd hc List.not_mem_nil
  exact ⟨whole, .mixed (show [].length ≤ 1 from Nat.zero_le 1) none_ some_ lower digit, first⟩

/-- A capital in front of small letters belongs to their word. -/
theorem isFound_opened (h : openedFront? cs = some (w, rest)) : IsFound cs w rest := by
  unfold openedFront? at h
  split at h
  · cases h
  next c tail =>
    split at h
    next upper =>
      obtain ⟨⟨more, after⟩, found, same⟩ := Option.map_eq_some_iff.mp h
      obtain ⟨rfl, rfl⟩ := Prod.mk.inj same
      obtain ⟨letters, digits, rfl, some_, lower, digit, rfl, first⟩ := smallFront?_eq_some found
      obtain ⟨d, letters, rfl⟩ := List.exists_cons_of_ne_nil some_
      refine ⟨rfl, ?_, .cons (isWordChar_of_isAsciiUpper upper) ?_ first⟩
      · have single : [c].length ≤ 1 := Nat.le_refl 1
        exact .mixed single (by simpa using upper) some_ lower digit
      · rw [List.append_assoc, List.cons_append, goesOn_of_isAsciiUpper upper,
          lower d List.mem_cons_self, Bool.true_or]
    next => exact isFound_small h

/-- Where capitals are no word, a small letter follows the first of them. -/
theorem capitalsFront?_eq_none (upper : isAsciiUpper c = true)
    (h : capitalsFront? (c :: rest) = none) : rest.head?.any isAsciiLower = true := by
  rw [capitalsFront?, if_pos upper] at h
  split at h
  · cases h
  · split at h
    next small_ => exact small_
    next => cases h

/-- Capitals that no small letter follows are a word. -/
theorem capitalsFront?_eq_some (h : capitalsFront? cs = some (w, rest)) :
    cs = w ++ rest ∧ w ≠ [] ∧ (∀ c ∈ w, isAsciiUpper c = true) ∧ IsFirstWord rest w ∧
      cs.tail.head?.any isAsciiLower = false := by
  fun_induction capitalsFront? cs generalizing w rest with
  | case1 => cases h
  | case2 c tail upper more after front ih =>
      obtain ⟨rfl, rfl⟩ := Prod.mk.inj (Option.some.inj h)
      obtain ⟨rfl, some_, uppers, first, inner⟩ := ih front
      obtain ⟨d, more, rfl⟩ := List.exists_cons_of_ne_nil some_
      have next := uppers d List.mem_cons_self
      refine ⟨rfl, List.cons_ne_nil c _, by simpa [upper] using uppers,
        .cons (isWordChar_of_isAsciiUpper upper) ?_ first,
        not_isAsciiLower_of_isAsciiUpper next⟩
      -- Behind the next capital there is no small letter, or it would not have fitted.
      have plain : (more ++ _).head?.any isAsciiLower = false := inner
      rw [List.cons_append, goesOn_of_isAsciiUpper upper, next, plain, Bool.not_false,
        Bool.and_true, Bool.or_true]
  | case3 c tail upper none_ small_ _ => cases h
  | case4 c tail upper none_ plain _ =>
      obtain ⟨rfl, rfl⟩ := Prod.mk.inj (Option.some.inj h)
      have plain := Bool.eq_false_iff.mpr plain
      refine ⟨rfl, List.cons_ne_nil c _, by simpa using upper,
        .last (isWordChar_of_isAsciiUpper upper) ?_, plain⟩
      cases tail with
      | nil => rfl
      | cons d tail =>
          have lower : isAsciiLower d = false := plain
          rw [goesOn_of_isAsciiUpper upper, lower, Bool.false_or]
          cases next : isAsciiUpper d with
          | false => rfl
          | true => rw [capitalsFront?_eq_none next none_, Bool.not_true, Bool.and_false]
  | case5 c tail upper => cases h

/-- What one of the patterns finds is the first word. -/
theorem isFound_wordFront (h : wordFront? cs = some (w, rest)) : IsFound cs w rest := by
  rcases Option.or_eq_some_iff.mp h with h | ⟨-, h⟩
  · rcases Option.or_eq_some_iff.mp h with h | ⟨-, h⟩
    · obtain ⟨whole, some_, upper, first, -⟩ := capitalsFront?_eq_some h
      exact ⟨whole, .capitals some_ upper, first⟩
    · exact isFound_opened h
  · obtain ⟨whole, some_, digit, ends⟩ := front?_eq_some h
    exact ⟨whole, .digits some_ digit, isFirstWord_digits some_ digit ends⟩

/-- Where no pattern fits there is no letter and no digit. -/
theorem isWordChar_of_wordFront?_eq_none (h : wordFront? (c :: rest) = none) :
    isWordChar c = false := by
  obtain ⟨letters, digits⟩ := Option.or_eq_none_iff.mp h
  obtain ⟨capitals, opened⟩ := Option.or_eq_none_iff.mp letters
  have digit : isAsciiDigit c = false := front?_eq_none digits
  rw [isWordChar_eq_false_iff]
  cases upper : isAsciiUpper c with
  | false =>
      rw [openedFront?, if_neg (by simp [upper])] at opened
      exact ⟨rfl, front?_eq_none (Option.map_eq_none_iff.mp opened), digit⟩
  | true =>
      -- A capital is a word by itself, or a small letter follows it.
      rw [openedFront?, if_pos upper, Option.map_eq_none_iff] at opened
      have small_ := front?_eq_none (Option.map_eq_none_iff.mp opened)
      rw [capitalsFront?_eq_none upper capitals] at small_
      cases small_

/-! ## The scan -/

theorem IsFirstWord.ne_nil (h : IsFirstWord rest w) : w ≠ [] := by
  cases h <;> exact List.cons_ne_nil _ _

/-- The words that a scan from the left finds. -/
def found : List Char → List (List Char)
  | [] => []
  | c :: rest =>
    match _h : wordFront? (c :: rest) with
    | some (w, after) => w :: found after
    | none => found rest
termination_by cs => cs.length
decreasing_by
  · have whole := (isFound_wordFront _h).whole
    have some_ := List.length_pos_iff.mpr (isFound_wordFront _h).first.ne_nil
    rw [whole, List.length_append]
    omega
  · exact Nat.lt_succ_self _

/-- The scan finds the words. -/
theorem found_eq (cs : List Char) : found cs = words cs := by
  fun_induction found cs with
  | case1 => rfl
  | case2 c rest w after front ih =>
      have here := isFound_wordFront front
      rw [here.whole, here.first.words_eq, ih]
  | case3 c rest none_ ih =>
      rw [words, if_pos (by simp [isWordChar_of_wordFront?_eq_none none_]), ih]

/-- Words in a text with nothing but separators before, between and behind them. -/
inductive Spaced : List (List Char) → List Char → Prop
  | nil {gap : List Char} (separators : AreSeparators gap) : Spaced [] gap
  | cons {gap w rest : List Char} {ws : List (List Char)} (separators : AreSeparators gap)
      (more : Spaced ws rest) : Spaced (w :: ws) (gap ++ w ++ rest)

/-- A separator in front belongs to the gap before the first word. -/
theorem Spaced.cons_separator (sign : isWordChar c = false) (h : Spaced ws cs) :
    Spaced ws (c :: cs) := by
  have longer {gap : List Char} (separators : AreSeparators gap) : AreSeparators (c :: gap) := by
    intro d hd
    rcases List.mem_cons.mp hd with rfl | hd
    · exact sign
    · exact separators d hd
  cases h with
  | nil separators => exact .nil (longer separators)
  | cons separators more => exact .cons (longer separators) more

theorem spaced_found (cs : List Char) : Spaced (found cs) cs := by
  fun_induction found cs with
  | case1 => exact .nil areSeparators_nil
  | case2 c rest w after front ih =>
      rw [(isFound_wordFront front).whole]
      exact (Spaced.cons areSeparators_nil ih : Spaced _ ([] ++ w ++ after))
  | case3 c rest none_ ih => exact ih.cons_separator (isWordChar_of_wordFront?_eq_none none_)

theorem isWordForm_of_mem_found (h : w ∈ found cs) : IsWordForm w := by
  fun_induction found cs with
  | case1 => cases h
  | case2 c rest v after front ih =>
      rcases List.mem_cons.mp h with rfl | h
      · exact (isFound_wordFront front).form
      · exact ih h
  | case3 c rest none_ ih => exact ih h

/-- Each word has one of the forms. -/
theorem isWordForm_of_mem_words (h : w ∈ words cs) : IsWordForm w :=
  isWordForm_of_mem_found (found_eq cs ▸ h)

/-! ## Runs of letters and digits -/

/-- A text that begins with a letter or a digit begins with a run. -/
theorem runs_of_isWordChar (h : cs.head?.any isWordChar = true) :
    runs cs = cs.takeWhile isWordChar :: runs (cs.dropWhile isWordChar) := by
  induction cs with
  | nil => cases h
  | cons c rest ih =>
      have word : isWordChar c = true := h
      rw [runs, if_neg (by simp [word]), List.takeWhile_cons_of_pos word,
        List.dropWhile_cons_of_pos word]
      split
      next more => rw [ih more, attach]
      next ends =>
        cases rest with
        | nil => rfl
        | cons d rest =>
            have sign : ¬ isWordChar d = true := ends
            rw [List.takeWhile_cons_of_neg sign, List.dropWhile_cons_of_neg sign]

/-- The words of a text are those of its runs. -/
theorem words_eq_flatMap_runs (cs : List Char) : words cs = (runs cs).flatMap words := by
  induction length : cs.length using Nat.strongRecOn generalizing cs with
  | _ n ih =>
      cases cs with
      | nil => rfl
      | cons c rest =>
          cases word : isWordChar c with
          | false =>
              rw [words, if_pos (by simp [word]), runs, if_pos (by simp [word])]
              exact ih rest.length (by simp [← length]) rest rfl
          | true =>
              have whole : (c :: rest).takeWhile isWordChar ++ (c :: rest).dropWhile isWordChar =
                  c :: rest := List.takeWhile_append_dropWhile
              have separated : ∀ d ∈ ((c :: rest).dropWhile isWordChar).head?,
                  isWordChar d = false := by
                intro d hd
                have stops := List.head?_dropWhile_not isWordChar (c :: rest)
                rwa [hd] at stops
              have shorter : ((c :: rest).dropWhile isWordChar).length < n := by
                rw [← length, List.dropWhile_cons_of_pos word, List.length_cons]
                exact Nat.lt_succ_of_le (List.dropWhile_sublist _).length_le
              have opens : (c :: rest).head?.any isWordChar = true := word
              rw [runs_of_isWordChar opens, List.flatMap_cons, ← ih _ shorter _ rfl,
                ← words_append separated, whole]

theorem ne_nil_of_mem_runs (h : run ∈ runs cs) : run ≠ [] := by
  fun_induction runs cs generalizing run with
  | case1 => cases h
  | case2 _ _ _ ih => exact ih h
  | case3 c rest _ _ ih =>
      cases cut : runs rest with
      | nil =>
          rw [cut] at h
          simp [List.mem_singleton.mp h]
      | cons first more =>
          rw [cut] at h ih
          rcases List.mem_cons.mp h with rfl | h
          · exact List.cons_ne_nil c first
          · exact ih (List.mem_cons_of_mem first h)
  | case4 c rest _ _ ih =>
      rcases List.mem_cons.mp h with rfl | h
      · exact List.cons_ne_nil c []
      · exact ih h

/-- A run is never without a word. -/
theorem found_ne_nil_of_mem_runs (h : run ∈ runs cs) : found run ≠ [] := by
  rw [found_eq, Ne, words_eq_nil_iff]
  intro separators
  obtain ⟨c, rest, rfl⟩ := List.exists_cons_of_ne_nil (ne_nil_of_mem_runs h)
  have word := isWordChar_of_mem_runs h List.mem_cons_self
  simp [separators c List.mem_cons_self] at word

/-- The words of a run, and the run itself if it has none. -/
def foundOrRun (run : List Char) : List (List Char) :=
  if found run = [] then [run] else found run

/-- Splitting a name into words loses nothing: the words are its letters and digits in their
order, each in one of the forms, with nothing but separators between them. They are what a scan
finds in the runs of the name, and no run is taken as a word for want of one. -/
theorem splitWords_loses_nothing (name : String) :
    String.join (splitWords name) = String.ofList (name.toList.filter isWordChar) ∧
    (∀ w ∈ splitWords name, w ≠ "" ∧ IsWordForm w.toList) ∧
    Spaced ((splitWords name).map (·.toList)) name.toList ∧
    splitWords name = ((runs name.toList).flatMap foundOrRun).map String.ofList ∧
    ∀ run ∈ runs name.toList, found run ≠ [] := by
  have lists : (splitWords name).map (·.toList) = words name.toList := by
    rw [splitWords, List.map_map]
    exact (List.map_congr_left fun w _ => String.toList_ofList).trans (List.map_id _)
  have scanned : (runs name.toList).flatMap foundOrRun = words name.toList := by
    rw [words_eq_flatMap_runs]
    refine List.flatMap_congr fun run h => ?_
    rw [foundOrRun, if_neg (found_ne_nil_of_mem_runs h), found_eq]
  refine ⟨?_, ?_, ?_, ?_, fun run h => found_ne_nil_of_mem_runs h⟩
  · rw [← String.toList_inj, String.toList_join, String.toList_ofList, ← flatten_words, ← lists]
    rfl
  · intro w hw
    have inside : w.toList ∈ words name.toList := lists ▸ List.mem_map_of_mem hw
    exact ⟨mt String.toList_eq_nil_iff.mpr (ne_nil_of_mem_words inside),
      isWordForm_of_mem_words inside⟩
  · rw [lists, ← found_eq]
    exact spaced_found _
  · rw [scanned, splitWords]

/-- The capital in front of small letters is theirs, and digits in front of letters stand alone. -/
example : splitWords "getURLPath2-4fa_OK" = ["get", "URL", "Path2", "4", "fa", "OK"] := by decide

end ClientForge.Naming
