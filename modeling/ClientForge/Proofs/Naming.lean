import ClientForge.Naming.Resolver

/-!
# Letters and digits of generated names

The words of a name consist of ASCII letters and digits, and so does every class that
is made from them. A class name therefore holds no slash, so the path of its file has
the folders that it was given and nothing else.
-/

namespace ClientForge

namespace Text

variable {sep : Char} {piece rest : List Char}

/-- A piece without the separator is not cut. -/
theorem splitAt_of_notMem (h : sep ∉ piece) : splitAt sep piece = [piece] := by
  induction piece with
  | nil => rfl
  | cons c piece ih =>
      rw [List.mem_cons, not_or] at h
      rw [splitAt, if_neg (Ne.symm h.1), ih h.2]

theorem splitAt_ne_nil (sep : Char) (cs : List Char) : splitAt sep cs ≠ [] := by
  cases cs with
  | nil => simp [splitAt]
  | cons c rest =>
      rw [splitAt]
      split
      · simp
      · split <;> simp

/-- What is no separator stands at the head of the first piece. -/
theorem splitAt_cons_of_ne {c : Char} (other : c ≠ sep) (cs : List Char) : ∃ piece more,
    splitAt sep cs = piece :: more ∧ splitAt sep (c :: cs) = (c :: piece) :: more := by
  obtain ⟨piece, more, cut⟩ := List.exists_cons_of_ne_nil (splitAt_ne_nil sep cs)
  exact ⟨piece, more, cut, by rw [splitAt, if_neg other, cut]⟩

/-- Cutting leaves out separators and nothing else. -/
theorem sublist_of_mem_splitAt {cs : List Char} (h : piece ∈ splitAt sep cs) :
    piece.Sublist cs := by
  induction cs generalizing piece with
  | nil =>
      obtain rfl := List.mem_singleton.mp h
      exact List.Sublist.refl _
  | cons c rest ih =>
      by_cases same : c = sep
      · rw [splitAt, if_pos same] at h
        rcases List.mem_cons.mp h with rfl | h
        · exact List.nil_sublist _
        · exact (ih h).cons c
      · obtain ⟨first, more, cut, whole⟩ := splitAt_cons_of_ne same rest
        rw [cut] at ih
        rw [whole] at h
        rcases List.mem_cons.mp h with rfl | h
        · exact (ih List.mem_cons_self).cons_cons c
        · exact (ih (List.mem_cons_of_mem _ h)).cons c

/-- A text is cut at each separator on its own. -/
theorem splitAt_append_cons (sep : Char) (cs rest : List Char) :
    splitAt sep (cs ++ sep :: rest) = splitAt sep cs ++ splitAt sep rest := by
  induction cs with
  | nil => simp [splitAt]
  | cons c cs ih =>
      by_cases same : c = sep
      · rw [List.cons_append, splitAt, if_pos same, splitAt, if_pos same, ih, List.cons_append]
      · obtain ⟨piece, more, cut, whole⟩ := splitAt_cons_of_ne same cs
        rw [List.cons_append, splitAt, if_neg same, ih, cut, whole]
        rfl

/-- The first piece ends at the first separator. -/
theorem splitAt_append (h : sep ∉ piece) :
    splitAt sep (piece ++ sep :: rest) = piece :: splitAt sep rest := by
  rw [splitAt_append_cons, splitAt_of_notMem h, List.singleton_append]

theorem split_of_notMem {s : String} (h : sep ∉ s.toList) : split sep s = [s] := by
  rw [split, splitAt_of_notMem h, List.map_singleton, String.ofList_toList]

theorem split_append {s t : String} (h : sep ∉ s.toList) :
    split sep (s ++ String.singleton sep ++ t) = s :: split sep t := by
  have shape : (s ++ String.singleton sep ++ t).toList = s.toList ++ sep :: t.toList := by simp
  rw [split, split, shape, splitAt_append h, List.map_cons, String.ofList_toList]

theorem mem_joinWith {sep : List Char} {pieces : List (List Char)} {c : Char}
    (h : c ∈ joinWith sep pieces) : c ∈ sep ∨ ∃ piece ∈ pieces, c ∈ piece := by
  fun_induction joinWith sep pieces with
  | case1 => cases h
  | case2 piece => exact .inr ⟨piece, List.mem_cons_self, h⟩
  | case3 piece more _ ih =>
      rw [List.mem_append, List.mem_append] at h
      rcases h with (h | h) | h
      · exact .inr ⟨piece, List.mem_cons_self, h⟩
      · exact .inl h
      · rcases ih h with h | ⟨other, ho, h⟩
        · exact .inl h
        · exact .inr ⟨other, List.mem_cons_of_mem piece ho, h⟩

/-- A text opens as its first piece does, unless that is empty. -/
theorem head?_of_split {s first : String} {others : List String}
    (h : split sep s = first :: others) (hf : first ≠ "") :
    s.toList.head? = first.toList.head? := by
  rw [split] at h
  cases chars : s.toList with
  | nil =>
      rw [chars] at h
      exact absurd (List.cons.inj h).1.symm hf
  | cons c tail =>
      rw [chars, splitAt] at h
      split at h
      · exact absurd (List.cons.inj h).1.symm hf
      · split at h <;> · rw [← (List.cons.inj h).1, String.toList_ofList]; rfl

/-- The codes of capitals are bounded, so that what holds of each of them can be tried. -/
theorem exists_code_of_isAsciiUpper {c : Char} (upper : isAsciiUpper c = true) :
    ∃ n < 91, 65 ≤ n ∧ c = Char.ofNat n := by
  simp only [isAsciiUpper, Bool.and_eq_true, decide_eq_true_eq] at upper
  exact ⟨c.toNat, Nat.lt_succ_of_le upper.2, upper.1, (Char.ofNat_toNat c).symm⟩

theorem exists_code_of_isAsciiLower {c : Char} (lower : isAsciiLower c = true) :
    ∃ n < 123, 97 ≤ n ∧ c = Char.ofNat n := by
  simp only [isAsciiLower, Bool.and_eq_true, decide_eq_true_eq] at lower
  exact ⟨c.toNat, Nat.lt_succ_of_le lower.2, lower.1, (Char.ofNat_toNat c).symm⟩

end Text

namespace Naming

open ClientForge.Text

/-- Only a small letter is changed into a capital. -/
theorem capital_eq_self {c : Char} (h : isAsciiLower c = false) : capital c = c :=
  if_neg (by simp [h])

/-- Only a capital is made small. -/
theorem small_eq_self {c : Char} (h : isAsciiUpper c = false) : small c = c :=
  if_neg (by simp [h])

theorem isWordChar_capital {c : Char} (h : isWordChar c = true) :
    isWordChar (capital c) = true := by
  cases lower : isAsciiLower c with
  | true =>
      obtain ⟨n, high, low, rfl⟩ := exists_code_of_isAsciiLower lower
      revert n
      decide
  | false => rwa [capital_eq_self lower]

theorem isWordChar_small {c : Char} (h : isWordChar c = true) : isWordChar (small c) = true := by
  cases upper : isAsciiUpper c with
  | true =>
      obtain ⟨n, high, low, rfl⟩ := exists_code_of_isAsciiUpper upper
      revert n
      decide
  | false => rwa [small_eq_self upper]

/-- A character that is set before the first of some words is the only new one. -/
theorem eq_or_mem_of_mem_attach {c d : Char} {ws : List (List Char)} {w : List Char}
    (hw : w ∈ attach c ws) (hd : d ∈ w) : d = c ∨ ∃ v ∈ ws, d ∈ v := by
  cases ws with
  | nil =>
      obtain rfl := List.mem_singleton.mp hw
      exact .inl (List.mem_singleton.mp hd)
  | cons v more =>
      rcases List.mem_cons.mp hw with rfl | hw
      · rcases List.mem_cons.mp hd with rfl | hd
        · exact .inl rfl
        · exact .inr ⟨v, List.mem_cons_self, hd⟩
      · exact .inr ⟨w, List.mem_cons_of_mem v hw, hd⟩

theorem isWordChar_of_mem_words {cs w : List Char} {c : Char} (hw : w ∈ words cs) (hc : c ∈ w) :
    isWordChar c = true := by
  fun_induction words cs generalizing w with
  | case1 => cases hw
  | case2 _ _ _ ih => exact ih hw hc
  | case3 d rest word _ ih =>
      rcases eq_or_mem_of_mem_attach hw hc with rfl | ⟨v, hv, hc⟩
      · simpa using word
      · exact ih hv hc
  | case4 d rest word _ ih =>
      rcases List.mem_cons.mp hw with rfl | hw
      · obtain rfl := List.mem_singleton.mp hc
        simpa using word
      · exact ih hw hc

theorem isWordChar_of_mem_runs {cs run : List Char} {c : Char} (hr : run ∈ runs cs)
    (hc : c ∈ run) : isWordChar c = true := by
  fun_induction runs cs generalizing run with
  | case1 => cases hr
  | case2 _ _ _ ih => exact ih hr hc
  | case3 d rest word _ ih =>
      rcases eq_or_mem_of_mem_attach hr hc with rfl | ⟨v, hv, hc⟩
      · simpa using word
      · exact ih hv hc
  | case4 d rest word _ ih =>
      rcases List.mem_cons.mp hr with rfl | hr
      · obtain rfl := List.mem_singleton.mp hc
        simpa using word
      · exact ih hr hc

theorem isWordChar_of_mem_pascalOf {ws : List (List Char)} {c : Char}
    (words_ : ∀ w ∈ ws, ∀ d ∈ w, isWordChar d = true) (h : c ∈ pascalOf ws) :
    isWordChar c = true := by
  obtain ⟨w, hw, hc⟩ := List.mem_flatMap.mp h
  cases w with
  | nil => cases hc
  | cons d w =>
      rcases List.mem_cons.mp hc with rfl | hc
      · exact isWordChar_capital (words_ _ hw d List.mem_cons_self)
      · exact words_ _ hw c (List.mem_cons_of_mem d hc)

/-- A class name consists of letters and digits. -/
theorem isWordChar_of_mem_pascal {name : String} {c : Char} (h : c ∈ (pascal name).toList) :
    isWordChar c = true := by
  rw [pascal, String.toList_ofList] at h
  exact isWordChar_of_mem_pascalOf (fun w hw d hd => isWordChar_of_mem_words hw hd) h

/-- Whether a name consists of letters and digits. -/
def IsWord (name : String) : Prop := ∀ c ∈ name.toList, isWordChar c = true

instance (name : String) : Decidable (IsWord name) :=
  decidable_of_iff (name.toList.all isWordChar = true) List.all_eq_true

theorem IsWord.notMem {name : String} (h : IsWord name) {c : Char} (other : isWordChar c = false) :
    c ∉ name.toList := by
  intro hc
  simp [h c hc] at other

theorem IsWord.append {name more : String} (h : IsWord name) (hm : IsWord more) :
    IsWord (name ++ more) := by
  intro c hc
  rw [String.toList_append, List.mem_append] at hc
  exact hc.elim (h c) (hm c)

theorem isWord_className (name : String) : IsWord (className name) := fun _ h =>
  isWordChar_of_mem_pascal h

theorem isWord_clientClass (client : String) : IsWord (clientClass client) :=
  (isWord_className client).append (by decide)

theorem isWord_camel (name : String) : IsWord (camel name) := by
  intro c hc
  rw [camel, String.toList_ofList] at hc
  have words_ (w) (hw : w ∈ words name.toList) (d) (hd : d ∈ w) : isWordChar d = true :=
    isWordChar_of_mem_words hw hd
  cases ws : words name.toList with
  | nil =>
      rw [ws] at hc
      cases hc
  | cons first rest =>
      rw [ws] at hc words_
      have head (d) (hd : d ∈ first) := words_ first List.mem_cons_self d hd
      rcases List.mem_append.mp hc with hc | hc
      · split at hc
        · obtain ⟨d, hd, rfl⟩ := List.mem_map.mp hc
          exact isWordChar_small (head d hd)
        · cases first with
          | nil => cases hc
          | cons d first =>
              rcases List.mem_cons.mp hc with rfl | hc
              · exact isWordChar_small (head d List.mem_cons_self)
              · exact head c (List.mem_cons_of_mem d hc)
      · exact isWordChar_of_mem_pascalOf (fun w hw => words_ w (List.mem_cons_of_mem first hw)) hc

theorem isWord_variableName (l : Language) (name : String) : IsWord (variableName l name) := by
  have plain : IsWord (if camel name == "" then "value" else camel name) := by
    split
    · decide
    · exact isWord_camel name
  have front : IsWord "value" := by decide
  have back : IsWord "Value" := by decide
  unfold variableName
  dsimp only
  generalize (if camel name == "" then "value" else camel name) = base at plain ⊢
  split
  · exact front.append plain
  · split
    · exact plain.append back
    · exact plain

/-- The class of a client ends as the word does. -/
theorem clientClass_ne {name : String} (h : name.toList.getLast? ≠ some 't') (client : String) :
    clientClass client ≠ name := by
  rintro rfl
  exact h (by simp [clientClass])

theorem slash_notMem_className (name : String) : '/' ∉ (className name).toList :=
  (isWord_className name).notMem (by decide)

theorem slash_notMem_clientClass (client : String) : '/' ∉ (clientClass client).toList :=
  (isWord_clientClass client).notMem (by decide)

/-- The parts of the path of a class are its folders and its file. -/
theorem split_sourcePath (l : Language) {folder name : String} (hf : '/' ∉ folder.toList)
    (hn : '/' ∉ name.toList) :
    split '/' (sourcePath l folder name) = ["src", folder, name ++ "." ++ extension l] := by
  have parts : sourcePath l folder name =
      "src" ++ String.singleton '/' ++ (folder ++ String.singleton '/' ++
        (name ++ "." ++ extension l)) := by
    simp [sourcePath, String.append_assoc]
  have file : '/' ∉ (name ++ "." ++ extension l).toList := by
    cases l <;> simpa [extension] using hn
  rw [parts, split_append (by decide), split_append hf, split_of_notMem file]

end Naming

end ClientForge
