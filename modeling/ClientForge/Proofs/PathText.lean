import ClientForge.Proofs.Naming
import ClientForge.FilePath

/-!
# Paths and their texts

A path that was read from a text, or put together from such paths, is what its own text
reads as: its parts are neither empty nor single dots and hold no slash, and before them
stands nothing, one slash or two.
-/

namespace ClientForge

open ClientForge.Text

/-- The pieces of a text hold no separator. -/
theorem Text.notMem_of_mem_splitAt {sep : Char} {cs piece : List Char}
    (h : piece ∈ splitAt sep cs) : sep ∉ piece := by
  induction cs generalizing piece with
  | nil =>
      obtain rfl := List.mem_singleton.mp h
      exact List.not_mem_nil
  | cons c rest ih =>
      by_cases same : c = sep
      · rw [splitAt, if_pos same] at h
        rcases List.mem_cons.mp h with rfl | h
        · exact List.not_mem_nil
        · exact ih h
      · obtain ⟨first, more, cut, whole⟩ := splitAt_cons_of_ne same rest
        rw [cut] at ih
        rw [whole] at h
        rcases List.mem_cons.mp h with rfl | h
        · rw [List.mem_cons, not_or]
          exact ⟨Ne.symm same, ih List.mem_cons_self⟩
        · exact ih (List.mem_cons_of_mem _ h)

/-- A text is cut into the parts that it was joined from. -/
theorem Text.split_intercalate {part : String} {more : List String}
    (h : ∀ p ∈ part :: more, '/' ∉ p.toList) :
    split '/' ("/".intercalate (part :: more)) = part :: more := by
  induction more generalizing part with
  | nil => rw [String.intercalate_singleton, split_of_notMem (h part List.mem_cons_self)]
  | cons next more ih =>
      rw [List.forall_mem_cons] at h
      rw [String.intercalate_cons_cons]
      exact (split_append h.1).trans (congrArg _ (ih h.2))

namespace FilePath

variable {p q : FilePath} {s : String}

/-- What stands before the parts of a path. -/
def roots : List String := ["", "/", "//"]

/-- A path that a text can give. -/
structure Readable (p : FilePath) : Prop where
  root : p.root ∈ roots
  parts : ∀ part ∈ p.parts, isPart part = true ∧ '/' ∉ part.toList

theorem readable_ofText (s : String) : (ofText s).Readable where
  root := by
    change rootOf s.toList ∈ roots
    unfold rootOf
    split <;> decide
  parts := by
    intro part h
    obtain ⟨piece, isPart⟩ := List.mem_filter.mp h
    obtain ⟨cs, cut, rfl⟩ := List.mem_map.mp piece
    exact ⟨isPart, by simpa using notMem_of_mem_splitAt cut⟩

namespace Readable

theorem parent (h : p.Readable) : p.parent.Readable where
  root := h.root
  parts part hp := h.parts part ((List.dropLast_sublist p.parts).subset hp)

theorem append (h : p.Readable) {parts : List String}
    (more : ∀ part ∈ parts, isPart part = true ∧ '/' ∉ part.toList) :
    Readable ⟨p.root, p.parts ++ parts⟩ where
  root := h.root
  parts part hp := (List.mem_append.mp hp).elim (h.parts part) (more part)

theorem join (h : p.Readable) (h' : q.Readable) : (p.join q).Readable := by
  unfold FilePath.join
  split
  · exact h'
  · exact h.append h'.parts

theorem child (h : p.Readable) (s : String) : (p.child s).Readable := h.join (readable_ofText s)

end Readable

/-- A root stands apart from what follows it. -/
theorem rootOf_append {root : String} {cs : List Char} (h : root ∈ roots)
    (plain : cs.head? ≠ some '/') : rootOf (root.toList ++ cs) = root := by
  simp only [roots, List.mem_cons, List.not_mem_nil, or_false] at h
  cases cs with
  | nil => rcases h with rfl | rfl | rfl <;> decide
  | cons c cs =>
      have other : c ≠ '/' := by simpa using plain
      rcases h with rfl | rfl | rfl <;> simp [rootOf, other]

/-- A root adds only parts that are dropped. -/
theorem filter_split_append {root : String} (h : root ∈ roots) (s : String) :
    (split '/' (root ++ s)).filter isPart = (split '/' s).filter isPart := by
  have slash (t : String) : (split '/' ("/" ++ t)).filter isPart = (split '/' t).filter isPart := by
    have cut : split '/' ("" ++ String.singleton '/' ++ t) = "" :: split '/' t :=
      split_append (by decide)
    rw [String.empty_append] at cut
    exact (congrArg _ cut).trans (List.filter_cons_of_neg (by decide))
  simp only [roots, List.mem_cons, List.not_mem_nil, or_false] at h
  rcases h with rfl | rfl | rfl
  · rw [String.empty_append]
  · exact slash s
  · have twice : "//" ++ s = "/" ++ ("/" ++ s) := by
      rw [← String.append_assoc]
      rfl
    rw [twice, slash, slash]

namespace Readable

variable {root part : String} {more : List String}

/-- The parts of a readable path that has some are those of their joined text. -/
theorem split_joined (h : Readable ⟨root, part :: more⟩) :
    split '/' ("/".intercalate (part :: more)) = part :: more :=
  split_intercalate fun p hp => (h.parts p hp).2

theorem joined_ne_empty (h : Readable ⟨root, part :: more⟩) :
    "/".intercalate (part :: more) ≠ "" := by
  intro empty
  have cut := h.split_joined
  rw [empty] at cut
  obtain rfl : "" = part := (List.cons.inj cut).1
  exact absurd (h.parts "" List.mem_cons_self).1 (by decide)

theorem text_eq (h : Readable ⟨root, part :: more⟩) :
    text ⟨root, part :: more⟩ = root ++ "/".intercalate (part :: more) := by
  have filled : root ++ "/".intercalate (part :: more) ≠ "" :=
    fun empty => h.joined_ne_empty (String.append_eq_empty_iff.mp empty).2
  rw [text, if_neg (by simpa using filled)]

/-- The text of a readable path reads as that path. -/
theorem ofText_text (h : p.Readable) : ofText p.text = p := by
  obtain ⟨root, parts⟩ := p
  cases parts with
  | nil =>
      have root' := h.root
      simp only [roots, List.mem_cons, List.not_mem_nil, or_false] at root'
      rcases root' with rfl | rfl | rfl <;> decide
  | cons part more =>
      have cut := h.split_joined
      have some_ : part ≠ "" := by
        rintro rfl
        exact absurd (h.parts "" List.mem_cons_self).1 (by decide)
      have head : ("/".intercalate (part :: more)).toList.head? ≠ some '/' := by
        rw [head?_of_split cut some_]
        exact fun first => (h.parts part List.mem_cons_self).2 (List.mem_of_mem_head? first)
      rw [h.text_eq, ofText, String.toList_append, rootOf_append h.root head,
        filter_split_append h.root, cut, List.filter_eq_self.mpr fun p hp => (h.parts p hp).1]

/-- The text of a readable path has no two slashes behind a part. -/
theorem not_startsWith {scheme : String} (h : p.Readable) (plain : '/' ∉ scheme.toList)
    (some_ : scheme ≠ "") : startsWith p.text (scheme ++ "//") = false := by
  rw [← Bool.not_eq_true, startsWith, List.isPrefixOf_iff_prefix]
  rintro ⟨rest, whole⟩
  rw [String.toList_append, List.append_assoc] at whole
  obtain ⟨c, cs, chars⟩ : ∃ c cs, scheme.toList = c :: cs :=
    List.exists_cons_of_ne_nil (mt String.toList_eq_nil_iff.mp some_)
  obtain ⟨root, parts⟩ := p
  have root' := h.root
  simp only [roots, List.mem_cons, List.not_mem_nil, or_false] at root'
  cases parts with
  | nil =>
      have long : 3 ≤ (text ⟨root, []⟩).toList.length := by
        have two : "//".toList.length = 2 := rfl
        rw [← whole, chars]
        simp only [List.length_append, List.length_cons, two]
        omega
      rcases root' with rfl | rfl | rfl <;> exact absurd long (by decide)
  | cons part more =>
      rw [h.text_eq, String.toList_append] at whole
      rcases root' with rfl | rfl | rfl
      · have joined : "/".intercalate (part :: more) =
            scheme ++ String.singleton '/' ++ (String.singleton '/' ++ String.ofList rest) := by
          rw [← String.toList_inj]
          simpa using whole.symm
        have cut := h.split_joined
        rw [joined, split_append plain] at cut
        have empty : split '/' ("" ++ String.singleton '/' ++ String.ofList rest) =
            "" :: split '/' (String.ofList rest) := split_append (by simp)
        rw [String.empty_append] at empty
        rw [empty] at cut
        have absent : "" ∈ part :: more := cut ▸ List.mem_cons_of_mem _ List.mem_cons_self
        exact absurd (h.parts "" absent).1 (by decide)
      all_goals
        rw [chars] at whole plain
        have first : c = '/' := (List.cons.inj whole).1
        exact plain (first ▸ List.mem_cons_self)

end Readable

end FilePath

end ClientForge
