import ClientForge.Text.Literal

/-!
# Reading literals

What is written as a literal is read as the same text, and the source behind the literal is
left as it is, whatever it holds. A literal is never empty, so reading one takes something
off the source. What is read off a source stays the same when the source goes on, so a
literal cannot end earlier than where it was meant to end, and two texts have different
literals, of which none is the beginning of the other.
-/

namespace ClientForge.Text.Literal

variable {cs rest text after front : List Char} {c d : Char}

theorem readBody_cons_of_ne (quote : c ≠ '\x27') (escape_ : c ≠ '\x5c') (rest : List Char) :
    readBody (c :: rest) = (readBody rest).map fun r => (c :: r.1, r.2) := by
  simp [readBody, escape_]

theorem readBody_escape (cs rest : List Char) :
    readBody (escape cs ++ '\x27' :: rest) = some (cs, rest) := by
  induction cs with
  | nil => rfl
  | cons c cs ih =>
      by_cases quote : c = '\x27'
      · subst quote
        change (readBody (escape cs ++ '\x27' :: rest)).map _ = _
        rw [ih]
        rfl
      · by_cases escape_ : c = '\x5c'
        · subst escape_
          change (readBody (escape cs ++ '\x27' :: rest)).map _ = _
          rw [ih]
          rfl
        · rw [escape, if_neg (not_or.mpr ⟨quote, escape_⟩), List.cons_append,
            readBody_cons_of_ne quote escape_, ih]
          rfl

/-- Reading undoes writing and leaves what follows. -/
theorem read_write (cs rest : List Char) : read (write cs ++ rest) = some (cs, rest) := by
  rw [write, List.cons_append, List.append_assoc, List.singleton_append, read, readBody_escape]

theorem read_quote (s : String) (rest : List Char) :
    read ((quote s).toList ++ rest) = some (s.toList, rest) := by
  rw [quote, String.toList_ofList, read_write]

/-- A literal starts with a quote. -/
theorem read_eq_none (h : cs.head? ≠ some '\x27') : read cs = none := by
  unfold read
  split
  · exact absurd rfl h
  · rfl

theorem length_readBody {r : List Char × List Char} (h : readBody cs = some r) :
    r.2.length < cs.length := by
  fun_induction readBody cs generalizing r with
  | case1 => cases h
  | case2 rest =>
      obtain rfl := Option.some.inj h
      simp
  | case3 rest ih | case4 rest ih | case5 c rest _ _ _ ih =>
      obtain ⟨inner, found, rfl⟩ := Option.map_eq_some_iff.mp h
      have shorter := ih found
      simp only [List.length_cons]
      omega

theorem length_read (h : read cs = some (text, after)) : after.length < cs.length := by
  unfold read at h
  split at h
  next rest =>
    exact Nat.lt_succ_of_lt (length_readBody h)
  · cases h

/-! ## Where a literal ends -/

/-- A text with a backslash before each occurrence of a character. -/
def marked (c : Char) (cs : List Char) : List Char :=
  cs.flatMap fun d => if d = c then ['\x5c', d] else [d]

theorem marked_cons (c d : Char) (cs : List Char) :
    marked c (d :: cs) = (if d = c then ['\x5c', d] else [d]) ++ marked c cs :=
  List.flatMap_cons

/-- Escaping is two replacements, of the backslashes first: in the other order the backslashes
that belong to quotes would be doubled as well. -/
theorem escape_eq_marked (cs : List Char) :
    escape cs = marked '\x27' (marked '\x5c' cs) := by
  induction cs with
  | nil => rfl
  | cons c cs ih =>
      rw [escape, marked_cons, ih]
      by_cases quote : c = '\x27'
      · subst quote
        rfl
      · by_cases escape_ : c = '\x5c'
        · subst escape_
          rfl
        · rw [if_neg (not_or.mpr ⟨quote, escape_⟩), if_neg escape_, List.singleton_append,
            marked_cons, if_neg quote, List.singleton_append]

/-- In the other order the literal of a quote ends behind a backslash. -/
example : readBody (marked '\x5c' (marked '\x27' ['\x27']) ++ ['\x27']) =
    some (['\x5c'], ['\x27']) := by
  decide

/-- A text without the backslashes that stand before a character, each of them found from the
left. -/
def unmarked (c : Char) : List Char → List Char
  | [] => []
  | [d] => [d]
  | d :: e :: rest =>
    if d = '\x5c' ∧ e = c then c :: unmarked c rest else d :: unmarked c (e :: rest)

theorem unmarked_cons_of_not (other : ¬ (c = '\x5c' ∧ cs.head? = some d)) :
    unmarked d (c :: cs) = c :: unmarked d cs := by
  cases cs with
  | nil => rfl
  | cons e rest => rw [unmarked, if_neg (by simpa using other)]

/-- A marked character never stands in front, unless it is the backslash itself. -/
theorem eq_of_head?_marked (h : (marked c cs).head? = some c) : c = '\x5c' := by
  cases cs with
  | nil => cases h
  | cons d cs =>
      rw [marked_cons] at h
      split at h
      · exact (Option.some.inj h).symm
      next other => exact absurd (Option.some.inj h) other

/-- Taking the marks away undoes marking. -/
theorem unmarked_marked (c : Char) (cs : List Char) : unmarked c (marked c cs) = cs := by
  induction cs with
  | nil => rfl
  | cons d cs ih =>
      rw [marked_cons]
      by_cases same : d = c
      · subst same
        rw [if_pos rfl, List.cons_append, List.singleton_append, unmarked, if_pos ⟨rfl, rfl⟩, ih]
      · rw [if_neg same, List.singleton_append, unmarked_cons_of_not, ih]
        rintro ⟨rfl, next⟩
        exact same (eq_of_head?_marked next).symm

/-- The text of a literal by undoing how it was made: the enclosing quotes are dropped, and the
replacements taken back, the last one first. -/
def undone (cs : List Char) : List Char := unmarked '\x5c' (unmarked '\x27' cs.tail.dropLast)

theorem undone_quote (s : String) : undone (quote s).toList = s.toList := by
  rw [quote, String.toList_ofList, write, undone, List.tail_cons, List.dropLast_concat,
    escape_eq_marked, unmarked_marked, unmarked_marked]

theorem readBody_append {found : List Char × List Char} (read_ : readBody cs = some found)
    (more : List Char) : readBody (cs ++ more) = some (found.1, found.2 ++ more) := by
  fun_induction readBody cs generalizing found with
  | case1 => cases read_
  | case2 rest =>
      obtain rfl := Option.some.inj read_
      rfl
  | case3 rest ih | case4 rest ih =>
      obtain ⟨inner, inside, rfl⟩ := Option.map_eq_some_iff.mp read_
      simp only [List.cons_append, readBody, ih inside, Option.map_some]
  | case5 c rest quote escapedQuote escapedSlash ih =>
      obtain ⟨inner, inside, rfl⟩ := Option.map_eq_some_iff.mp read_
      cases rest with
      | nil => cases inside
      | cons d rest =>
          -- Whether `c` is a backslash that escapes is settled by `d`, which is there already.
          have plain : readBody (c :: d :: (rest ++ more)) =
              (readBody (d :: (rest ++ more))).map fun r => (c :: r.1, r.2) := by
            refine readBody.eq_5 c _ quote ?_ ?_
            · rintro tail rfl goesOn
              exact escapedQuote rest rfl (by rw [(List.cons.inj goesOn).1])
            · rintro tail rfl goesOn
              exact escapedSlash rest rfl (by rw [(List.cons.inj goesOn).1])
          rw [List.cons_append, List.cons_append, plain, ← List.cons_append, ih inside]
          rfl

/-- A literal that is read off a source is read off all that the source is the front of. -/
theorem read_append (found : read cs = some (text, after)) (more : List Char) :
    read (cs ++ more) = some (text, after ++ more) := by
  unfold read at found
  split at found
  next rest => exact readBody_append found more
  · cases found

/-- A literal is read only when its last quote is there. -/
theorem read_front_of_quote {s : String} (front_ : front <+: (quote s).toList)
    (proper : front ≠ (quote s).toList) : read front = none := by
  obtain ⟨more, whole⟩ := front_
  cases found : read front with
  | none => rfl
  | some r =>
      have read_ : read (front ++ more) = some (r.1, r.2 ++ more) := read_append found more
      have exact_ := read_quote s []
      rw [List.append_nil, ← whole, read_] at exact_
      have nothing : r.2 ++ more = [] := (Prod.ext_iff.mp (Option.some.inj exact_)).2
      rw [(List.append_eq_nil_iff.mp nothing).2, List.append_nil] at whole
      exact absurd whole proper

/-- Two sources that start with literals start with the literal of one text. -/
theorem quote_append_inj {s t : String} {more : List Char}
    (same : (quote s).toList ++ rest = (quote t).toList ++ more) : s = t ∧ rest = more := by
  have read_ := read_quote s rest
  rw [same, read_quote t more] at read_
  obtain ⟨texts, rests⟩ := Prod.mk.inj (Option.some.inj read_)
  exact ⟨(String.toList_injective texts).symm, rests.symm⟩

/-- The literal of a text is a quote, the text with its backslashes and then its quotes marked,
and a quote. Before any further source it is read up to its own last character as that text,
and no shorter front of it is a literal; so no text reaches out of its literal, and different
texts have different literals. -/
theorem quote_encloses :
    (∀ s, (quote s).toList = '\x27' :: (marked '\x27' (marked '\x5c' s.toList) ++ ['\x27'])) ∧
      (∀ s rest, read ((quote s).toList ++ rest) = some (s.toList, rest)) ∧
      (∀ s front, front <+: (quote s).toList → front ≠ (quote s).toList → read front = none) ∧
      (∀ s t rest more, (quote s).toList ++ rest = (quote t).toList ++ more →
        s = t ∧ rest = more) ∧
      Function.Injective quote := by
  refine ⟨fun s => ?_, read_quote, fun _ _ => read_front_of_quote,
    fun _ _ _ _ => quote_append_inj, fun s t same => ?_⟩
  · rw [quote, String.toList_ofList, write, escape_eq_marked]
  · have bare : (quote s).toList ++ [] = (quote t).toList ++ [] := by rw [same]
    exact (quote_append_inj bare).1

end ClientForge.Text.Literal
