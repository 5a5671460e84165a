/-!
# Code points

A text is a sequence of code points. Most of them are characters, but an escape in a
document can name half of a surrogate pair, and a half that stands in a text by itself
is no character: the text can be compared, searched and split like any other, and only
has no bytes when it is to be written. A half is carried by two characters, the mark
U+D7FF and the character that lies 0x800 behind the half; the mark itself is carried by
two marks. Neither is a letter, a digit, a blank or the end of a line, and the order of
texts by characters is their order by code points. A mark that carries nothing stands
for no code point.
-/

namespace ClientForge.Text

/-- The mark in front of what no character can be. -/
def mark : Char := '\ud7ff'

/-- Whether a code point is half of a surrogate pair. -/
def isHalf (n : Nat) : Bool := 0xD800 ≤ n && n < 0xE000

/-- Whether a code point is the half that comes first in a pair. -/
def isHighHalf (n : Nat) : Bool := 0xD800 ≤ n && n < 0xDC00

/-- Whether a code point is the half that comes last in a pair. -/
def isLowHalf (n : Nat) : Bool := 0xDC00 ≤ n && n < 0xE000

/-- The number behind all code points, which a mark has that carries nothing. -/
def noCode : Nat := 0x110000

/-- The characters that carry a code point. -/
def ofCode (n : Nat) : List Char :=
  if isHalf n then [mark, Char.ofNat (n + 0x800)]
  else if n = mark.toNat then [mark, mark]
  else if n < noCode then [Char.ofNat n]
  else [mark]

/-- The code point that a mark and the character behind it carry. -/
def markedCode? (c : Char) : Option Nat :=
  if c = mark then some mark.toNat
  else if 0xE000 ≤ c.toNat ∧ c.toNat < 0xE800 then some (c.toNat - 0x800)
  else none

/-- The code points that some characters carry. -/
def codes : List Char → List Nat
  | [] => []
  | [c] => if c = mark then [noCode] else [c.toNat]
  | c :: d :: rest =>
    if c = mark then
      match markedCode? d with
      | some n => n :: codes rest
      | none => noCode :: codes (d :: rest)
    else c.toNat :: codes (d :: rest)

/-- A text of characters only, as it is carried. -/
def ofCharacters (s : String) : String := String.ofList (s.toList.flatMap fun c => ofCode c.toNat)

/-- The characters of a text whose code points are characters. -/
def characters (s : String) : String := String.ofList ((codes s.toList).map Char.ofNat)

/-- Whether every code point of a text is a character, so that the text has bytes. -/
def isEncodable (s : String) : Bool := (codes s.toList).all fun n => n.isValidChar

/-- The bytes of a text that can be encoded. -/
def encode (s : String) : ByteArray := (characters s).toUTF8

/-- The first byte of the mark. -/
def markByte : UInt8 := 0xED

/-- The bytes of a text, if it can be encoded. Without the first byte of the mark they are
the bytes of its characters. -/
def encode? (s : String) : Option ByteArray :=
  if s.toUTF8.data.toList.contains markByte then
    if isEncodable s then some (encode s) else none
  else some s.toUTF8

theorem toNat_mark : mark.toNat = 0xD7FF := rfl

theorem toNat_lt_noCode (c : Char) : c.toNat < noCode := by
  rcases c.valid with low | high
  · exact Nat.lt_trans low (by decide)
  · exact high.2

theorem codes_cons_of_ne {c : Char} (h : c ≠ mark) (cs : List Char) :
    codes (c :: cs) = c.toNat :: codes cs := by
  cases cs <;> simp [codes, h]

theorem codes_mark_cons {c : Char} {n : Nat} (h : markedCode? c = some n) (cs : List Char) :
    codes (mark :: c :: cs) = n :: codes cs := by
  simp [codes, h]

/-- The code points of characters that hold no mark are the numbers of the characters. -/
theorem codes_eq_map {cs : List Char} (h : mark ∉ cs) : codes cs = cs.map Char.toNat := by
  induction cs with
  | nil => rfl
  | cons c cs ih =>
      rw [List.mem_cons, not_or] at h
      rw [codes_cons_of_ne (Ne.symm h.1), ih h.2, List.map_cons]

private theorem toNat_ofNat {n : Nat} (h : n.isValidChar) : (Char.ofNat n).toNat = n := by
  rw [Char.ofNat, dif_pos h]
  rfl

/-- A code point is read where it is carried. -/
theorem codes_ofCode_append {n : Nat} (h : n < noCode) (cs : List Char) :
    codes (ofCode n ++ cs) = n :: codes cs := by
  have bound : n < 0x110000 := h
  unfold ofCode
  split
  next half =>
    have low : 0xD800 ≤ n ∧ n < 0xE000 := by simpa [isHalf] using half
    have valid : (n + 0x800).isValidChar := .inr (by omega)
    have number := toNat_ofNat valid
    refine codes_mark_cons ?_ cs
    have other : Char.ofNat (n + 0x800) ≠ mark := by
      intro same
      rw [same, toNat_mark] at number
      omega
    rw [markedCode?, if_neg other, number, if_pos (by omega), Nat.add_sub_cancel]
  next whole =>
    have outside : n < 0xD800 ∨ 0xE000 ≤ n := by
      simp only [isHalf, Bool.and_eq_true, decide_eq_true_eq] at whole
      omega
    split
    next same =>
      refine codes_mark_cons ?_ cs
      rw [markedCode?, if_pos rfl, same]
    next other =>
      have valid : n.isValidChar := outside.imp id fun high => by omega
      have number := toNat_ofNat valid
      have different : Char.ofNat n ≠ mark := fun same => other (by rw [← number, same])
      rw [List.singleton_append, codes_cons_of_ne different, number]

/-- Code points that are carried are read back. -/
theorem codes_flatMap_ofCode {ns : List Nat} (h : ∀ n ∈ ns, n < noCode) :
    codes (ns.flatMap ofCode) = ns := by
  induction ns with
  | nil => rfl
  | cons n ns ih =>
      rw [List.flatMap_cons, codes_ofCode_append (h n List.mem_cons_self),
        ih fun m hm => h m (List.mem_cons_of_mem _ hm)]

theorem ofCode_toNat {c : Char} (h : c ≠ mark) : ofCode c.toNat = [c] := by
  have whole : isHalf c.toNat = false := by
    rw [isHalf, Bool.and_eq_false_iff, decide_eq_false_iff_not, decide_eq_false_iff_not]
    rcases c.valid with low | high
    · left
      exact Nat.not_le_of_lt low
    · right
      have : 0xDFFF < c.toNat := high.1
      omega
  have bound := toNat_lt_noCode c
  have other : c.toNat ≠ mark.toNat := fun same => h (Char.toNat_inj.mp same)
  simp [ofCode, whole, other, bound]

theorem ofCode_of_markedCode? {c : Char} {n : Nat} (h : markedCode? c = some n) :
    ofCode n = [mark, c] := by
  unfold markedCode? at h
  split at h
  next same =>
    obtain rfl := Option.some.inj h
    rw [same]
    rfl
  next other =>
    split at h
    next marked =>
      obtain rfl := Option.some.inj h
      have half : isHalf (c.toNat - 0x800) = true := by
        simp only [isHalf, Bool.and_eq_true, decide_eq_true_eq]
        omega
      rw [ofCode, if_pos half, Nat.sub_add_cancel (by omega), Char.ofNat_toNat]
    next => cases h

/-- What some characters carry determines them. -/
theorem flatMap_ofCode_codes (cs : List Char) : (codes cs).flatMap ofCode = cs := by
  fun_induction codes cs with
  | case1 => rfl
  | case2 => rfl
  | case3 c h => simp [ofCode_toNat h]
  | case4 d rest n marked ih => rw [List.flatMap_cons, ih, ofCode_of_markedCode? marked]; rfl
  | case5 d rest none ih => rw [List.flatMap_cons, ih]; rfl
  | case6 c d rest h ih => rw [List.flatMap_cons, ih, ofCode_toNat h]; rfl

theorem codes_injective {cs ds : List Char} (h : codes cs = codes ds) : cs = ds := by
  rw [← flatMap_ofCode_codes cs, h, flatMap_ofCode_codes]

theorem lt_noCode_of_markedCode? {c : Char} {n : Nat} (h : markedCode? c = some n) :
    n < noCode := by
  have bound := toNat_lt_noCode c
  unfold markedCode? at h
  split at h
  · obtain rfl := Option.some.inj h
    decide
  · split at h
    · obtain rfl := Option.some.inj h
      omega
    · cases h

theorem le_noCode_of_mem_codes {cs : List Char} {n : Nat} (h : n ∈ codes cs) : n ≤ noCode := by
  fun_induction codes cs with
  | case1 => cases h
  | case2 => exact Nat.le_of_eq (List.mem_singleton.mp h)
  | case3 c _ =>
      obtain rfl := List.mem_singleton.mp h
      exact Nat.le_of_lt (toNat_lt_noCode c)
  | case4 d rest m marked ih =>
      rcases List.mem_cons.mp h with rfl | later
      · exact Nat.le_of_lt (lt_noCode_of_markedCode? marked)
      · exact ih later
  | case5 d rest _ ih =>
      rcases List.mem_cons.mp h with rfl | later
      · exact Nat.le_refl _
      · exact ih later
  | case6 c d rest _ ih =>
      rcases List.mem_cons.mp h with rfl | later
      · exact Nat.le_of_lt (toNat_lt_noCode c)
      · exact ih later

theorem codes_ofCharacters (s : String) :
    codes (ofCharacters s).toList = s.toList.map Char.toNat := by
  have bound : ∀ n ∈ s.toList.map Char.toNat, n < noCode := by
    intro n hn
    obtain ⟨c, -, rfl⟩ := List.mem_map.mp hn
    exact toNat_lt_noCode c
  rw [ofCharacters, String.toList_ofList, ← List.flatMap_map Char.toNat ofCode,
    codes_flatMap_ofCode bound]

theorem isEncodable_ofCharacters (s : String) : isEncodable (ofCharacters s) = true := by
  rw [isEncodable, codes_ofCharacters, List.all_map, List.all_eq_true]
  exact fun c _ => decide_eq_true c.valid

theorem encode_ofCharacters (s : String) : encode (ofCharacters s) = s.toUTF8 := by
  have same : Char.ofNat ∘ Char.toNat = id := funext fun c => Char.ofNat_toNat c
  rw [encode, characters, codes_ofCharacters, List.map_map, same, List.map_id, String.ofList_toList]

/-- A text without the mark is carried by its own characters. -/
theorem ofCharacters_of_notMem {s : String} (h : mark ∉ s.toList) : ofCharacters s = s := by
  rw [← String.toList_inj]
  apply codes_injective
  rw [codes_ofCharacters, codes_eq_map h]

theorem markByte_mem_of_mem {s : String} (h : mark ∈ s.toList) :
    markByte ∈ s.toUTF8.data.toList := by
  obtain ⟨front, back, cut⟩ := List.append_of_mem h
  have bytes : s.toUTF8 = front.utf8Encode ++ ([mark].utf8Encode ++ back.utf8Encode) := by
    rw [String.toUTF8, ← String.utf8Encode_toList, cut, List.utf8Encode_append,
      List.utf8Encode_cons]
  have first : markByte ∈ [mark].utf8Encode.data.toList := by decide
  rw [bytes, ByteArray.toList_data_append, ByteArray.toList_data_append]
  exact List.mem_append_right _ (List.mem_append_left _ first)

/-- The bytes of a text are those of its code points, if all of them are characters. -/
theorem encode?_eq (s : String) :
    encode? s = if isEncodable s then some (encode s) else none := by
  unfold encode?
  split
  · rfl
  next plain =>
    have same : ofCharacters s = s := by
      refine ofCharacters_of_notMem fun marked => plain ?_
      rw [List.contains_iff_mem]
      exact markByte_mem_of_mem marked
    rw [← same, if_pos (isEncodable_ofCharacters s), encode_ofCharacters, same]

theorem encode?_eq_none_iff {s : String} : encode? s = none ↔ isEncodable s = false := by
  rw [encode?_eq]
  cases isEncodable s <;> simp

end ClientForge.Text
