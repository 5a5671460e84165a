import ClientForge.Proofs.Numeral
import Mathlib.Data.List.Basic

/-!
# Reading back canonical JSON

A document can be told from its text. What is printed is words, strings, lists and
objects: a word is a number or one of the constants and ends where no sign of a word
follows, a string ends at its quote, since quotes inside are escaped and every escape
shows where it ends, lists and objects end at their brackets. A string is told by its
UTF-16 units, and by its code points unless both halves of a pair stand in it one after
the other, as two code points. Two documents without such texts that have one text
therefore print the same, part by part. Only numbers are not told apart further than by
their words.
-/

namespace ClientForge

namespace Text

theorem hexDigit_injective {m n : Nat} (hm : m < 16) (hn : n < 16)
    (h : hexDigit m = hexDigit n) : m = n := by
  have all : ∀ m < 16, ∀ n < 16, hexDigit m = hexDigit n → m = n := by decide
  exact all m hm n hn h

/-- Digits of a fixed width determine the number that they can hold. -/
theorem hexFixed_injective {width m n : Nat} (h : hexFixed width m = hexFixed width n) :
    m % 16 ^ width = n % 16 ^ width := by
  induction width generalizing m n with
  | zero => simp [Nat.mod_one]
  | succ width ih =>
      obtain ⟨upper, last⟩ := List.append_inj h (by simp)
      have digit : m % 16 = n % 16 :=
        hexDigit_injective (Nat.mod_lt _ (by decide)) (Nat.mod_lt _ (by decide))
          (List.singleton_inj.mp last)
      have rest := ih upper
      rw [Nat.pow_succ', Nat.mod_mul, Nat.mod_mul, digit, rest]

/-- Whether no half that comes first in a pair stands right before one that comes last. -/
def AreWhole (ns : List Nat) : Prop :=
  ns.IsChain fun m n => ¬ (isHighHalf m = true ∧ isLowHalf n = true)

instance (ns : List Nat) : Decidable (AreWhole ns) :=
  inferInstanceAs (Decidable (List.IsChain _ ns))

/-- Whether no pair stands in a text as two code points. -/
def IsWhole (s : String) : Prop := AreWhole (codes s.toList)

instance (s : String) : Decidable (IsWhole s) := inferInstanceAs (Decidable (AreWhole _))

theorem AreWhole.cons_cons {m n : Nat} {ns : List Nat} (h : AreWhole (m :: n :: ns)) :
    ¬ (isHighHalf m = true ∧ isLowHalf n = true) ∧ AreWhole (n :: ns) :=
  List.isChain_cons_cons.mp h

end Text

namespace Json

/-! ## Strings -/

/-- The units that are escaped by one letter. -/
def shortEscapes : List (Nat × Char) :=
  [(0x22, '\x22'), (0x5c, '\x5c'), (10, 'n'), (13, 'r'), (9, 't'), (8, 'b'), (12, 'f')]

/-- Whether a number is that of a UTF-16 unit, or of a mark that carries nothing. -/
def IsUnit (n : Nat) : Prop := n < 0x10000 ∨ n = Text.noCode

/-- The four forms in which a unit stands in a string. -/
inductive Escapes (n : Nat) : List Char → Prop
  | plain (c : Char) (code : c.toNat = n) (printable : 32 ≤ n ∧ n ≤ 126) (quote : c ≠ '\x22')
      (slash : c ≠ '\x5c') : Escapes n [c]
  | short (letter : Char) (listed : (n, letter) ∈ shortEscapes) : Escapes n ['\x5c', letter]
  | unit (small : n < 0x10000) : Escapes n (unitEscape n)
  | mark (none : n = Text.noCode) : Escapes n [Text.mark]

theorem escapes_escapeUnit {n : Nat} (h : IsUnit n) : Escapes n (escapeUnit n) := by
  have short {m : Nat} (letter : Char) (listed : (m, letter) ∈ shortEscapes)
      (same : (n == m) = true) : Escapes n ['\x5c', letter] := by
    obtain rfl : n = m := by simpa using same
    exact .short letter listed
  unfold escapeUnit
  split_ifs with quote slash feed carriage tab back form printable small
  · exact short _ (by decide) quote
  · exact short _ (by decide) slash
  · exact short _ (by decide) feed
  · exact short _ (by decide) carriage
  · exact short _ (by decide) tab
  · exact short _ (by decide) back
  · exact short _ (by decide) form
  · have range : 32 ≤ n ∧ n ≤ 126 := by simpa using printable
    have number : (Char.ofNat n).toNat = n := by
      rw [Char.ofNat, dif_pos (.inl (by omega))]
      rfl
    refine .plain _ number range ?_ ?_
    · intro same
      rw [same] at number
      simp [← number] at quote
    · intro same
      rw [same] at number
      simp [← number] at slash
  · exact .unit small
  · exact .mark (h.resolve_left small)

theorem unitEscape_append_inj {m n : Nat} {r s : List Char} (hm : m < 0x10000) (hn : n < 0x10000)
    (h : unitEscape m ++ r = unitEscape n ++ s) : m = n ∧ r = s := by
  simp only [unitEscape, List.cons_append, List.cons.injEq, true_and] at h
  obtain ⟨digits, rest⟩ := List.append_inj h (by simp)
  have same := Text.hexFixed_injective digits
  exact ⟨by omega, rest⟩

/-- A short escape is not that of a unit. -/
theorem ne_u_of_mem_shortEscapes {n : Nat} {letter : Char} (h : (n, letter) ∈ shortEscapes) :
    letter ≠ 'u' := by
  have all : ∀ e ∈ shortEscapes, e.2 ≠ 'u' := by decide
  exact all _ h

theorem eq_of_mem_shortEscapes {m n : Nat} {letter : Char} (hm : (m, letter) ∈ shortEscapes)
    (hn : (n, letter) ∈ shortEscapes) : m = n := by
  have all : ∀ e ∈ shortEscapes, ∀ f ∈ shortEscapes, e.2 = f.2 → e.1 = f.1 := by decide
  exact all _ hm _ hn rfl

/-- A unit is told from its escape, and the escape from what follows. -/
theorem Escapes.append_inj {m n : Nat} {x y r s : List Char} (first : Escapes m x)
    (second : Escapes n y) (h : x ++ r = y ++ s) : m = n ∧ r = s := by
  cases first with
  | plain c code printable quote slash =>
      cases second with
      | plain d code' =>
          obtain ⟨rfl, rest⟩ := List.cons.inj h
          exact ⟨code.symm.trans code', rest⟩
      | short => exact absurd (List.cons.inj h).1 slash
      | unit => exact absurd (List.cons.inj h).1 slash
      | mark =>
          rw [(List.cons.inj h).1, Text.toNat_mark] at code
          omega
  | short letter listed =>
      have other := ne_u_of_mem_shortEscapes listed
      cases second with
      | plain d code printable quote slash => exact absurd (List.cons.inj h).1.symm slash
      | short letter' listed' =>
          obtain ⟨rfl, rest⟩ := List.cons.inj (List.cons.inj h).2
          exact ⟨eq_of_mem_shortEscapes listed listed', rest⟩
      | unit => exact absurd (List.cons.inj (List.cons.inj h).2).1 other
      | mark => exact absurd (List.cons.inj h).1 (by decide)
  | unit small =>
      cases second with
      | plain d code printable quote slash => exact absurd (List.cons.inj h).1.symm slash
      | short letter listed =>
          exact absurd (List.cons.inj (List.cons.inj h).2).1.symm (ne_u_of_mem_shortEscapes listed)
      | unit small' => exact unitEscape_append_inj small small' h
      | mark => exact absurd (List.cons.inj h).1 (by decide)
  | mark none =>
      cases second with
      | plain d code printable =>
          rw [← (List.cons.inj h).1, Text.toNat_mark] at code
          omega
      | short => exact absurd (List.cons.inj h).1 (by decide)
      | unit => exact absurd (List.cons.inj h).1 (by decide)
      | mark none' => exact ⟨none.trans none'.symm, (List.cons.inj h).2⟩

/-- An escape does not start with a quote. -/
theorem Escapes.exists_cons {n : Nat} {x : List Char} (escapes : Escapes n x) :
    ∃ first rest, x = first :: rest ∧ first ≠ '\x22' := by
  cases escapes with
  | plain c _ _ quote _ => exact ⟨c, [], rfl, quote⟩
  | short letter _ => exact ⟨'\x5c', [letter], rfl, by decide⟩
  | unit => exact ⟨'\x5c', _, rfl, by decide⟩
  | mark => exact ⟨Text.mark, [], rfl, by decide⟩

/-- A string ends at its quote. -/
theorem escaped_append_inj {us vs : List Nat} {r s : List Char} (hu : ∀ u ∈ us, IsUnit u)
    (hv : ∀ v ∈ vs, IsUnit v)
    (h : us.flatMap escapeUnit ++ '\x22' :: r = vs.flatMap escapeUnit ++ '\x22' :: s) :
    us = vs ∧ r = s := by
  induction us generalizing vs with
  | nil =>
      cases vs with
      | nil => simpa using h
      | cons v vs =>
          obtain ⟨first, rest, escaped, other⟩ :=
            (escapes_escapeUnit (hv v List.mem_cons_self)).exists_cons
          rw [List.flatMap_cons, escaped] at h
          exact absurd (List.cons.inj h).1.symm other
  | cons u us ih =>
      rw [List.forall_mem_cons] at hu
      cases vs with
      | nil =>
          obtain ⟨first, rest, escaped, other⟩ := (escapes_escapeUnit hu.1).exists_cons
          rw [List.flatMap_cons, escaped] at h
          exact absurd (List.cons.inj h).1 other
      | cons v vs =>
          rw [List.forall_mem_cons] at hv
          rw [List.flatMap_cons, List.flatMap_cons, List.append_assoc, List.append_assoc] at h
          obtain ⟨rfl, rest⟩ :=
            (escapes_escapeUnit hu.1).append_inj (escapes_escapeUnit hv.1) h
          obtain ⟨rfl, ended⟩ := ih hu.2 hv.2 rest
          exact ⟨rfl, ended⟩

theorem units_of_single {n : Nat} (h : n < 0x10000 ∨ Text.noCode ≤ n) : units n = [n] := by
  rw [units, if_pos (by simpa using h)]

theorem units_of_pair {n : Nat} (h : ¬ (n < 0x10000 ∨ Text.noCode ≤ n)) :
    units n = [0xD800 + (n - 0x10000) / 0x400, 0xDC00 + (n - 0x10000) % 0x400] := by
  rw [units, if_neg (by simpa using h)]

/-- A number that is neither is between the units and the numbers behind all code points. -/
theorem bounds_of_pair {n : Nat} (h : ¬ (n < 0x10000 ∨ Text.noCode ≤ n)) :
    0x10000 ≤ n ∧ n < 0x110000 := by
  unfold Text.noCode at h
  omega

theorem isUnit_of_mem_units {n u : Nat} (h : n ≤ Text.noCode) (hu : u ∈ units n) : IsUnit u := by
  by_cases single : n < 0x10000 ∨ Text.noCode ≤ n
  · rw [units_of_single single, List.mem_singleton] at hu
    exact hu ▸ single.imp_right (Nat.le_antisymm h)
  · have bounds := bounds_of_pair single
    rw [units_of_pair single, List.mem_pair] at hu
    have small : u < 0x10000 := by omega
    exact .inl small

theorem isUnit_of_mem_textUnits {s : String} {u : Nat} (h : u ∈ textUnits s) : IsUnit u := by
  obtain ⟨n, hn, hu⟩ := List.mem_flatMap.mp h
  exact isUnit_of_mem_units (Text.le_noCode_of_mem_codes hn) hu

/-- Units with every pair of halves taken together. -/
def joined : List Nat → List Nat
  | u :: v :: rest =>
    if Text.isHighHalf u && Text.isLowHalf v then
      (0x10000 + (u - 0xD800) * 0x400 + (v - 0xDC00)) :: joined rest
    else u :: joined (v :: rest)
  | us => us

/-- The first unit of a code point is no low half unless the code point is one. -/
theorem exists_units (n : Nat) :
    ∃ u us, units n = u :: us ∧ (Text.isLowHalf u = true → u = n) := by
  by_cases single : n < 0x10000 ∨ Text.noCode ≤ n
  · exact ⟨n, [], units_of_single single, fun _ => rfl⟩
  · have bounds := bounds_of_pair single
    refine ⟨_, _, units_of_pair single, fun low => ?_⟩
    simp only [Text.isLowHalf, Bool.and_eq_true, decide_eq_true_eq] at low
    omega

/-- The units of whole code points are told apart. -/
theorem joined_flatMap_units {ns : List Nat} (whole : Text.AreWhole ns) :
    joined (ns.flatMap units) = ns := by
  induction ns with
  | nil => rfl
  | cons n ns ih =>
      have later := ih (List.IsChain.of_cons whole)
      rw [List.flatMap_cons]
      by_cases single : n < 0x10000 ∨ Text.noCode ≤ n
      · rw [units_of_single single]
        cases ns with
        | nil => rfl
        | cons m ns =>
            obtain ⟨u, us, parts, first⟩ := exists_units m
            rw [List.flatMap_cons, parts] at later ⊢
            have apart : ¬ (Text.isHighHalf n && Text.isLowHalf u) = true := by
              rw [Bool.and_eq_true]
              rintro ⟨high, low⟩
              obtain rfl := first low
              exact whole.cons_cons.1 ⟨high, low⟩
            change joined (n :: u :: (us ++ _)) = _
            rw [joined, if_neg apart]
            exact congrArg _ later
      · have bounds := bounds_of_pair single
        have halves : (Text.isHighHalf (0xD800 + (n - 0x10000) / 0x400) &&
            Text.isLowHalf (0xDC00 + (n - 0x10000) % 0x400)) = true := by
          simp only [Text.isHighHalf, Text.isLowHalf, Bool.and_eq_true, decide_eq_true_eq]
          omega
        have together : 0x10000 + (0xD800 + (n - 0x10000) / 0x400 - 0xD800) * 0x400 +
            (0xDC00 + (n - 0x10000) % 0x400 - 0xDC00) = n := by omega
        rw [units_of_pair single, List.cons_append, List.cons_append, List.nil_append, joined,
          if_pos halves, later, together]

/-- Strings without split pairs are told apart, and from what follows. -/
theorem quoted_append_inj {s t : String} {r r' : List Char} (hs : Text.IsWhole s)
    (ht : Text.IsWhole t) (h : quoted s ++ r = quoted t ++ r') : s = t ∧ r = r' := by
  simp only [quoted, List.cons_append, List.append_assoc, List.cons.injEq, true_and,
    List.nil_append] at h
  obtain ⟨same, rest⟩ := escaped_append_inj (fun _ => isUnit_of_mem_textUnits)
    (fun _ => isUnit_of_mem_textUnits) h
  have codes : Text.codes s.toList = Text.codes t.toList := by
    rw [← joined_flatMap_units hs, ← joined_flatMap_units ht]
    exact congrArg joined same
  exact ⟨String.toList_inj.mp (Text.codes_injective codes), rest⟩

/-! ## Documents -/

/-- A number or a constant as it is printed. -/
@[ext]
structure Word where
  chars : List Char
  nonempty : chars ≠ []
  signs : ∀ c ∈ chars, Text.isSign c = true

namespace Word

theorem exists_cons (w : Word) :
    ∃ first rest, w.chars = first :: rest ∧ Text.isSign first = true := by
  obtain ⟨first, rest, parts⟩ := List.exists_cons_of_ne_nil w.nonempty
  exact ⟨first, rest, parts, w.signs first (by simp [parts])⟩

theorem append_ne (w : Word) {c : Char} {r s : List Char} (h : Text.isSign c = false) :
    w.chars ++ r ≠ c :: s := by
  obtain ⟨first, rest, parts, sign⟩ := w.exists_cons
  intro same
  rw [parts] at same
  rw [(List.cons.inj same).1, h] at sign
  cases sign

def null : Word := ⟨['n', 'u', 'l', 'l'], by decide, List.all_eq_true.mp (by decide)⟩

def ofBool (b : Bool) : Word where
  chars := if b then ['t', 'r', 'u', 'e'] else ['f', 'a', 'l', 's', 'e']
  nonempty := by cases b <;> decide
  signs := by cases b <;> exact List.all_eq_true.mp (by decide)

/-- The word of an integer. -/
def ofInt (n : Int) : Word where
  chars := (toString n).toList
  nonempty := by
    obtain ⟨c, member, -⟩ := Text.exists_mem_toString_int n
    exact List.ne_nil_of_mem member
  signs _ h := Text.isSign_of_mem_toString_int h

/-- The word of a floating-point number. -/
def ofFloat (x : Number.Binary64) : Word where
  chars := (floatText x).toList
  nonempty := by
    obtain ⟨c, member, -⟩ := exists_mem_floatText x
    exact List.ne_nil_of_mem member
  signs _ h := isSign_of_mem_floatText h

/-- Whether what a word stands for counts as true. A constant is all lower-case letters. -/
def isTruthy (w : Word) : Bool :=
  if w.chars.any (!Text.isAsciiLower ·) then !w.chars.all Text.isNought
  else w.chars == ['t', 'r', 'u', 'e']

theorem isTruthy_ofBool (b : Bool) : (ofBool b).isTruthy = b := by
  cases b <;> decide

theorem ofBool_injective {b c : Bool} (h : ofBool b = ofBool c) : b = c := by
  rw [← isTruthy_ofBool b, h, isTruthy_ofBool]

theorem isTruthy_ofInt (n : Int) : (ofInt n).isTruthy = (n != 0) := by
  obtain ⟨c, member, number⟩ := Text.exists_mem_toString_int n
  have some : (ofInt n).chars.any (!Text.isAsciiLower ·) = true :=
    List.any_eq_true.mpr ⟨c, member, by simp [number]⟩
  have zero : (ofInt n).chars.all Text.isNought = (n == 0) := by
    rw [Bool.eq_iff_iff, beq_iff_eq]
    exact Text.all_isNought_toString_int
  rw [isTruthy, if_pos some, zero]
  rfl

theorem isTruthy_ofFloat (x : Number.Binary64) : (ofFloat x).isTruthy = !x.isZero := by
  obtain ⟨c, member, number⟩ := exists_mem_floatText x
  have some : (ofFloat x).chars.any (!Text.isAsciiLower ·) = true :=
    List.any_eq_true.mpr ⟨c, member, by simp [number]⟩
  have zero : (ofFloat x).chars.all Text.isNought = x.isZero := all_isNought_floatText
  rw [isTruthy, if_pos some, zero]

end Word

/-- A document as it is printed. -/
inductive Printed
  | word (w : Word)
  | str (s : String)
  | arr (items : List Printed)
  | obj (members : List (String × Printed))

namespace Printed

mutual

/-- The characters of what is printed. -/
def chars : Printed → List Char
  | .word w => w.chars
  | .str s => quoted s
  | .arr items => '[' :: (Text.joinWith [',', ' '] (itemChars items) ++ [']'])
  | .obj members => '\x7b' :: (Text.joinWith [',', ' '] (memberChars members) ++ ['\x7d'])

def itemChars : List Printed → List (List Char)
  | [] => []
  | item :: rest => chars item :: itemChars rest

def memberChars : List (String × Printed) → List (List Char)
  | [] => []
  | member :: rest => oneMember member :: memberChars rest

def oneMember : String × Printed → List Char
  | (name, item) => quoted name ++ ':' :: ' ' :: chars item

end

mutual

/-- The texts in what is printed: strings and the names of members. -/
def texts : Printed → List String
  | .word _ => []
  | .str s => [s]
  | .arr items => itemTexts items
  | .obj members => memberTexts members

def itemTexts : List Printed → List String
  | [] => []
  | item :: rest => texts item ++ itemTexts rest

def memberTexts : List (String × Printed) → List String
  | [] => []
  | member :: rest => oneMemberTexts member ++ memberTexts rest

def oneMemberTexts : String × Printed → List String
  | (name, item) => name :: texts item

end

/-- Whether a word cannot go on in a text. -/
def Ends (r : List Char) : Prop := ∀ c ∈ r.head?, Text.isSign c = false

theorem Ends.cons {c : Char} {r : List Char} (h : Text.isSign c = false) : Ends (c :: r) := by
  intro d hd
  obtain rfl : c = d := by simpa using hd
  exact h

/-- A word is all the signs before its end. -/
theorem word_append_inj {v w : Word} {r s : List Char} (hr : Ends r) (hs : Ends s)
    (h : v.chars ++ r = w.chars ++ s) : v = w ∧ r = s := by
  have cut {w : Word} {r : List Char} (hr : Ends r) :
      (w.chars ++ r).takeWhile Text.isSign = w.chars := by
    rw [List.takeWhile_append_of_pos w.signs]
    cases r with
    | nil => simp
    | cons c r =>
        have stop : Text.isSign c = false := hr c rfl
        simp [stop]
  have same : v.chars = w.chars := by rw [← cut (w := v) hr, h, cut hs]
  rw [same] at h
  exact ⟨Word.ext same, List.append_cancel_left h⟩

/-- What is printed does not start with a closing bracket. -/
theorem exists_cons (p : Printed) :
    ∃ first rest, p.chars = first :: rest ∧ first ≠ ']' := by
  cases p with
  | word w =>
      obtain ⟨first, rest, parts, sign⟩ := w.exists_cons
      refine ⟨first, rest, by rw [chars, parts], ?_⟩
      rintro rfl
      exact absurd sign (by decide)
  | str s => exact ⟨'\x22', _, by rw [chars, quoted], by decide⟩
  | arr items => exact ⟨'[', _, by rw [chars], by decide⟩
  | obj members => exact ⟨'\x7b', _, by rw [chars], by decide⟩

theorem oneMember_exists_cons (p : String × Printed) : ∃ rest, oneMember p = '\x22' :: rest := by
  obtain ⟨name, item⟩ := p
  exact ⟨_, by rw [oneMember, quoted, List.cons_append]⟩

theorem eq_nil_of_itemChars {ps : List Printed} (h : itemChars ps = []) : ps = [] := by
  cases ps with
  | nil => rfl
  | cons p ps => simp [itemChars] at h

theorem eq_nil_of_memberChars {ps : List (String × Printed)} (h : memberChars ps = []) :
    ps = [] := by
  cases ps with
  | nil => rfl
  | cons p ps => simp [memberChars] at h

/-- What follows the first piece of a list: a comma and the other pieces, or the end. -/
def following (pieces : List (List Char)) (close : Char) (r : List Char) : List Char :=
  if pieces.isEmpty then close :: r
  else ',' :: ' ' :: (Text.joinWith [',', ' '] pieces ++ close :: r)

theorem joinWith_cons_append (piece : List Char) (pieces : List (List Char)) (close : Char)
    (r : List Char) :
    Text.joinWith [',', ' '] (piece :: pieces) ++ close :: r =
      piece ++ following pieces close r := by
  cases pieces with
  | nil => rfl
  | cons next pieces => simp [Text.joinWith, following]

theorem ends_following {pieces : List (List Char)} {close : Char} {r : List Char}
    (h : Text.isSign close = false) : Ends (following pieces close r) := by
  unfold following
  split
  · exact .cons h
  · exact .cons (by decide)

/-- The end of a list is told from further pieces. -/
theorem following_inj {xs ys : List (List Char)} {close : Char} {r s : List Char}
    (other : close ≠ ',') (h : following xs close r = following ys close s) :
    (xs = [] ∧ ys = [] ∧ r = s) ∨
      Text.joinWith [',', ' '] xs ++ close :: r = Text.joinWith [',', ' '] ys ++ close :: s := by
  unfold following at h
  split_ifs at h with left right right
  · exact .inl ⟨by simpa using left, by simpa using right, (List.cons.inj h).2⟩
  · exact absurd (List.cons.inj h).1 other
  · exact absurd (List.cons.inj h).1.symm other
  · exact .inr (List.cons.inj (List.cons.inj h).2).2

mutual

/-- What is printed can be read back, and what follows it. -/
theorem chars_append_inj (p q : Printed) {r s : List Char} (hp : ∀ t ∈ p.texts, Text.IsWhole t)
    (hq : ∀ t ∈ q.texts, Text.IsWhole t) (hr : Ends r) (hs : Ends s)
    (h : p.chars ++ r = q.chars ++ s) : p = q ∧ r = s := by
  cases p with
  | word v =>
      cases q with
      | word w =>
          obtain ⟨rfl, rest⟩ := word_append_inj hr hs h
          exact ⟨rfl, rest⟩
      | str t => exact absurd h (v.append_ne (by decide))
      | arr others => exact absurd h (v.append_ne (by decide))
      | obj others => exact absurd h (v.append_ne (by decide))
  | str t =>
      cases q with
      | word w => exact absurd h.symm (w.append_ne (by decide))
      | str u =>
          rw [texts, List.forall_mem_singleton] at hp hq
          obtain ⟨rfl, rest⟩ := quoted_append_inj hp hq h
          exact ⟨rfl, rest⟩
      | arr others => exact absurd (List.cons.inj h).1 (by decide)
      | obj others => exact absurd (List.cons.inj h).1 (by decide)
  | arr items =>
      cases q with
      | word w => exact absurd h.symm (w.append_ne (by decide))
      | str u => exact absurd (List.cons.inj h).1 (by decide)
      | arr others =>
          simp only [chars, List.cons_append, List.append_assoc, List.cons.injEq, true_and,
            List.nil_append] at h
          rw [texts] at hp hq
          obtain ⟨rfl, rest⟩ := items_append_inj items others hp hq h
          exact ⟨rfl, rest⟩
      | obj others => exact absurd (List.cons.inj h).1 (by decide)
  | obj members =>
      cases q with
      | word w => exact absurd h.symm (w.append_ne (by decide))
      | str u => exact absurd (List.cons.inj h).1 (by decide)
      | arr others => exact absurd (List.cons.inj h).1 (by decide)
      | obj others =>
          simp only [chars, List.cons_append, List.append_assoc, List.cons.injEq, true_and,
            List.nil_append] at h
          rw [texts] at hp hq
          obtain ⟨rfl, rest⟩ := members_append_inj members others hp hq h
          exact ⟨rfl, rest⟩
termination_by structural p

theorem items_append_inj (ps qs : List Printed) {r s : List Char}
    (hp : ∀ t ∈ itemTexts ps, Text.IsWhole t) (hq : ∀ t ∈ itemTexts qs, Text.IsWhole t)
    (h : Text.joinWith [',', ' '] (itemChars ps) ++ ']' :: r =
      Text.joinWith [',', ' '] (itemChars qs) ++ ']' :: s) : ps = qs ∧ r = s := by
  cases ps with
  | nil =>
      cases qs with
      | nil => exact ⟨rfl, (List.cons.inj h).2⟩
      | cons q qs =>
          obtain ⟨first, rest, parts, other⟩ := q.exists_cons
          rw [itemChars, itemChars, joinWith_cons_append, parts] at h
          exact absurd (List.cons.inj h).1.symm other
  | cons p ps =>
      cases qs with
      | nil =>
          obtain ⟨first, rest, parts, other⟩ := p.exists_cons
          rw [itemChars, itemChars, joinWith_cons_append, parts] at h
          exact absurd (List.cons.inj h).1 other
      | cons q qs =>
          rw [itemChars, itemChars, joinWith_cons_append, joinWith_cons_append] at h
          rw [itemTexts, List.forall_mem_append] at hp hq
          obtain ⟨rfl, tail⟩ := chars_append_inj p q hp.1 hq.1 (ends_following (by decide))
            (ends_following (by decide)) h
          rcases following_inj (by decide) tail with ⟨left, right, rest⟩ | more
          · rw [eq_nil_of_itemChars left, eq_nil_of_itemChars right]
            exact ⟨rfl, rest⟩
          · obtain ⟨rfl, rest⟩ := items_append_inj ps qs hp.2 hq.2 more
            exact ⟨rfl, rest⟩
termination_by structural ps

theorem members_append_inj (ps qs : List (String × Printed)) {r s : List Char}
    (hp : ∀ t ∈ memberTexts ps, Text.IsWhole t) (hq : ∀ t ∈ memberTexts qs, Text.IsWhole t)
    (h : Text.joinWith [',', ' '] (memberChars ps) ++ '\x7d' :: r =
      Text.joinWith [',', ' '] (memberChars qs) ++ '\x7d' :: s) : ps = qs ∧ r = s := by
  cases ps with
  | nil =>
      cases qs with
      | nil => exact ⟨rfl, (List.cons.inj h).2⟩
      | cons q qs =>
          obtain ⟨rest, parts⟩ := oneMember_exists_cons q
          rw [memberChars, memberChars, joinWith_cons_append, parts] at h
          exact absurd (List.cons.inj h).1 (by decide)
  | cons p ps =>
      cases qs with
      | nil =>
          obtain ⟨rest, parts⟩ := oneMember_exists_cons p
          rw [memberChars, memberChars, joinWith_cons_append, parts] at h
          exact absurd (List.cons.inj h).1 (by decide)
      | cons q qs =>
          rw [memberChars, memberChars, joinWith_cons_append, joinWith_cons_append] at h
          rw [memberTexts, List.forall_mem_append] at hp hq
          obtain ⟨rfl, tail⟩ := oneMember_append_inj p q hp.1 hq.1 (ends_following (by decide))
            (ends_following (by decide)) h
          rcases following_inj (by decide) tail with ⟨left, right, rest⟩ | more
          · rw [eq_nil_of_memberChars left, eq_nil_of_memberChars right]
            exact ⟨rfl, rest⟩
          · obtain ⟨rfl, rest⟩ := members_append_inj ps qs hp.2 hq.2 more
            exact ⟨rfl, rest⟩
termination_by structural ps

theorem oneMember_append_inj (p q : String × Printed) {r s : List Char}
    (hp : ∀ t ∈ oneMemberTexts p, Text.IsWhole t) (hq : ∀ t ∈ oneMemberTexts q, Text.IsWhole t)
    (hr : Ends r) (hs : Ends s) (h : oneMember p ++ r = oneMember q ++ s) : p = q ∧ r = s := by
  obtain ⟨name, item⟩ := p
  obtain ⟨name', item'⟩ := q
  rw [oneMemberTexts, List.forall_mem_cons] at hp hq
  rw [oneMember, oneMember, List.append_assoc, List.append_assoc] at h
  obtain ⟨rfl, after⟩ := quoted_append_inj hp.1 hq.1 h
  obtain ⟨rfl, rest⟩ := chars_append_inj item item' hp.2 hq.2 hr hs
    (List.cons.inj (List.cons.inj after).2).2
  exact ⟨rfl, rest⟩
termination_by structural p

end

theorem chars_injective {p q : Printed} (hp : ∀ t ∈ p.texts, Text.IsWhole t)
    (hq : ∀ t ∈ q.texts, Text.IsWhole t) (h : p.chars = q.chars) : p = q :=
  have ends : Ends [] := fun _ h => by cases h
  (chars_append_inj p q hp hq ends ends (by rw [h])).1

/-- The text that is printed, if it is a string. -/
def text? : Printed → Option String
  | .str s => some s
  | _ => none

/-- Whether what is printed counts as true. -/
def isTruthy : Printed → Bool
  | .word w => w.isTruthy
  | .str s => s != ""
  | .arr items => !items.isEmpty
  | .obj members => !members.isEmpty

end Printed

mutual

/-- A document as it is printed: numbers and constants by their words. -/
def printed : Json → Printed
  | .null => .word .null
  | .bool b => .word (.ofBool b)
  | .int n => .word (.ofInt n)
  | .float x => .word (.ofFloat x)
  | .str s => .str s
  | .arr items => .arr (printedItems items)
  | .obj members => .obj (printedMembers members)

def printedItems : List Json → List Printed
  | [] => []
  | item :: rest => printed item :: printedItems rest

def printedMembers : List (String × Json) → List (String × Printed)
  | [] => []
  | member :: rest => printedMember member :: printedMembers rest

def printedMember : String × Json → String × Printed
  | (name, item) => (name, printed item)

end

mutual

theorem chars_printed (j : Json) : j.printed.chars = j.chars := by
  cases j with
  | null => rw [printed, Printed.chars, chars]; rfl
  | bool b => rw [printed, Printed.chars, chars]; rfl
  | int n => rw [printed, Printed.chars, chars]; rfl
  | float x => rw [printed, Printed.chars, chars]; rfl
  | str s => rw [printed, Printed.chars, chars]
  | arr items => rw [printed, Printed.chars, chars, itemChars_printed items]
  | obj members => rw [printed, Printed.chars, chars, memberChars_printed members]
termination_by structural j

theorem itemChars_printed (items : List Json) :
    Printed.itemChars (printedItems items) = itemChars items := by
  cases items with
  | nil => rw [printedItems, Printed.itemChars, itemChars]
  | cons item rest =>
      rw [printedItems, Printed.itemChars, itemChars, chars_printed item, itemChars_printed rest]
termination_by structural items

theorem memberChars_printed (members : List (String × Json)) :
    Printed.memberChars (printedMembers members) = memberChars members := by
  cases members with
  | nil => rw [printedMembers, Printed.memberChars, memberChars]
  | cons member rest =>
      rw [printedMembers, Printed.memberChars, memberChars, oneMember_printed member,
        memberChars_printed rest]
termination_by structural members

theorem oneMember_printed (member : String × Json) :
    Printed.oneMember (printedMember member) = oneMember member := by
  cases member with
  | mk name item => rw [printedMember, Printed.oneMember, oneMember, chars_printed item]
termination_by structural member

end

/-- Whether no pair stands in a text of a document as two code points. -/
def IsWhole (j : Json) : Prop := ∀ s ∈ j.printed.texts, Text.IsWhole s

/-- Whole documents with one text print the same, part by part. -/
theorem printed_eq_of_text {i j : Json} (hi : i.IsWhole) (hj : j.IsWhole) (h : i.text = j.text) :
    i.printed = j.printed := by
  refine Printed.chars_injective hi hj ?_
  rw [chars_printed, chars_printed]
  exact String.ofList_injective h

theorem printedItems_eq_map (items : List Json) : printedItems items = items.map printed := by
  induction items with
  | nil => rfl
  | cons item rest ih => rw [printedItems, ih, List.map_cons]

theorem printedMembers_eq_map (members : List (String × Json)) :
    printedMembers members = members.map fun m => (m.1, m.2.printed) := by
  induction members with
  | nil => rfl
  | cons member rest ih => rw [printedMembers, ih, List.map_cons, printedMember]

end Json

end ClientForge
