import ClientForge.Proofs.FlatExpression
import ClientForge.Proofs.SingletonType
import Mathlib.Data.List.Forall2

/-!
# The recorded text of a type

A property keeps its type twice: as a reference, and as the text that it was declared with. The
two come from different readings of the same node. Both go down along `items`, and an array of
the one is an array of the other, but they tell the type entry of a mapping apart in different
ways: the text looks at the declared type, where blanks and a list of one entry are gone, and the
reference at the entry as it stands. The table of each reading is given below, and from the two
tables where the text still names the reference.
-/

namespace ClientForge

open ClientForge.Value

/-! ## Suffixes behind any text -/

namespace TypeExpr

open ClientForge.Text

/-- A suffix behind a text is one array around what the text names, whatever the text is. -/
theorem parse_append_suffix (token : String) :
    (parse (token ++ "[]")).1 = (parse token).1.array := by
  have trimmed : trim (token.toList ++ ['[', ']']) = trimStart token.toList ++ ['[', ']'] := by
    have start : trimStart (token.toList ++ ['[', ']']) = trimStart token.toList ++ ['[', ']'] := by
      rw [trimStart, List.dropWhile_append]
      split
      next empty => rw [trimStart, List.isEmpty_iff.mp empty]; rfl
      next => rfl
    rw [trim, start, trimEnd_of_getLast (by simp; decide)]
  -- What is left in front of the suffix still has its blanks behind, which are passed over.
  have rest : suffixes (trimStart token.toList).reverse = suffixes (trim token.toList).reverse := by
    rw [trim, trimEnd, List.reverse_reverse, suffixes_dropWhile]
  have letters : (token ++ "[]").toList = token.toList ++ ['[', ']'] := by simp
  rw [parse, parse, letters, trimmed, List.reverse_append, ← rest]
  exact Reference.arrays_succ _ _

@[simp] theorem parse_strip (token : String) : parse (strip token) = parse token := by
  rw [parse, parse, strip, String.toList_ofList, trim_trim]

/-- A text of blanks has no alternatives and names nothing. -/
theorem parse_of_strip_eq_empty {token : String} (blank : strip token = "") :
    (parse token).1 = .scalar .any := by
  rw [← parse_strip, blank]
  decide

end TypeExpr

namespace Declaration

variable {es : Entries} {raw : Value}

/-! ## Two readings -/

/-- The type that the recorded text of a member names. -/
def recorded (raw : Value) : Reference := (TypeExpr.parse (rawType raw)).1

/-- The type that is read off a node, or anything. -/
def readOff (node : Value) : Reference := (TypeExpr.ofNode node).1.getD (.scalar .any)

/-- What a mapping has under its type. -/
inductive TypeEntry
  /-- Nothing, or null. -/
  | missing
  /-- The word `array` by itself. -/
  | array
  /-- The word `array` in a list, or with blanks around it. -/
  | wrapped
  /-- Nothing but blanks, in a list or not. -/
  | blank
  /-- Any other text, in a list or not. -/
  | name (token : String)
  /-- A list of one entry that is no text. -/
  | listed (node : Value)
  /-- Anything else. -/
  | foreign

namespace TypeEntry

/-- A text that is not the word `array` by itself. -/
def ofText (token : String) : TypeEntry :=
  if Text.strip token = "array" then .wrapped
  else if Text.strip token = "" then .blank
  else .name token

def ofValue : Option Value → TypeEntry
  | none => .missing
  | some .null => .missing
  | some (.str token) => if token = "array" then .array else ofText token
  | some (.list [.str token]) => ofText token
  | some (.list [node]) => .listed node
  | some _ => .foreign

end TypeEntry

/-- What a mapping has under its type. -/
def typeEntry (es : Entries) : TypeEntry := .ofValue (es.text? "type")

/-- The type of a mapping that declares none and has no items. -/
def ofKeys (es : Entries) : Reference :=
  .scalar (if es.hasText "properties" then .any else .string)

/-- The items of a mapping as a reading has them, or anything. -/
def itemsBy (read : Value → Reference) (es : Entries) : Reference :=
  ((es.text? "items").map read).getD (.scalar .any)

/-- The type of a mapping that declares none: an array if it has items. -/
def undeclared (read : Value → Reference) (es : Entries) : Reference :=
  match es.text? "items" with
  | some items => (read items).array
  | none => ofKeys es

/-! ## The table of the text -/

namespace TypeEntry

/-- The declared type: a text without its blanks, in a list or not. -/
def declared? : TypeEntry → Option String
  | array => some "array"
  | wrapped => some "array"
  | blank => some ""
  | name token => some (Text.strip token)
  | _ => none

/-- How a text that is not the word `array` by itself is told apart. -/
theorem ofText_cases (token : String) :
    (ofText token = wrapped ∧ Text.strip token = "array") ∨
      (ofText token = blank ∧ Text.strip token = "") ∨
      (ofText token = name token ∧ Text.strip token ≠ "array" ∧ Text.strip token ≠ "") := by
  unfold ofText
  split
  next isArray => exact .inl ⟨rfl, isArray⟩
  next notArray =>
    split
    next isBlank => exact .inr (.inl ⟨rfl, isBlank⟩)
    next notBlank => exact .inr (.inr ⟨rfl, notArray, notBlank⟩)

theorem declared?_ofText (token : String) : (ofText token).declared? = some (Text.strip token) := by
  obtain ⟨entry, text⟩ | ⟨entry, text⟩ | ⟨entry, -⟩ := ofText_cases token
  · rw [entry, text, declared?]
  · rw [entry, text, declared?]
  · rw [entry, declared?]

/-- A name is neither the word `array` nor blank. -/
theorem strip_of_ofValue {v : Option Value} {token : String} (named : ofValue v = name token) :
    Text.strip token ≠ "array" ∧ Text.strip token ≠ "" := by
  have ofText_name {text : String} (h : ofText text = name token) :
      Text.strip token ≠ "array" ∧ Text.strip token ≠ "" := by
    obtain ⟨entry, -⟩ | ⟨entry, -⟩ | ⟨entry, spec⟩ := ofText_cases text
    · cases entry.symm.trans h
    · cases entry.symm.trans h
    · obtain rfl := TypeEntry.name.inj (entry.symm.trans h)
      exact spec
  unfold ofValue at named
  split at named
  next => cases named
  next => cases named
  next =>
    split at named
    next => cases named
    next => exact ofText_name named
  next => exact ofText_name named
  next => cases named
  next => cases named

end TypeEntry

theorem declaredType?_map (es : Entries) :
    declaredType? (.map es) = (typeEntry es).declared? := by
  rw [declaredType?, typeEntry]
  rcases es.text? "type" with _ | v
  · rfl
  · cases v with
    | str token =>
        change some (Text.strip token) = _
        rw [TypeEntry.ofValue]
        split
        next isArray =>
          rw [isArray]
          decide
        next => exact (TypeEntry.declared?_ofText token).symm
    | list items =>
        rcases items with _ | ⟨node, _ | ⟨second, rest⟩⟩
        · rfl
        · cases node with
          | str token => exact (TypeEntry.declared?_ofText token).symm
          | _ => rfl
        · cases node <;> rfl
    | _ => rfl

theorem rawType_eq (raw : Value) :
    rawType raw = (rawSource raw).1.text ++ String.join (List.replicate (rawSource raw).2 "[]") :=
  rfl

/-- What the text of a mapping names, by its type entry. -/
def textTable (es : Entries) : TypeEntry → Reference
  | .array => (itemsBy recorded es).array
  | .wrapped => (itemsBy recorded es).array
  | .blank => ofKeys es
  | .name token => (TypeExpr.parse token).1
  | .missing => undeclared recorded es
  | .listed _ => undeclared recorded es
  | .foreign => undeclared recorded es

theorem ofKeys_eq (es : Entries) :
    ofKeys es = (TypeExpr.parse (rawSource.ofKeys es)).1 := by
  rw [ofKeys, rawSource.ofKeys]
  split <;> decide

section Mapping

variable (noEnum : es.hasText "enum" = false)

include noEnum

/-- Around the text of the items stands one more suffix. -/
theorem recorded_of_items {items : Value} (there : es.text? "items" = some items)
    (open_ : declaredType? (.map es) = some "array" ∨ declaredType? (.map es) = none) :
    recorded (.map es) = (recorded items).array := by
  have source : rawSource (.map es) = ((rawSource items).1, (rawSource items).2 + 1) := by
    rw [rawSource, if_neg (by simp [noEnum])]
    split
    next found =>
      obtain rfl := Option.some.inj (found.symm.trans there)
      rw [if_pos open_]
    next missing => cases missing.symm.trans there
  have text : rawType (.map es) = rawType items ++ "[]" := by
    rw [rawType_eq, source, rawType_eq, List.replicate_succ', String.append_assoc]
    simp
  rw [recorded, text, TypeExpr.parse_append_suffix, recorded]

/-- An array without items is one over anything. -/
theorem recorded_of_missing (missing : es.text? "items" = none)
    (array : declaredType? (.map es) = some "array") :
    recorded (.map es) = .array (.scalar .any) := by
  have source : rawSource (.map es) = (.str "any", 1) := by
    rw [rawSource, if_neg (by simp [noEnum])]
    split
    next found => cases found.symm.trans missing
    next => rw [if_pos array]
  rw [recorded, rawType_eq, source]
  decide

/-- A mapping that is no array has the text of its declared type, or of its keys. -/
theorem recorded_of_token {token : Option String} (declared : declaredType? (.map es) = token)
    (noArray : token ≠ some "array") (open_ : token = none → es.text? "items" = none) :
    recorded (.map es) = (TypeExpr.parse (rawSource.namedType token es)).1 := by
  have source : rawSource (.map es) = (.str (rawSource.namedType token es), 0) := by
    rw [rawSource, if_neg (by simp [noEnum]), declared]
    split
    next found =>
      rw [if_neg]
      rintro (array | none_)
      · exact noArray array
      · cases (open_ none_).symm.trans found
    next => rw [if_neg noArray]
  rw [recorded, rawType_eq, source]
  simp [Value.text]

/-- The text of an array names the array over what the text of its items names. -/
theorem recorded_of_array (array : declaredType? (.map es) = some "array") :
    recorded (.map es) = (itemsBy recorded es).array := by
  cases there : es.text? "items" with
  | none =>
      rw [recorded_of_missing noEnum there array, itemsBy, there, Option.map_none,
        Option.getD_none]
  | some items =>
      rw [recorded_of_items noEnum there (.inl array), itemsBy, there, Option.map_some,
        Option.getD_some]

theorem recorded_of_undeclared (undeclared_ : declaredType? (.map es) = none) :
    recorded (.map es) = undeclared recorded es := by
  cases there : es.text? "items" with
  | none =>
      rw [recorded_of_token noEnum undeclared_ nofun fun _ => there, undeclared, there]
      exact (ofKeys_eq es).symm
  | some items => rw [recorded_of_items noEnum there (.inr undeclared_), undeclared, there]

theorem recorded_map : recorded (.map es) = textTable es (typeEntry es) := by
  have declared := declaredType?_map es
  cases entry : typeEntry es with
  | array => exact recorded_of_array noEnum (declared.trans (by rw [entry]; rfl))
  | wrapped => exact recorded_of_array noEnum (declared.trans (by rw [entry]; rfl))
  | blank =>
      rw [entry] at declared
      rw [recorded_of_token noEnum declared (by decide) nofun]
      exact (ofKeys_eq es).symm
  | name token =>
      rw [entry] at declared
      obtain ⟨noArray, noBlank⟩ := TypeEntry.strip_of_ofValue entry
      rw [recorded_of_token noEnum declared (fun same => noArray (Option.some.inj same)) nofun,
        TypeEntry.declared?, rawSource.namedType, if_neg (by simpa using noBlank),
        TypeExpr.parse_strip, textTable]
  | _ => exact recorded_of_undeclared noEnum (declared.trans (by rw [entry]; rfl))

end Mapping

/-! ## The table of the reference -/

/-- What is read off a mapping, by its type entry. -/
def referenceTable (es : Entries) : TypeEntry → Reference
  | .missing => undeclared readOff es
  | .array => (itemsBy readOff es).array
  | .wrapped => .array (.scalar .any)
  | .blank => .scalar .any
  | .name token => (TypeExpr.parse token).1
  | .listed node => readOff node
  | .foreign => ofKeys es

theorem referenceTable_ofText (es : Entries) (token : String) :
    referenceTable es (.ofText token) = (TypeExpr.parse token).1 := by
  obtain ⟨entry, text⟩ | ⟨entry, text⟩ | ⟨entry, -⟩ := TypeEntry.ofText_cases token
  · rw [entry, referenceTable, ← TypeExpr.parse_strip, text]
    decide
  · rw [entry, referenceTable, TypeExpr.parse_of_strip_eq_empty text]
  · rw [entry, referenceTable]

theorem readOff_str (token : String) : readOff (.str token) = (TypeExpr.parse token).1 := by
  rw [readOff, TypeExpr.ofNode, Option.getD_some]

theorem itemsBy_readOff (es : Entries) : itemsBy readOff es = itemsOf es := by
  rw [itemsBy, itemsOf]
  cases es.text? "items" <;> rfl

section Mapping

variable (noEnum : es.hasText "enum" = false)

include noEnum

theorem readOff_of_str {token : String} (typed : es.text? "type" = some (.str token)) :
    readOff (.map es) = referenceTable es (typeEntry es) := by
  rw [readOff, ofNode_of_str typed noEnum, typeEntry, typed, TypeEntry.ofValue]
  split
  next => rw [Option.getD_some, referenceTable, itemsBy_readOff]
  next => rw [referenceTable_ofText, ← readOff_str, readOff]

theorem readOff_of_list {node : Value} (typed : es.text? "type" = some (.list [node])) :
    readOff (.map es) = referenceTable es (typeEntry es) := by
  have entry : readOff (.map es) = readOff node := by
    rw [readOff, ofNode_of_list typed noEnum, readOff]
  rw [entry, typeEntry, typed]
  cases node with
  | str token => exact (readOff_str token).trans (referenceTable_ofText es token).symm
  | _ => rfl

/-- Without a type the items make an array, and else the keys tell. -/
theorem readOff_of_missing (untyped : es.text? "type" = none ∨ es.text? "type" = some .null) :
    readOff (.map es) = undeclared readOff es := by
  rw [readOff, TypeExpr.ofNode, if_neg (by simp [noEnum])]
  -- The reading matches on the type and the items at once: of its five rows the first and the
  -- fourth have a type that is not null, and the last one has no items to go down to.
  split
  next declared => rcases untyped with typed | typed <;> cases declared.symm.trans typed
  next there =>
    rw [undeclared, there]
    rfl
  next there =>
    rw [undeclared, there]
    rfl
  next declared => rcases untyped with typed | typed <;> cases declared.symm.trans typed
  next _ noItems noNullItems =>
    cases there : es.text? "items" with
    | none =>
        rw [undeclared, there]
        rfl
    | some items =>
        rcases untyped with typed | typed
        · exact (noItems _ typed there).elim
        · exact (noNullItems _ typed there).elim

/-- Under a type that is neither a text nor a list of one entry the items are not looked at. -/
theorem readOff_of_foreign {v : Value} (typed : es.text? "type" = some v) (some_ : v ≠ .null)
    (noText : ∀ token, v ≠ .str token) (noList : ∀ node, v ≠ .list [node]) :
    readOff (.map es) = ofKeys es := by
  rw [readOff, TypeExpr.ofNode, if_neg (by simp [noEnum])]
  split
  next declared => exact absurd (Option.some.inj (typed.symm.trans declared)) (noText _)
  next declared _ => cases declared.symm.trans typed
  next declared _ => exact absurd (Option.some.inj (typed.symm.trans declared)) some_
  next declared => exact absurd (Option.some.inj (typed.symm.trans declared)) (noList _)
  next => rfl

theorem readOff_map : readOff (.map es) = referenceTable es (typeEntry es) := by
  cases typed : es.text? "type" with
  | none =>
      rw [readOff_of_missing noEnum (.inl typed), typeEntry, typed, TypeEntry.ofValue,
        referenceTable]
  | some v =>
      cases v with
      | null =>
          rw [readOff_of_missing noEnum (.inr typed), typeEntry, typed, TypeEntry.ofValue,
            referenceTable]
      | str token => exact readOff_of_str noEnum typed
      | list items =>
          rcases items with _ | ⟨node, _ | ⟨second, rest⟩⟩
          · rw [readOff_of_foreign noEnum typed nofun nofun nofun, typeEntry, typed]
            rfl
          · exact readOff_of_list noEnum typed
          · rw [readOff_of_foreign noEnum typed nofun nofun nofun, typeEntry, typed]
            cases node <;> rfl
      | _ =>
          rw [readOff_of_foreign noEnum typed nofun nofun nofun, typeEntry, typed]
          rfl

end Mapping

/-! ## Where the two agree -/

/-- The ways in which the text of a node can name another type than the one that is read off. -/
inductive Differs : Value → Prop
  /-- What is neither an expression nor a mapping is read as anything, and its text can name a
  type; null has the text of a string. -/
  | foreign {v : Value} (noText : ∀ s, v ≠ .str s) (noMap : ∀ es, v ≠ .map es)
      (named : recorded v ≠ .scalar .any) : Differs v
  /-- Values make a string, and the text is that of the type beside them. -/
  | values {es : Entries} (enum : es.hasText "enum" = true)
      (named : recorded (.map es) ≠ .scalar .string) : Differs (.map es)
  /-- The two go down to the items together. -/
  | items {es : Entries} {node : Value} (noEnum : es.hasText "enum" = false)
      (entry : typeEntry es = .missing ∨ typeEntry es = .array)
      (there : es.text? "items" = some node) (below : Differs node) : Differs (.map es)
  /-- The text goes down to the items of an array whose word is in a list or has blanks around
  it, and the reference does not. -/
  | wrapped {es : Entries} {node : Value} (noEnum : es.hasText "enum" = false)
      (entry : typeEntry es = .wrapped) (there : es.text? "items" = some node)
      (named : recorded node ≠ .scalar .any) : Differs (.map es)
  /-- A type of blanks is none to the text, and anything in a reference. -/
  | blank {es : Entries} (noEnum : es.hasText "enum" = false) (entry : typeEntry es = .blank)
      (bare : es.hasText "properties" = false) : Differs (.map es)
  /-- A mapping as the only entry of a list is its type to the reference alone. -/
  | listed {es : Entries} {node : Value} (noEnum : es.hasText "enum" = false)
      (entry : typeEntry es = .listed node) (named : undeclared recorded es ≠ readOff node) :
      Differs (.map es)
  /-- Beside a type of any other form the text goes down to the items, and the reference does
  not. -/
  | unread {es : Entries} {node : Value} (noEnum : es.hasText "enum" = false)
      (entry : typeEntry es = .foreign) (there : es.text? "items" = some node) : Differs (.map es)

theorem readOff_of_other {v : Value} (noText : ∀ s, v ≠ .str s) (noMap : ∀ es, v ≠ .map es) :
    readOff v = .scalar .any := by
  cases v with
  | str s => exact (noText s rfl).elim
  | map es => exact (noMap es rfl).elim
  | _ =>
      rw [readOff, TypeExpr.ofNode]
      · rfl
      all_goals simp

theorem readOff_of_enum (enum : es.hasText "enum" = true) :
    readOff (.map es) = .scalar .string := by
  rw [readOff, TypeExpr.ofNode, if_pos enum, Option.getD_some]

theorem recorded_str (token : String) : recorded (.str token) = (TypeExpr.parse token).1 := by
  rw [recorded, rawType_eq, rawSource, ← TypeExpr.parse_strip]
  simp [Value.text]

theorem array_inj {r r' : Reference} : r.array = r'.array ↔ r = r' :=
  ⟨fun same => (Reference.holding.inj same).2.2, congrArg _⟩

/-- Where the two differ on a mapping, by its type entry. -/
def differenceTable (es : Entries) : TypeEntry → Prop
  | .missing => ∃ node, es.text? "items" = some node ∧ Differs node
  | .array => ∃ node, es.text? "items" = some node ∧ Differs node
  | .wrapped => ∃ node, es.text? "items" = some node ∧ recorded node ≠ .scalar .any
  | .blank => es.hasText "properties" = false
  | .name _ => False
  | .listed node => undeclared recorded es ≠ readOff node
  | .foreign => ∃ node, es.text? "items" = some node

theorem differs_map (noEnum : es.hasText "enum" = false) :
    Differs (.map es) ↔ differenceTable es (typeEntry es) := by
  constructor
  · intro differs
    cases differs with
    | foreign _ noMap _ => exact (noMap es rfl).elim
    | values enum _ => simp [noEnum] at enum
    | items _ entry there below =>
        rcases entry with entry | entry
        · rw [entry]
          exact ⟨_, there, below⟩
        · rw [entry]
          exact ⟨_, there, below⟩
    | wrapped _ entry there named => rw [entry]; exact ⟨_, there, named⟩
    | blank _ entry bare => rw [entry]; exact bare
    | listed _ entry named => rw [entry]; exact named
    | unread _ entry there => rw [entry]; exact ⟨_, there⟩
  · intro differs
    cases entry : typeEntry es with
    | missing =>
        rw [entry] at differs
        obtain ⟨node, there, below⟩ := differs
        exact .items noEnum (.inl entry) there below
    | array =>
        rw [entry] at differs
        obtain ⟨node, there, below⟩ := differs
        exact .items noEnum (.inr entry) there below
    | wrapped =>
        rw [entry] at differs
        obtain ⟨node, there, named⟩ := differs
        exact .wrapped noEnum entry there named
    | blank => rw [entry] at differs; exact .blank noEnum entry differs
    | name token => rw [entry] at differs; exact differs.elim
    | listed node => rw [entry] at differs; exact .listed noEnum entry differs
    | foreign =>
        rw [entry] at differs
        obtain ⟨node, there⟩ := differs
        exact .unread noEnum entry there

section Below

variable (below : ∀ node, es.text? "items" = some node →
  (recorded node = readOff node ↔ ¬ Differs node))

include below

theorem undeclared_eq_iff : undeclared recorded es = undeclared readOff es ↔
    ¬ ∃ node, es.text? "items" = some node ∧ Differs node := by
  rw [undeclared, undeclared]
  cases there : es.text? "items" with
  | none => simp
  | some node => simp [array_inj, below node there]

theorem itemsBy_eq_iff : itemsBy recorded es = itemsBy readOff es ↔
    ¬ ∃ node, es.text? "items" = some node ∧ Differs node := by
  rw [itemsBy, itemsBy]
  cases there : es.text? "items" with
  | none => simp
  | some node => simp [below node there]

/-- Row by row, the two tables have the same reference unless the third names the row. -/
theorem tables_eq_iff (entry : TypeEntry) :
    textTable es entry = referenceTable es entry ↔ ¬ differenceTable es entry := by
  cases entry with
  | missing => exact undeclared_eq_iff below
  | array =>
      rw [textTable, referenceTable, differenceTable, array_inj]
      exact itemsBy_eq_iff below
  | wrapped =>
      rw [textTable, referenceTable, differenceTable, array_inj, itemsBy]
      cases es.text? "items" <;> simp
  | blank =>
      rw [textTable, referenceTable, differenceTable, ofKeys]
      cases es.hasText "properties" <;> decide
  | name token => exact iff_of_true rfl id
  | listed node => exact Decidable.not_not.symm
  | foreign =>
      rw [textTable, referenceTable, differenceTable, undeclared]
      cases es.text? "items" with
      | none => simp
      | some node => simp [Reference.array, ofKeys, Reference.scalar]

end Below

theorem recorded_eq_iff_of_map (es : Entries)
    (below : ∀ node, es.text? "items" = some node →
      (recorded node = readOff node ↔ ¬ Differs node)) :
    recorded (.map es) = readOff (.map es) ↔ ¬ Differs (.map es) := by
  cases enum : es.hasText "enum" with
  | true =>
      -- Values make every such mapping a string, so only the row for values can apply.
      rw [readOff_of_enum enum, ← Decidable.not_not (p := _ = _), not_iff_not]
      refine ⟨.values enum, fun differs => ?_⟩
      cases differs with
      | foreign _ noMap _ => exact (noMap es rfl).elim
      | values _ named => exact named
      | _ => simp_all
  | false =>
      rw [recorded_map enum, readOff_map enum, differs_map enum]
      exact tables_eq_iff below _

theorem recorded_eq_iff_of_str (s : String) :
    recorded (.str s) = readOff (.str s) ↔ ¬ Differs (.str s) := by
  rw [recorded_str, readOff_str]
  refine iff_of_true rfl fun differs => ?_
  cases differs with
  | foreign noText _ _ => exact noText s rfl

theorem recorded_eq_iff_of_other (noText : ∀ s, raw ≠ .str s) (noMap : ∀ es, raw ≠ .map es) :
    recorded raw = readOff raw ↔ ¬ Differs raw := by
  rw [readOff_of_other noText noMap, ← Decidable.not_not (p := _ = _), not_iff_not]
  refine ⟨.foreign noText noMap, fun differs => ?_⟩
  cases differs with
  | foreign _ _ named => exact named
  | _ => exact (noMap _ rfl).elim

/-- The recorded text of a node names what is read off it unless one of the ways in which they
differ applies. -/
theorem recorded_eq_iff (raw : Value) : recorded raw = readOff raw ↔ ¬ Differs raw :=
  -- Both readings go down along `items` alone, so that is what the induction goes down along.
  match raw with
  | .map es => recorded_eq_iff_of_map es fun node _there => recorded_eq_iff node
  | .str s => recorded_eq_iff_of_str s
  | .null | .bool _ | .int _ | .float _ | .list _ | .tuple _ | .set _ | .date _ | .dateTime _
  | .time _ | .bytes _ => recorded_eq_iff_of_other nofun nofun
termination_by sizeOf raw
decreasing_by
  have smaller := Value.sizeOf_text?_lt _there
  rw [Value.map.sizeOf_spec]
  omega

/-- A member that is null is a string, as text and as reference. -/
theorem recorded_null : recorded .null = readOff (.str "string") := by
  rw [readOff_str, recorded, rawType_eq, rawSource]
  decide

theorem property_rawType_iff (requiredByDefault : Bool) (key raw : Value) :
    (TypeExpr.parse (property requiredByDefault key raw).rawType).1 =
        (property requiredByDefault key raw).reference ↔ raw = .null ∨ ¬ Differs raw := by
  change recorded raw = readOff (if raw.isNull then .str "string" else raw) ↔ _
  cases raw with
  | null => exact iff_of_true recorded_null (.inl rfl)
  | _ => exact (recorded_eq_iff _).trans (or_iff_right nofun).symm

/-- Every member is recorded with a text that names its reference, unless it is not null and one
of the ways applies in which the two readings of its node differ. -/
theorem properties_rawType_iff (es : Entries) (requiredByDefault : Bool) :
    List.Forall₂ (fun e p =>
        (TypeExpr.parse p.rawType).1 = p.reference ↔ e.2 = .null ∨ ¬ Differs e.2)
      es (properties (.map es) requiredByDefault) :=
  List.forall₂_map_right_iff.mpr (List.forall₂_same.mpr fun e _ =>
    property_rawType_iff requiredByDefault e.1 e.2)

/-- Members whose text names another type: the word `array` in a list and with a blank behind
it, items that are null, and a type of one blank. -/
def strayTexts : Entries :=
  [(.str "sums", .map [(.str "type", .list [.str "array"]), (.str "items", .str "Money")]),
    (.str "rows", .map [(.str "type", .str "array "), (.str "items", .str "Money")]),
    (.str "rest", .map [(.str "type", .str "array"), (.str "items", .null)]),
    (.str "note", .map [(.str "type", .str " ")])]

theorem strayTexts_name_other_types :
    (properties (.map strayTexts) true).map (fun p => (TypeExpr.parse p.rawType).1) =
        [.array (.named "Money"), .array (.named "Money"), .array (.scalar .string),
          .scalar .string] ∧
      (properties (.map strayTexts) true).map (·.reference) =
        [.array (.scalar .any), .array (.scalar .any), .array (.scalar .any), .scalar .any] := by
  have money : recorded (.str "Money") = .named "Money" := by
    rw [recorded_str]
    decide
  have string : recorded .null = .scalar .string := by
    rw [recorded_null, readOff_str]
    decide
  have nothing : readOff .null = .scalar .any := readOff_of_other nofun nofun
  have text (es : Entries) (noEnum : es.hasText "enum" = false) :
      recorded (.map es) = textTable es (typeEntry es) := recorded_map noEnum
  have reference (es : Entries) (noEnum : es.hasText "enum" = false) :
      readOff (.map es) = referenceTable es (typeEntry es) := readOff_map noEnum
  constructor
  · change [recorded (.map _), recorded (.map _), recorded (.map _), recorded (.map _)] = _
    rw [text _ rfl, text _ rfl, text _ rfl, text _ rfl]
    change [(recorded (.str "Money")).array, (recorded (.str "Money")).array,
      (recorded .null).array, .scalar .string] = _
    rw [money, string]
  · change [readOff (.map _), readOff (.map _), readOff (.map _), readOff (.map _)] = _
    rw [reference _ rfl, reference _ rfl, reference _ rfl, reference _ rfl]
    change [.array (.scalar .any), .array (.scalar .any), (readOff .null).array, .scalar .any] = _
    rw [nothing]

end Declaration

end ClientForge
