import ClientForge.Proofs.DocumentTree
import Mathlib.Data.List.TakeWhile

/-!
# Kinds of documents

Whether a document is structured is told by the end of its name, and of its whole location
only what stands before the first question mark counts. In a folder whose path holds no
question mark that is the name of the document in the tree, unless nothing of it is left
before its own question mark; then it is the name of the folder. In a folder whose path holds
one, the tree does not count at all: all its documents are of one kind. So two folders tell
all kinds alike if they do so for three documents.
-/

namespace ClientForge

open FilePath
open ClientForge.Text

namespace FilePath

variable {d p q : FilePath} {parts : List String}

/-- The parts of a text that is cut at a slash are those before it and those behind it. -/
theorem parts_ofText_append_slash (s t : String) :
    (ofText (s ++ "/" ++ t)).parts = (ofText s).parts ++ (ofText t).parts := by
  have shape : (s ++ "/" ++ t).toList = s.toList ++ '/' :: t.toList := by simp
  simp only [ofText, split, shape, splitAt_append_cons, List.map_append, List.filter_append]

/-- A path as it is written, but for the dot of the empty path. -/
def spelled (p : FilePath) : String := p.root ++ "/".intercalate p.parts

theorem text_cases (p : FilePath) : p.text = p.spelled ∨ p.text = "." ∧ p.spelled = "" := by
  change (if p.spelled == "" then "." else p.spelled) = p.spelled ∨
    (if p.spelled == "" then "." else p.spelled) = "." ∧ p.spelled = ""
  cases empty : p.spelled == "" with
  | true => exact .inr ⟨rfl, by simpa using empty⟩
  | false => exact .inl rfl

theorem parts_ofText_spelled (readable : d.Readable) : (ofText d.spelled).parts = d.parts := by
  rcases text_cases d with same | ⟨dot, empty⟩
  · rw [← same, readable.ofText_text]
  · have whole := readable.ofText_text
    rw [dot] at whole
    rw [empty, ← whole]
    rfl

/-- What stands before a path in its text, seen from a folder. -/
def stem (d : FilePath) : String := if d.parts = [] then d.root else d.spelled ++ "/"

theorem spelled_below (named : parts ≠ []) :
    (d.below parts).spelled = d.stem ++ "/".intercalate parts := by
  unfold stem
  split
  next none => rw [spelled, below, none, List.nil_append]
  next above =>
    rw [spelled, below, String.intercalate_append_of_ne_nil above named, spelled]
    simp only [String.append_assoc]

theorem parts_stem_append (readable : d.Readable) (t : String) :
    (ofText (d.stem ++ t)).parts = d.parts ++ (ofText t).parts := by
  unfold stem
  split
  next none =>
    rw [none, ofText, filter_split_append readable.root]
    rfl
  next => rw [parts_ofText_append_slash, parts_ofText_spelled readable]

theorem notMem_of_mem_roots {root : String} (h : root ∈ roots) : '?' ∉ root.toList := by
  simp only [roots, List.mem_cons, List.not_mem_nil, or_false] at h
  rcases h with rfl | rfl | rfl <;> decide

theorem suffix_congr (last : p.parts.getLast? = q.parts.getLast?) : p.suffix = q.suffix := by
  unfold suffix name
  rw [last]

end FilePath

namespace Loading

variable {d d' : FilePath} {parts : List String} {s : String}

/-! ## What counts -/

/-- What counts of a location. -/
def counted (s : String) : String := String.ofList (s.toList.takeWhile (· != '?'))

theorem counted_append (plain : '?' ∉ s.toList) (t : String) :
    counted (s ++ t) = s ++ counted t := by
  have before : ∀ c ∈ s.toList, (c != '?') = true := fun c hc =>
    bne_iff_ne.mpr fun same => plain (same ▸ hc)
  rw [counted, String.toList_append, List.takeWhile_append_of_pos before, String.ofList_append,
    String.ofList_toList, ← counted]

theorem counted_of_notMem (plain : '?' ∉ s.toList) : counted s = s := by
  have whole := counted_append plain ""
  rw [String.append_empty] at whole
  exact whole.trans String.append_empty

theorem counted_append_of_mem (mark : '?' ∈ s.toList) (t : String) :
    counted (s ++ t) = counted s := by
  rw [counted, counted, String.toList_append, List.takeWhile_append]
  split
  next all =>
    have whole := (List.takeWhile_prefix (· != '?')).eq_of_length all
    rw [← whole] at mark
    exact absurd (List.mem_takeWhile_imp mark) (by decide)
  next => rfl

/-- Whether the last of some parts ends like the name of a structured document. -/
def endStructured (parts : List String) : Bool :=
  structuredSuffixes.contains (String.ofList ((suffix ⟨"", parts⟩).toList.map Char.toLower))

theorem isStructured_eq (s : String) :
    isStructured s = endStructured (ofText (counted s)).parts := by
  have same : (ofText (counted s)).suffix = suffix ⟨"", (ofText (counted s)).parts⟩ :=
    suffix_congr rfl
  rw [endStructured, ← same]
  rfl

theorem endStructured_append (parts more : List String) :
    endStructured (parts ++ more) =
      if more = [] then endStructured parts else endStructured more := by
  split
  next none => rw [none, List.append_nil]
  next some_ =>
    have same : suffix ⟨"", parts ++ more⟩ = suffix ⟨"", more⟩ :=
      suffix_congr (List.getLast?_append_of_ne_nil _ some_)
    rw [endStructured, same, ← endStructured]

theorem isStructured_text (p : FilePath) : isStructured p.text = isStructured p.spelled := by
  rcases text_cases p with same | ⟨dot, empty⟩
  · rw [same]
  · rw [dot, empty]
    decide

theorem mark_mem_text (p : FilePath) : '?' ∈ p.text.toList ↔ '?' ∈ p.spelled.toList := by
  rcases text_cases p with same | ⟨dot, empty⟩
  · rw [same]
  · rw [dot, empty]
    decide

/-! ## Documents in a folder -/

/-- What counts of the path of a document in a tree. -/
def countedParts (parts : List String) : List String :=
  (ofText (counted ("/".intercalate parts))).parts

/-- In a folder whose path holds no question mark the path of a document in the tree counts,
and the folder only where nothing is left of that path. -/
theorem kindIn_of_notMem (readable : d.Readable) (plain : '?' ∉ d.text.toList)
    (named : parts ≠ []) : kindIn d parts =
      if countedParts parts = [] then isStructured d.text
      else endStructured (countedParts parts) := by
  rw [mark_mem_text] at plain
  have plain' : '?' ∉ d.stem.toList := by
    unfold stem
    split
    · exact notMem_of_mem_roots readable.root
    · simpa using plain
  rw [kindIn, isStructured_text, isStructured_text, isStructured_eq, isStructured_eq,
    spelled_below named, counted_append plain', parts_stem_append readable,
    counted_of_notMem plain, parts_ofText_spelled readable, endStructured_append, countedParts]

/-- In a folder whose path holds a question mark the tree does not count. -/
theorem kindIn_of_mem (readable : d.Readable) (mark : '?' ∈ d.text.toList) (parts : List String) :
    kindIn d parts = isStructured d.text := by
  by_cases named : parts = []
  · rw [kindIn, named, below, List.append_nil]
  · have above : d.parts ≠ [] := by
      intro none
      rw [mark_mem_text, spelled, none, String.intercalate_nil, String.append_empty] at mark
      exact notMem_of_mem_roots readable.root mark
    rw [mark_mem_text] at mark
    rw [kindIn, isStructured_text, isStructured_text, isStructured_eq, isStructured_eq,
      spelled_below named, stem, if_neg above, String.append_assoc, counted_append_of_mem mark]

/-- Two folders that tell the kinds of documents alike. -/
structure Alike (d d' : FilePath) : Prop where
  mark : '?' ∈ d.text.toList ↔ '?' ∈ d'.text.toList
  kind : isStructured d.text = isStructured d'.text

instance : Decidable (Alike d d') :=
  decidable_of_iff (('?' ∈ d.text.toList ↔ '?' ∈ d'.text.toList) ∧
      isStructured d.text = isStructured d'.text)
    ⟨fun ⟨mark, kind⟩ => ⟨mark, kind⟩, fun ⟨mark, kind⟩ => ⟨mark, kind⟩⟩

/-- Folders that are alike tell the kinds of all documents alike. -/
theorem Alike.kindIn_eq (alike : Alike d d') (readable : d.Readable) (readable' : d'.Readable) :
    kindIn d = kindIn d' := by
  funext parts
  by_cases mark : '?' ∈ d.text.toList
  · rw [kindIn_of_mem readable mark, kindIn_of_mem readable' (alike.mark.mp mark), alike.kind]
  · by_cases named : parts = []
    · simpa [kindIn, named, below] using alike.kind
    · rw [kindIn_of_notMem readable mark named,
        kindIn_of_notMem readable' (mt alike.mark.mpr mark) named, alike.kind]

/-- The names of documents by which folders are told apart. -/
def telling : List String := ["t.yaml", "t", "?t"]

theorem kindIn_telling (readable : d.Readable) (plain : '?' ∉ d.text.toList) :
    telling.map (fun name => kindIn d [name]) = [true, false, isStructured d.text] := by
  have kind : ∀ name ∈ telling, kindIn d [name] =
      if countedParts [name] = [] then isStructured d.text
      else endStructured (countedParts [name]) := fun name _ =>
    kindIn_of_notMem readable plain (List.cons_ne_nil _ _)
  rw [List.map_congr_left kind]
  rfl

/-- Folders that tell the kinds of three documents alike tell all kinds alike. -/
theorem alike_of_telling (readable : d.Readable) (readable' : d'.Readable)
    (same : ∀ name ∈ telling, kindIn d [name] = kindIn d' [name]) : Alike d d' := by
  have all := List.map_congr_left same
  -- With a mark all kinds are the same, without one the first two are not.
  have apart : ∀ {k k' : Bool}, telling.map (fun _ => k) ≠ [true, false, k'] := by decide
  by_cases mark : '?' ∈ d.text.toList <;> by_cases mark' : '?' ∈ d'.text.toList
  · simp only [kindIn_of_mem readable mark, kindIn_of_mem readable' mark'] at all
    exact ⟨iff_of_true mark mark', (List.cons.inj all).1⟩
  · simp only [kindIn_of_mem readable mark, kindIn_telling readable' mark'] at all
    exact absurd all apart
  · simp only [kindIn_telling readable mark, kindIn_of_mem readable' mark'] at all
    exact absurd all.symm apart
  · rw [kindIn_telling readable mark, kindIn_telling readable' mark'] at all
    exact ⟨iff_of_false mark mark', by simpa using all⟩

example : Alike ⟨"", ["api.v1"]⟩ ⟨"/", ["srv", "copy"]⟩ := by decide

example : ¬ Alike ⟨"", ["api"]⟩ ⟨"", ["api.yaml"]⟩ := by decide

end Loading

end ClientForge
