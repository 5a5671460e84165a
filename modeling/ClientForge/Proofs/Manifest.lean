import ClientForge.Proofs.Autoload
import ClientForge.Proofs.Identifier
import ClientForge.Proofs.JsonReading
import ClientForge.Proofs.Provision

/-!
# What a manifest says

The manifest of a package is a JSON document that gives the name of the package, its version and
the only package that it needs. The three texts are copied between the quotes as they are. A text
without quotes, backslashes and control characters is read as it was meant. Any other one may break
the document, or end its string early and go on with members of its own choice; but what is read of
it is shorter than it. So no choice of texts makes up for this: if all three are read as they were
meant, one with such a character would have to be read in another one that is longer and has such a
character too, and the longest of them has no place left.
-/

namespace ClientForge.Emission

open ClientForge.Json ClientForge.Outcome ClientForge.Text

/-! ## Three strings in a document -/

/-- A piece of a document from the end of one of its strings to a place where a scanner stands. -/
structure Piece (next : Scanner) where
  chars : List Char
  tokens : List Token
  closes : Scanner.Closes chars next tokens
  verbatim : ∀ t ∈ strings tokens, IsVerbatim t.toList

/-- What is read where one of several texts was copied has no character that would need an escape,
or it is shorter than a text that has. -/
theorem Piece.settles {next : Scanner} (piece : Piece next) {texts : List String} {text t : String}
    (copied : text ∈ texts) (read : t ∈ strings piece.tokens ∨ IsReadFrom text.toList t) :
    IsVerbatim t.toList ∨
      ∃ longer ∈ texts, ¬ IsVerbatim longer.toList ∧ t.length < longer.length := by
  rcases read with fixed | read
  · exact .inl (piece.verbatim t fixed)
  · cases read with
    | whole verbatim =>
        rw [String.toList_ofList]
        exact .inl verbatim
    | part other short =>
        rw [String.length_toList] at short
        exact .inr ⟨text, copied, other, short⟩

/-- A document in which three strings are open. What follows the last piece may hold a string that
is escaped, if none that stays inside another string is read like it. -/
structure Layout where
  lead : List Char
  leadTokens : List Token
  opens : Scanner.between.scan lead = some (.inside .text [], leadTokens)
  verbatim : ∀ t ∈ strings leadTokens, IsVerbatim t.toList
  first : Piece (.inside .text [])
  second : Piece (.inside .text [])
  next : Scanner
  third : Piece next
  tail : List Char
  tailTokens : List Token
  ends : next.scan tail = some (.between, tailTokens)
  apart : ∀ t ∈ strings tailTokens, IsVerbatim t.toList ∨ ¬ Scanner.StaysInside t.toList

namespace Layout

variable (layout : Layout) {name version needed : String} {ts : List Token}

/-- The characters of the document with three texts filled in. -/
def chars (name version needed : String) : List Char :=
  layout.lead ++ (name.toList ++ layout.first.chars ++ (version.toList ++ layout.second.chars ++
    (needed.toList ++ layout.third.chars ++ layout.tail)))

/-- The tokens that are meant. -/
def tokens (name version needed : String) : List Token :=
  layout.leadTokens ++ (.str name :: layout.first.tokens ++ (.str version :: layout.second.tokens ++
    (.str needed :: layout.third.tokens ++ layout.tailTokens)))

theorem tokens?_of_isVerbatim (hn : IsVerbatim name.toList) (hv : IsVerbatim version.toList)
    (hd : IsVerbatim needed.toList) :
    tokens? (layout.chars name version needed) = some (layout.tokens name version needed) := by
  have filled {next : Scanner} (piece : Piece next) {text : String} (h : IsVerbatim text.toList) :
      (Scanner.inside .text []).scan (text.toList ++ piece.chars) =
        some (next, .str text :: piece.tokens) := by
    simpa using piece.closes.scan_of_isVerbatim h
  have all : Scanner.between.scan (layout.chars name version needed) =
      some (.between, layout.tokens name version needed) :=
    Scanner.scan_append_of_eq_some layout.opens
      (Scanner.scan_append_of_eq_some (filled layout.first hn)
        (Scanner.scan_append_of_eq_some (filled layout.second hv)
          (Scanner.scan_append_of_eq_some (filled layout.third hd) layout.ends)))
  rw [tokens?, all]
  simp [Scanner.finish?]

/-- Texts that are all read as they were meant have no character that would need an escape. -/
theorem isVerbatim_of_tokens? (h : tokens? (layout.chars name version needed) = some ts)
    (found : ∀ t ∈ [name, version, needed], t ∈ strings ts) :
    ∀ t ∈ [name, version, needed], IsVerbatim t.toList := by
  obtain ⟨⟨u, all⟩, scanned, h⟩ := Option.bind_eq_some_iff.mp h
  obtain ⟨last, finished, rfl⟩ := Option.map_eq_some_iff.mp h
  obtain ⟨u₀, lead, rest₀, opens, scanned₀, rfl⟩ := Scanner.exists_scan_of_append scanned
  rw [layout.opens] at opens
  obtain ⟨rfl, rfl⟩ := Prod.mk.inj (Option.some.inj opens)
  obtain ⟨u₁, first, rest₁, here₁, scanned₁, rfl⟩ := Scanner.exists_scan_of_append scanned₀
  obtain ⟨rfl, stays₁, read₁⟩ := layout.first.closes.cases_of_scan here₁
  obtain ⟨u₂, second, rest₂, here₂, scanned₂, rfl⟩ := Scanner.exists_scan_of_append scanned₁
  obtain ⟨rfl, stays₂, read₂⟩ := layout.second.closes.cases_of_scan here₂
  obtain ⟨u₃, third, rest₃, here₃, scanned₃, rfl⟩ := Scanner.exists_scan_of_append scanned₂
  obtain ⟨rfl, stays₃, read₃⟩ := layout.third.closes.cases_of_scan here₃
  rw [layout.ends] at scanned₃
  obtain ⟨rfl, rfl⟩ := Prod.mk.inj (Option.some.inj scanned₃)
  obtain rfl : [] = last := Option.some.inj finished
  refine isVerbatim_of_shorter fun t ht => ?_
  -- Only the escaped string could be one of the texts without being read where one was copied.
  have stays : Scanner.StaysInside t.toList := by
    simp only [List.mem_cons, List.not_mem_nil, or_false] at ht
    rcases ht with rfl | rfl | rfl
    · exact stays₁
    · exact stays₂
    · exact stays₃
  have where_ := found t ht
  simp only [strings_append, List.append_nil, List.mem_append] at where_
  rcases where_ with fixed | read | read | read | tail
  · exact .inl (layout.verbatim t fixed)
  · exact layout.first.settles (.head _) (read₁ t read)
  · exact layout.second.settles (.tail _ (.head _)) (read₂ t read)
  · exact layout.third.settles (.tail _ (.tail _ (.head _))) (read₃ t read)
  · exact .inl ((layout.apart t tail).resolve_right (not_not_intro stays))

end Layout

/-! ## The two manifests -/

/-- The member of a manifest that lists what a package needs. -/
def needsName : Language → String
  | .javascript => "dependencies"
  | .php => "require"

/-- Whether a text is a document that gives a name, a version and the only package that is
needed. -/
def Describes (l : Language) (text name version needed : String) : Prop :=
  ∃ p, Json.read? text = some p ∧ p.member? "name" = some (.str name) ∧
    p.member? "version" = some (.str version) ∧
    ∃ needs, p.member? (needsName l) = some needs ∧ needs.names = [needed]

theorem Describes.mem_strings {l : Language} {text name version needed : String}
    (h : Describes l text name version needed) : ∃ ts, tokens? text.toList = some ts ∧
      ∀ t ∈ [name, version, needed], t ∈ strings ts := by
  obtain ⟨p, read, named, versioned, needs, listed, only⟩ := h
  have string {name text : String} (there : p.member? name = some (.str text)) :
      text ∈ strings p.tokens :=
    List.mem_filterMap.mpr ⟨.str text, Printed.tokens_subset_of_member? there (.head _), rfl⟩
  have key : needed ∈ strings needs.tokens :=
    Printed.mem_strings_of_names (only ▸ List.mem_singleton_self needed)
  have inside : needed ∈ strings p.tokens :=
    List.filterMap_subset _ (Printed.tokens_subset_of_member? listed) key
  refine ⟨p.tokens, read?_eq_some_iff.mp read, ?_⟩
  simpa using ⟨string named, string versioned, inside⟩

/-- A text of a layout is read as it is meant exactly if none of the three texts in it has a
character that would need an escape. -/
theorem Layout.describes_iff (layout : Layout) {l : Language} {text name version needed : String}
    {p needs : Printed} (shape : text.toList = layout.chars name version needed)
    (meant : layout.tokens name version needed = p.tokens)
    (named : p.member? "name" = some (.str name))
    (versioned : p.member? "version" = some (.str version))
    (listed : p.member? (needsName l) = some needs) (only : needs.names = [needed]) :
    Describes l text name version needed ↔ ∀ t ∈ [name, version, needed], IsVerbatim t.toList := by
  constructor
  · intro describes
    obtain ⟨ts, scanned, found⟩ := describes.mem_strings
    exact layout.isVerbatim_of_tokens? (shape ▸ scanned) found
  · intro verbatim
    simp only [List.forall_mem_cons, List.not_mem_nil, false_implies, implies_true,
      and_true] at verbatim
    obtain ⟨hn, hv, hd⟩ := verbatim
    refine ⟨p, read?_eq_some_iff.mpr ?_, named, versioned, needs, listed, only⟩
    rw [shape, layout.tokens?_of_isVerbatim hn hv hd, meant]

def packageJson : Layout where
  lead := "\x7b\n  \"name\": \"".toList
  leadTokens := [.openObj, .str "name", .colon]
  opens := rfl
  verbatim := by decide
  first :=
    { chars := '\x22' :: ",\n  \"version\": \"".toList
      tokens := [.comma, .str "version", .colon]
      closes := Scanner.closes_of_stuck (fun _ => rfl) (fun _ => rfl) (by decide)
      verbatim := by decide }
  second :=
    { chars := '\x22' ::
        ",\n  \"main\": \"src/index.js\",\n  \"dependencies\": \x7b\n    \"".toList
      tokens := [.comma, .str "main", .colon, .str "src/index.js", .comma, .str "dependencies",
        .colon, .openObj]
      closes := Scanner.closes_of_stuck (fun _ => rfl) (fun _ => rfl) (by decide)
      verbatim := by decide }
  next := .between
  third :=
    { chars := '\x22' :: ": \"*\"\n  \x7d\n\x7d\n".toList
      tokens := [.colon, .str "*", .closeObj, .closeObj]
      closes := Scanner.closes_of_stuck (fun _ => rfl) (fun _ => rfl) (by decide)
      verbatim := by decide }
  tail := []
  tailTokens := []
  ends := rfl
  apart := nofun

theorem toList_text_packageJson (name version common : String) :
    (SourceFile.text (.javascript (.manifest name version common))).toList =
      packageJson.chars name version common := by
  simp only [SourceFile.text, JavascriptFile.lines, JavascriptFile.manifestLines,
    String.toList_join, List.flatMap_map, List.flatMap_cons, List.flatMap_nil,
    String.toList_append, List.append_assoc, List.append_nil, Layout.chars]
  rfl

theorem describes_packageJson_iff (name version common : String) :
    Describes .javascript (SourceFile.text (.javascript (.manifest name version common)))
        name version common ↔ ∀ t ∈ [name, version, common], IsVerbatim t.toList :=
  packageJson.describes_iff (toList_text_packageJson name version common)
    (p := .obj [("name", .str name), ("version", .str version), ("main", .str "src/index.js"),
      ("dependencies", .obj [(common, .str "*")])]) rfl rfl rfl rfl rfl

/-! ## The prefix of namespaces

The prefix is escaped in the manifest. Read back it holds backslashes, and behind the first one
there is nothing or a capital or a digit. No text that is copied as it is could be read like this
and stay inside its string. -/

theorem isVerbatim_of_isWordChar {cs : List Char} (h : ∀ c ∈ cs, isWordChar c = true) :
    IsVerbatim cs :=
  fun c hc => readable_of_isWordChar (h c hc)

theorem ofEscape?_eq_none {c : Char} (word : isWordChar c = true) (other : isAsciiLower c = false) :
    ofEscape? c = none := by
  rw [ofEscape?, Option.map_eq_none_iff, List.find?_eq_none]
  have letters : ∀ e ∈ ([('\x22', '\x22'), ('\x5c', '\x5c'), ('/', '/'), ('b', '\x08'),
      ('f', '\x0c'), ('n', '\n'), ('r', '\r'), ('t', '\t')] : List (Char × Char)),
      isWordChar e.1 = false ∨ isAsciiLower e.1 = true := by decide
  intro e he same
  obtain rfl : e.1 = c := by simpa using same
  rcases letters e he with no | yes
  · simp [word] at no
  · simp [other] at yes

theorem not_staysInside {before after : List Char} (verbatim : IsVerbatim before)
    (stuck : ∀ c ∈ after.head?, c ≠ 'u' ∧ ofEscape? c = none) :
    ¬ Scanner.StaysInside (before ++ '\x5c' :: after) := by
  rintro ⟨read, here, scanned⟩
  obtain ⟨middle, first, rest, left, right, -⟩ := Scanner.exists_scan_of_append scanned
  rw [Scanner.scan_of_isVerbatim verbatim] at left
  obtain ⟨rfl, -⟩ := Prod.mk.inj (Option.some.inj left)
  obtain ⟨next, _, _, stepped, escaped, -⟩ := Scanner.exists_step_of_scan right
  obtain ⟨rfl, -⟩ := Prod.mk.inj (Option.some.inj stepped)
  cases after with
  | nil => cases escaped
  | cons c after =>
      obtain ⟨unicode, listed⟩ := stuck c rfl
      obtain ⟨_, _, _, refused, -, -⟩ := Scanner.exists_step_of_scan escaped
      simp only [Scanner.step, Reader.step, if_neg unicode, listed] at refused
      cases refused

/-- The last segment of a namespace opens with a capital or a digit. -/
theorem exists_cons_interface (api : String) : ∃ first more,
    (Naming.orName (Naming.pascal api) "Api" ++ "Client").toList = first :: more ∧
      isAsciiLower first = false := by
  have open_ (name : String) (head : ∀ c ∈ name.toList.head?, isAsciiLower c = false) :
      ∃ first more, (name ++ "Client").toList = first :: more ∧ isAsciiLower first = false := by
    rw [String.toList_append]
    cases chars : name.toList with
    | nil => exact ⟨'C', ['l', 'i', 'e', 'n', 't'], rfl, by decide⟩
    | cons c cs => exact ⟨c, cs ++ "Client".toList, rfl, head c (by rw [chars]; rfl)⟩
  unfold Naming.orName
  split
  next =>
      refine open_ "Api" ?_
      rintro c ⟨⟩
      decide
  next =>
      refine open_ _ fun c hc => ?_
      rw [Naming.head?_pascal] at hc
      obtain ⟨d, -, rfl⟩ := Option.map_eq_some_iff.mp hc
      exact Naming.isAsciiLower_capital d

theorem not_staysInside_namespace {r : Naming.Resolver} {space : String}
    (named : r.namespaceName = .ok space) : ¬ Scanner.StaysInside (space ++ "\\").toList := by
  obtain ⟨vendor, given, rest⟩ := bind_eq_ok.mp named
  obtain ⟨api, called, -⟩ := bind_eq_ok.mp rest
  rw [namespaceName_of_texts (eq_str_of_nameText given) (eq_str_of_nameText called)] at named
  obtain rfl := Except.ok.inj named
  have word := isWord_interface api
  split
  next =>
      rw [String.toList_append]
      exact not_staysInside (isVerbatim_of_isWordChar word) nofun
  next =>
      obtain ⟨first, more, parts, other⟩ := exists_cons_interface api
      have here : isWordChar first = true := word first (parts ▸ List.mem_cons_self)
      have shape : (Naming.pascal vendor ++ "\\" ++ (Naming.orName (Naming.pascal api) "Api" ++
          "Client") ++ "\\").toList =
          (Naming.pascal vendor).toList ++ '\x5c' :: (first :: more ++ ['\x5c']) := by
        rw [String.toList_append, String.toList_append, parts]
        simp
      rw [shape]
      refine not_staysInside (isVerbatim_of_isWordChar (Naming.isWord_className vendor)) ?_
      rintro c ⟨⟩
      refine ⟨?_, ofEscape?_eq_none here other⟩
      rintro rfl
      cases other

section Composer

variable {r : Naming.Resolver} {space : String} (named : r.namespaceName = .ok space)
include named

def composerJson : Layout where
  lead := "\x7b\n    \"name\": \"".toList
  leadTokens := [.openObj, .str "name", .colon]
  opens := rfl
  verbatim := by decide
  first :=
    { chars := '\x22' :: ",\n    \"version\": \"".toList
      tokens := [.comma, .str "version", .colon]
      closes := Scanner.closes_of_stuck (fun _ => rfl) (fun _ => rfl) (by decide)
      verbatim := by decide }
  second :=
    { chars := '\x22' :: ",\n    \"require\": \x7b\n        \"".toList
      tokens := [.comma, .str "require", .colon, .openObj]
      closes := Scanner.closes_of_stuck (fun _ => rfl) (fun _ => rfl) (by decide)
      verbatim := by decide }
  next := .inside .text []
  third :=
    { chars := '\x22' :: (": \"*\"\n    \x7d,\n    \"autoload\": \x7b\n        \"psr-4\": \x7b\n" ++
        "            \"").toList
      tokens := [.colon, .str "*", .closeObj, .comma, .str "autoload", .colon, .openObj,
        .str "psr-4", .colon, .openObj]
      closes := Scanner.closes_of_stuck (fun _ => rfl) (fun _ => rfl) (by decide)
      verbatim := by decide }
  tail := (autoloadText space).toList ++
    '\x22' :: ": \"src/\"\n        \x7d\n    \x7d\n\x7d\n".toList
  tailTokens := [.str (space ++ "\\"), .colon, .str "src/", .closeObj, .closeObj, .closeObj]
  ends := by
    rw [Scanner.scan_of_read? (read?_autoloadText (fun _ => mem_namespaceName named) _),
      List.nil_append, String.ofList_toList]
    rfl
  apart := by
    have read : strings [.str (space ++ "\\"), .colon, .str "src/", .closeObj, .closeObj,
      .closeObj] = [space ++ "\\", "src/"] := rfl
    rw [read]
    simp only [List.forall_mem_cons, List.not_mem_nil, false_implies, implies_true, and_true]
    exact ⟨.inr (not_staysInside_namespace named), .inl (by decide)⟩

theorem toList_text_composerJson (name version needed : String) :
    (SourceFile.text (.php (.manifest name version needed (autoloadText space)))).toList =
      (composerJson named).chars name version needed := by
  simp only [SourceFile.text, PhpFile.lines, PhpFile.space?, PhpFile.body, PhpFile.manifestLines,
    Option.map_none, Option.getD_none, List.nil_append, String.toList_join,
    List.flatMap_map, List.flatMap_cons, List.flatMap_nil, String.toList_append, List.append_assoc,
    List.append_nil, Layout.chars]
  rfl

theorem describes_composerJson_iff (name version needed : String) :
    Describes .php (SourceFile.text (.php (.manifest name version needed (autoloadText space))))
        name version needed ↔ ∀ t ∈ [name, version, needed], IsVerbatim t.toList :=
  (composerJson named).describes_iff (toList_text_composerJson named name version needed)
    (p := .obj [("name", .str name), ("version", .str version),
      ("require", .obj [(needed, .str "*")]),
      ("autoload", .obj [("psr-4", .obj [(space ++ "\\", .str "src/")])])]) rfl rfl rfl rfl rfl

end Composer

/-! ## The settings of a package -/

/-- Settings of texts. The name of the package and the runtime library may be left open. -/
structure Settings.AreTexts (s : Settings) : Prop where
  vendor : s.vendor.text?.isSome = true
  apiName : s.apiName.text?.isSome = true
  version : s.version.text?.isSome = true
  package : s.package = .null ∨ s.package.text?.isSome = true
  common : s.common = .null ∨ s.common.text?.isSome = true

/-- The settings that the name of a package repeats letter by letter. -/
def Settings.spelled (l : Language) (s : Settings) : List Value :=
  if s.package.isTruthy then [s.package]
  else if l = .javascript ∧ s.vendor.isTruthy then [s.vendor]
  else []

/-- The settings that a manifest repeats letter by letter. -/
def Settings.copied (l : Language) (s : Settings) : List Value :=
  s.version :: (s.spelled l ++ if l = .javascript ∧ s.common.isTruthy then [s.common] else [])

/-- The package that a package needs. -/
def neededPackage (l : Language) (name common : String) : String :=
  match l with
  | .javascript => common
  | .php => String.ofList (name.toList.takeWhile (· != '/')) ++ "/lib-rest-client-common"

theorem isVerbatim_hyphenated (name : String) : IsVerbatim (Naming.hyphenated name).toList := by
  intro c hc
  rw [Naming.hyphenated, String.toList_ofList] at hc
  rcases mem_joinWith hc with hyphen | ⟨small, there, inside⟩
  · obtain rfl := List.mem_singleton.mp hyphen
    decide
  · obtain ⟨w, hw, rfl⟩ := List.mem_map.mp there
    obtain ⟨d, hd, rfl⟩ := List.mem_map.mp inside
    exact readable_of_isWordChar (Naming.isWordChar_small (Naming.isWordChar_of_mem_words hw hd))

theorem isVerbatim_orName {name fallback : String} (h : IsVerbatim name.toList)
    (other : IsVerbatim fallback.toList) : IsVerbatim (Naming.orName name fallback).toList := by
  unfold Naming.orName
  split
  · exact other
  · exact h

variable {l : Language} {s : Settings} {e : Emitter} {definitions : List Definition}
  {actions : List Action} {tree : Tree}

/-- The name of a package where the settings give none. -/
theorem packageName_of_unset {vendor api : String} (given : s.vendor = .str vendor)
    (called : s.apiName = .str api) (unset : s.package.isTruthy = false) :
    (s.resolver l).packageName = .ok (.str
      ((match l with
        | .javascript => if vendor = "" then "" else vendor ++ "-"
        | .php => Naming.orName (Naming.hyphenated vendor) "vendor" ++ "/lib-") ++
        Naming.orName (Naming.hyphenated api) "api" ++ "-client")) := by
  simp only [Naming.Resolver.packageName, apiWords_of_text called, ok_bind]
  cases l with
  | javascript =>
      have truth : s.vendor.isTruthy = (vendor != "") := by rw [given]; rfl
      have spelled : written s.vendor = .ok vendor := by rw [given]; rfl
      by_cases none_ : vendor = "" <;> simp [Settings.resolver, unset, truth, spelled, none_]
  | php => simp [Settings.resolver, unset, given, Naming.nameText]

/-- Texts name a package. The name needs no escape exactly if no setting does that it repeats. -/
theorem Settings.AreTexts.exists_packageName (texts : s.AreTexts) (l : Language) :
    ∃ name, (s.resolver l).packageName = .ok (.str name) ∧
      (IsVerbatim name.toList ↔ ∀ v ∈ s.spelled l, IsVerbatim v.text.toList) := by
  cases chosen : s.package.isTruthy with
  | true =>
      obtain ⟨name, named⟩ : ∃ name, s.package = .str name := by
        rcases texts.package with missing | text
        · simp [missing, Value.isTruthy] at chosen
        · exact Value.exists_text text
      have given : (s.resolver l).packageName = .ok s.package := if_pos chosen
      refine ⟨name, named ▸ given, ?_⟩
      rw [spelled, if_pos chosen, named]
      simp [Value.text]
  | false =>
      obtain ⟨vendor, given⟩ := Value.exists_text texts.vendor
      obtain ⟨api, called⟩ := Value.exists_text texts.apiName
      have interface : IsVerbatim (Naming.orName (Naming.hyphenated api) "api").toList :=
        isVerbatim_orName (isVerbatim_hyphenated api) (by decide)
      have suffix : IsVerbatim "-client".toList := by decide
      have hyphen : IsVerbatim "-".toList := by decide
      refine ⟨_, packageName_of_unset given called chosen, ?_⟩
      rw [String.toList_append, String.toList_append, isVerbatim_append, isVerbatim_append,
        and_iff_left suffix, and_iff_left interface]
      cases l with
      | javascript =>
          have truth : s.vendor.isTruthy = (vendor != "") := by rw [given]; rfl
          by_cases none_ : vendor = ""
          · have empty : IsVerbatim "".toList := by decide
            simp only [spelled, chosen, truth, none_]
            simpa using empty
          · have repeated : s.spelled .javascript = [s.vendor] := by
              simp [spelled, chosen, truth, none_]
            rw [repeated, given, if_neg none_, String.toList_append, isVerbatim_append,
              and_iff_left hyphen, List.forall_mem_singleton]
            rfl
      | php =>
          refine iff_of_true ?_ (by simp [spelled, chosen])
          rw [String.toList_append, isVerbatim_append]
          exact ⟨isVerbatim_orName (isVerbatim_hyphenated vendor) (by decide), by decide⟩

/-- The runtime library needs no escape if the setting does not that names it. -/
theorem isVerbatim_library_iff {common : Value} (library : s.library .javascript = .ok common) :
    IsVerbatim common.text.toList ↔
      ∀ v ∈ if s.common.isTruthy then [s.common] else [], IsVerbatim v.text.toList := by
  unfold Settings.library at library
  split at library
  next chosen =>
      obtain rfl := Except.ok.inj library
      simp [chosen]
  next unset =>
      obtain rfl := Except.ok.inj library
      have verbatim : IsVerbatim "http-client-common".toList := by decide
      refine iff_of_true verbatim ?_
      simp [unset]

/-- What a manifest is filled with needs no escape exactly if no setting does that it repeats. -/
theorem forall_isVerbatim_iff {name : String} {common : Value} (library : s.library l = .ok common)
    (spelled : IsVerbatim name.toList ↔ ∀ v ∈ s.spelled l, IsVerbatim v.text.toList) :
    (∀ t ∈ [name, s.version.text, neededPackage l name common.text], IsVerbatim t.toList) ↔
      ∀ v ∈ s.copied l, IsVerbatim v.text.toList := by
  simp only [Settings.copied, List.forall_mem_cons, List.forall_mem_append, List.not_mem_nil,
    false_implies, implies_true, and_true, ← spelled]
  cases l with
  | javascript =>
      simp only [neededPackage, isVerbatim_library_iff library, true_and]
      exact and_left_comm
  | php =>
      have vendor (named : IsVerbatim name.toList) :
          IsVerbatim (neededPackage .php name common.text).toList := by
        rw [neededPackage, String.toList_append, isVerbatim_append, String.toList_ofList]
        exact ⟨fun c hc => named c (List.takeWhile_subset _ hc), by decide⟩
      constructor
      · rintro ⟨named, version, -⟩
        exact ⟨version, named, by simp⟩
      · rintro ⟨version, named, -⟩
        exact ⟨named, version, vendor named⟩

/-- The file that describes a package. -/
def manifestPath : Language → String
  | .javascript => "package.json"
  | .php => "composer.json"

theorem exists_manifest {index : Index} {clients : List String} {support : Tree} {name : String}
    (named : e.resolver.packageName = .ok (.str name))
    (made : supportFiles e index clients = .ok support) :
    ∃ file, (manifestPath e.language, file) ∈ support ∧
      (Describes e.language file.text name e.version.text
          (neededPackage e.language name e.common.text) ↔
        ∀ t ∈ [name, e.version.text, neededPackage e.language name e.common.text],
          IsVerbatim t.toList) := by
  cases language : e.language with
  | javascript =>
      simp only [supportFiles, language, named, ok_bind] at made
      obtain ⟨-, -, made⟩ := bind_eq_ok.mp made
      obtain rfl := Except.ok.inj made
      exact ⟨_, .tail _ (.tail _ (.head _)), describes_packageJson_iff _ _ _⟩
  | php =>
      simp only [supportFiles, language, named, ok_bind, packageVendor] at made
      obtain ⟨space, spaced, made⟩ := bind_eq_ok.mp made
      obtain ⟨common, -, made⟩ := bind_eq_ok.mp made
      obtain ⟨address, -, made⟩ := bind_eq_ok.mp made
      obtain ⟨version, wrote, made⟩ := bind_eq_ok.mp made
      obtain rfl := text_of_written wrote
      obtain rfl := Except.ok.inj made
      exact ⟨_, .tail _ (.tail _ (.head _)), describes_composerJson_iff spaced _ _ _⟩

/-- The manifest of a rendered package is a document that gives its name, its version and the only
package that it needs exactly if no setting that it repeats has a quote, a backslash or a control
character. -/
theorem manifest_describes_iff (texts : s.AreTexts) (made : Emitter.ofSettings l s = .ok e)
    (rendered : render e definitions actions = .ok tree) :
    ∃ name file, e.resolver.packageName = .ok (.str name) ∧
      tree.get? (manifestPath l) = some file ∧
      (Describes l file.text name s.version.text (neededPackage l name e.common.text) ↔
        ∀ v ∈ s.copied l, IsVerbatim v.text.toList) := by
  obtain ⟨name, named, spelled⟩ := texts.exists_packageName l
  obtain ⟨common, library, rfl⟩ := Settings.ofSettings_eq_ok.mp made
  obtain ⟨-, entities, clients, support, rfl, parts⟩ := render_eq_ok.mp rendered
  obtain ⟨file, there, describes⟩ := exists_manifest named parts.others
  exact ⟨name, file, named, Table.get?_eq_some_of_mem parts.once (List.mem_append_right _ there),
    describes.trans (forall_isVerbatim_iff library spelled)⟩

/-- Apostrophes and letters of any script can stand in a manifest. -/
theorem texts_without_quotes_describe : ∃ e tree file,
    Emitter.ofSettings .php
      { vendor := .str "acme", apiName := .str "shop", package := .str "smith's/shop",
        version := .str "1.0-β" } = .ok e ∧
    render e [] [] = .ok tree ∧ tree.get? "composer.json" = some file ∧
    Describes .php file.text "smith's/shop" "1.0-β" "smith's/lib-rest-client-common" := by
  obtain ⟨name, file, named, there, describes⟩ := manifest_describes_iff (l := .php)
    (s := { vendor := .str "acme", apiName := .str "shop", package := .str "smith's/shop",
            version := .str "1.0-β" })
    ⟨rfl, rfl, rfl, .inr rfl, .inl rfl⟩ rfl (rfl : render _ [] [] = .ok _)
  obtain rfl : "smith's/shop" = name := Value.str.inj (Except.ok.inj named)
  exact ⟨_, _, file, rfl, rfl, there, describes.mpr (by decide)⟩

/-- A quote in the version ends its string early, and what is left is no document. -/
theorem version_with_quote_breaks_manifest : ∃ e tree file,
    Emitter.ofSettings .javascript
      { vendor := .str "acme", apiName := .str "shop", version := .str "1.0\"beta" } = .ok e ∧
    render e [] [] = .ok tree ∧ tree.get? "package.json" = some file ∧
    Json.read? file.text = none :=
  ⟨_, _, _, rfl, rfl, rfl, Option.isNone_iff_eq_none.mp (by decide +kernel)⟩

end ClientForge.Emission
