import ClientForge.Proofs.ClassFile
import ClientForge.Proofs.JsonString

/-!
# Loading classes by their names

The manifest of a PHP package maps a prefix of namespaces to the folder of its sources. A
class is loaded from the file whose path below that folder is the rest of its name. The
prefix, the namespaces, the classes and the paths are printed in different places; in
every rendered tree they fit together, so each class is found where its name says.
-/

namespace ClientForge

open ClientForge.Text

/-- The name and the value of a member of a JSON object that stands alone on a line, both
strings. -/
def Json.memberOf? (line : String) : Option (String × String) :=
  match Json.readString? (line.toList.dropWhile (· = ' ')) with
  | some (name, ':' :: ' ' :: rest) =>
    match Json.readString? rest with
    | some (value, []) => some (name, value)
    | _ => none
  | _ => none

namespace Emission

open ClientForge.Outcome

/-- The line of a manifest behind which namespaces are mapped to folders. -/
def opening : String := "        \"psr-4\": \x7b"

/-- The prefix of namespaces that a manifest maps to a folder, and the folder, if it maps
exactly one. -/
def autoloadOf? (lines : List String) : Option (String × String) :=
  match lines.dropWhile (· ≠ opening) with
  | _ :: entry :: closing :: _ => if closing = "        \x7d" then Json.memberOf? entry else none
  | _ => none

/-- The name of the class below the prefix that belongs to a path below the folder. -/
def qualified (path : String) : String :=
  String.ofList (path.toList.map fun c => if c = '/' then '\x5c' else c)

theorem readable_of_isWordChar {c : Char} (h : isWordChar c = true) :
    c ≠ '\x22' ∧ c ≠ '\x5c' ∧ 0x20 ≤ c.toNat := by
  refine ⟨?_, ?_, ?_⟩
  · rintro rfl
    exact absurd h (by decide)
  · rintro rfl
    exact absurd h (by decide)
  · have low (d : Char) (hd : d ≤ c) : d.toNat ≤ c.toNat := hd
    simp only [isWordChar, isAsciiLetter, isAsciiUpper, isAsciiLower, isAsciiDigit, Bool.or_eq_true,
      Bool.and_eq_true, decide_eq_true_eq] at h
    rcases h with (h | h) | h
    · exact Nat.le_trans (by decide) (low _ h.1)
    · exact Nat.le_trans (by decide) (low _ h.1)
    · exact Nat.le_trans (by decide) (low _ h.1)

/-- Reading undoes the doubling of backslashes. -/
theorem read?_doubled {cs : List Char} (chars : ∀ c ∈ cs, isWordChar c = true ∨ c = '\x5c')
    (rest : List Char) :
    Json.Reader.text.read? (cs.flatMap (fun c => if c = '\x5c' then ['\x5c', '\x5c'] else [c]) ++
      '\x22' :: rest) = some (cs, rest) := by
  induction cs with
  | nil => exact Json.Reader.read?_close rest
  | cons c cs ih =>
      have tail := ih fun d hd => chars d (List.mem_cons_of_mem _ hd)
      rcases chars c List.mem_cons_self with word | rfl
      · obtain ⟨quote, slash, printable⟩ := readable_of_isWordChar word
        rw [List.flatMap_cons, if_neg slash, List.append_assoc, List.singleton_append,
          Json.Reader.read?_plain quote slash printable, tail]
        rfl
      · have slash : Json.ofEscape? '\x5c' = some '\x5c' := by decide
        rw [List.flatMap_cons, if_pos rfl, List.append_assoc, List.cons_append,
          List.singleton_append, Json.Reader.read?_short slash, tail]
        rfl

/-- The prefix in the manifest is read as the namespace with a backslash behind it. -/
theorem read?_autoloadText {space : String}
    (chars : ∀ c ∈ space.toList, isWordChar c = true ∨ c = '\x5c') (rest : List Char) :
    Json.Reader.text.read? ((autoloadText space).toList ++ '\x22' :: rest) =
      some ((space ++ "\\").toList, rest) := by
  have doubled : ∀ c ∈ (space ++ "\\").toList, isWordChar c = true ∨ c = '\x5c' := by
    intro c hc
    rw [String.toList_append, List.mem_append] at hc
    exact hc.elim (chars c) fun last => .inr (List.mem_singleton.mp last)
  rw [autoloadText, String.toList_ofList]
  exact read?_doubled doubled rest

theorem memberOf?_autoload {space : String}
    (chars : ∀ c ∈ space.toList, isWordChar c = true ∨ c = '\x5c') :
    Json.memberOf? ("            \"" ++ autoloadText space ++ "\": \"src/\"") =
      some (space ++ "\\", "src/") := by
  have trimmed : ("            \"" ++ autoloadText space ++ "\": \"src/\"").toList.dropWhile
      (· = ' ') = '\x22' :: ((autoloadText space).toList ++ '\x22' :: ": \"src/\"".toList) := by
    simp
  have name : Json.readString? ('\x22' :: ((autoloadText space).toList ++
      '\x22' :: ": \"src/\"".toList)) = some (space ++ "\\", ": \"src/\"".toList) := by
    rw [Json.readString?, read?_autoloadText chars, Option.map_some, String.ofList_toList]
  have value : Json.readString? "\"src/\"".toList = some ("src/", []) := by decide
  rw [Json.memberOf?, trimmed, name]
  change (match Json.readString? "\"src/\"".toList with
    | some (value, []) => some (space ++ "\\", value)
    | _ => none) = _
  rw [value]

theorem autoloadOf?_append {before : List String} (h : ∀ line ∈ before, line ≠ opening)
    (entry : String) (rest : List String) :
    autoloadOf? (before ++ opening :: entry :: "        \x7d" :: rest) = Json.memberOf? entry := by
  have found : (before ++ opening :: entry :: "        \x7d" :: rest).dropWhile (· ≠ opening) =
      opening :: entry :: "        \x7d" :: rest := by
    rw [List.dropWhile_append_of_pos fun line hl => decide_eq_true (h line hl),
      List.dropWhile_cons_of_neg (by simp)]
  simp only [autoloadOf?, found, if_true]

/-- The manifest maps the namespace, with a backslash behind it, to the folder of sources. -/
theorem autoloadOf?_manifest {space : String}
    (chars : ∀ c ∈ space.toList, isWordChar c = true ∨ c = '\x5c')
    (packageName version requirement : String) :
    autoloadOf? (PhpFile.manifest packageName version requirement (autoloadText space)).lines =
      some (space ++ "\\", "src/") := by
  have shape : (PhpFile.manifest packageName version requirement (autoloadText space)).lines =
      ["\x7b", "    \"name\": \"" ++ packageName ++ "\",",
        "    \"version\": \"" ++ version ++ "\",", "    \"require\": \x7b",
        "        \"" ++ requirement ++ "\": \"*\"", "    \x7d,",
        "    \"autoload\": \x7b"] ++ opening ::
        ("            \"" ++ autoloadText space ++ "\": \"src/\"") :: "        \x7d" ::
          ["    \x7d", "\x7d"] := rfl
  rw [shape, autoloadOf?_append, memberOf?_autoload chars]
  -- The line of the requirement opens alike, but it ends in another character.
  have required : "        \"" ++ requirement ++ "\": \"*\"" ≠ opening := by
    intro same
    have last := congrArg (fun s => s.toList.reverse.head?) same
    simp [opening] at last
  simp only [List.mem_cons, List.not_mem_nil, or_false]
  rintro line (rfl | rfl | rfl | rfl | rfl | rfl | rfl)
  · decide
  · exact fun same => by simpa [opening] using congrArg String.toList same
  · exact fun same => by simpa [opening] using congrArg String.toList same
  · decide
  · exact required
  · decide
  · decide

variable {e : Emitter} {definitions : List Definition} {actions : List Action} {tree : Tree}
  {space path : String} {f : PhpFile}

/-- Every file but the manifest holds a class, in the folder that its namespace ends with and
under the name of the class. -/
theorem IsClassFile.located (member : IsClassFile e definitions actions space path f) :
    (path = "composer.json" ∧ ∃ packageName version requirement,
        f = .manifest packageName version requirement (autoloadText space)) ∨
      ∃ folder cls, Naming.IsWord folder ∧ Naming.IsWord cls ∧
        path = "src/" ++ (folder ++ "/" ++ cls) ++ ".php" ∧
        f.space? = some (space ++ "\\" ++ folder) ∧ f.declares? = some cls := by
  have source (folder cls : String) : Naming.sourcePath .php folder cls =
      "src/" ++ (folder ++ "/" ++ cls) ++ ".php" := by
    simp only [Naming.sourcePath, Naming.extension, String.append_assoc]
    rfl
  have below (folder : String) : space ++ "\\" ++ folder = space ++ ("\\" ++ folder) :=
    String.append_assoc ..
  have word := member.isWord_declares
  cases member with
  | @entity d v hd other view =>
      refine .inr ⟨"Entity", v.className, by decide, word _ rfl, ?_, ?_, rfl⟩
      · rw [view.className]
        exact source "Entity" _
      · rw [below]
        rfl
  | @enumeration d v hd enum view =>
      refine .inr ⟨"Entity", v.className, by decide, word _ rfl, ?_, ?_, rfl⟩
      · rw [view.className]
        exact source "Entity" _
      · rw [below]
        rfl
  | @client c group v hg view =>
      refine .inr ⟨"Service", v.className, by decide, word _ rfl, ?_, ?_, rfl⟩
      · rw [view.className]
        exact source "Service" _
      · rw [below]
        rfl
  | dateFactory =>
      refine .inr ⟨"Service", "DateFactory", by decide, by decide, rfl, ?_, rfl⟩
      rw [below]
      rfl
  | clientFactory baseUrl clients =>
      refine .inr ⟨"Service", "ClientFactory", by decide, by decide, rfl, ?_, rfl⟩
      rw [below]
      rfl
  | manifest packageName version requirement =>
      exact .inl ⟨rfl, packageName, version, requirement, rfl⟩

theorem qualified_append {folder cls : String} (hf : Naming.IsWord folder)
    (hc : Naming.IsWord cls) : qualified (folder ++ "/" ++ cls) = folder ++ "\\" ++ cls := by
  have kept {word : String} (h : Naming.IsWord word) :
      word.toList.map (fun c => if c = '/' then '\x5c' else c) = word.toList := by
    have same : ∀ c ∈ word.toList, (if c = '/' then '\x5c' else c) = id c := by
      intro c hc
      refine if_neg ?_
      rintro rfl
      exact h.notMem (by decide) hc
    rw [List.map_congr_left same, List.map_id]
  rw [qualified, String.toList_append, String.toList_append, List.map_append, List.map_append,
    kept hf, kept hc]
  apply String.toList_inj.mp
  simp

/-- What the lines of a class file declare is the class that its path stands for. -/
theorem IsClassFile.loads {p : String} (named : e.resolver.namespaceName = .ok space)
    (member : IsClassFile e definitions actions space ("src/" ++ p ++ ".php") f) :
    ∃ ns cls, f.namespaces = [ns] ∧ f.classes = [cls] ∧
      ns ++ "\\" ++ cls = (space ++ "\\") ++ qualified p := by
  rcases member.located with ⟨manifest, -⟩ | ⟨folder, cls, hf, hc, path, declared, own⟩
  · have first := congrArg (fun s => s.toList.head?) manifest
    simp at first
  · obtain rfl : p = folder ++ "/" ++ cls := by
      have parts := congrArg String.toList path
      simp only [String.toList_append, List.append_cancel_left_eq,
        List.append_cancel_right_eq] at parts
      apply String.toList_inj.mp
      simpa using parts
    have absent {c : Char} (other : isWordChar c = false) (slash : c ≠ '\x5c') :
        c ∉ (space ++ "\\" ++ folder).toList := by
      simp only [String.toList_append, List.mem_append]
      rintro ((h | h) | h)
      · rcases mem_namespaceName named h with word | same
        · simp [other] at word
        · exact slash same
      · exact slash (List.mem_singleton.mp h)
      · exact hf.notMem other h
    have legible : ∀ s ∈ f.space?, ' ' ∉ s.toList ∧ ';' ∉ s.toList := by
      intro s hs
      obtain rfl := Option.some.inj (declared.symm.trans hs)
      exact ⟨absent (by decide) (by decide), absent (by decide) (by decide)⟩
    refine ⟨space ++ "\\" ++ folder, cls, ?_, ?_, ?_⟩
    · rw [PhpFile.namespaces_eq member.isWord_declares legible, declared]
      rfl
    · rw [PhpFile.classes_eq member.isWord_declares, own]
      rfl
    · rw [qualified_append hf hc]
      simp only [String.append_assoc]

/-- The classes of a package are found by their names. The manifest maps the namespace, with
a backslash behind it, to the folder of sources, and below that folder each file declares
one namespace and one class, which put together are the prefix and the path of the
file. -/
theorem render_autoloads (php : e.language = .php)
    (rendered : render e definitions actions = .ok tree) :
    ∃ space, e.resolver.namespaceName = .ok space ∧
      (∃ f, ("composer.json", .php f) ∈ tree ∧
        autoloadOf? f.lines = some (space ++ "\\", "src/")) ∧
      (∀ path ∈ Table.names tree, path = "composer.json" ∨ ∃ p, path = "src/" ++ p ++ ".php") ∧
      ∀ p file, ("src/" ++ p ++ ".php", file) ∈ tree → ∃ f ns cls, file = .php f ∧
        f.namespaces = [ns] ∧ f.classes = [cls] ∧
          ns ++ "\\" ++ cls = (space ++ "\\") ++ qualified p := by
  obtain ⟨space, named, families⟩ := isClassFile_of_mem php rendered
  refine ⟨space, named, ?_, ?_, ?_⟩
  · obtain ⟨-, entities, clients, support, rfl, parts⟩ := render_eq_ok.mp rendered
    obtain ⟨other, name, version, requirement, baseUrl, same, others⟩ :=
      supportFiles_php php parts.others
    obtain rfl := Except.ok.inj (named.symm.trans same)
    refine ⟨_, List.mem_append_right _ ?_,
      autoloadOf?_manifest (fun _ => mem_namespaceName named) name version requirement⟩
    rw [others]
    exact .tail _ (.tail _ (.head _))
  · intro path h
    obtain ⟨entry, there, rfl⟩ := List.mem_map.mp h
    obtain ⟨f, -, member⟩ := families entry.1 entry.2 there
    rcases member.located with ⟨manifest, -⟩ | ⟨folder, cls, -, -, path, -⟩
    · exact .inl manifest
    · exact .inr ⟨_, path⟩
  · intro p file h
    obtain ⟨f, rfl, member⟩ := families _ file h
    obtain ⟨ns, cls, declares⟩ := member.loads named
    exact ⟨f, ns, cls, rfl, declares⟩

/-- An enumeration of a vendor's package, found by its name. -/
theorem currency_autoloads : ∃ tree file,
    render ⟨⟨.php, .str "acme-corp", .str "bank", .null⟩, .str "Lib", .str "", .str "1", true⟩
      [{ name := "currency", kind := .enum, enumValues := ["eur"] }] [] = .ok tree ∧
    ("src/" ++ "Entity/Currency" ++ ".php", file) ∈ tree ∧ ∃ f, file = .php f ∧
      ∃ ns cls, f.namespaces = [ns] ∧ f.classes = [cls] ∧
        ns ++ "\\" ++ cls = "AcmeCorp\\BankClient\\Entity\\Currency" := by
  have rendered : render
      ⟨⟨.php, .str "acme-corp", .str "bank", .null⟩, .str "Lib", .str "", .str "1", true⟩
      [{ name := "currency", kind := .enum, enumValues := ["eur"] }] [] = .ok _ := rfl
  obtain ⟨space, named, -, -, loads⟩ := render_autoloads rfl rendered
  obtain rfl : space = "AcmeCorp\\BankClient" := (Except.ok.inj named).symm
  obtain ⟨f, ns, cls, same, namespaces, classes, found⟩ :=
    loads "Entity/Currency" _ (.head _)
  exact ⟨_, _, rendered, .head _, f, same, ns, cls, namespaces, classes, found⟩

end Emission

end ClientForge
