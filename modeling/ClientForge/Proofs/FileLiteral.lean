import ClientForge.Proofs.Emitted
import ClientForge.Proofs.PathExpression
import ClientForge.Proofs.ScriptString

/-!
# The string literals of a script's files

Four kinds of texts of a specification become string literals of a JavaScript package: the
values of an enumeration, the keys of properties, the key under which a result has its items,
and the fixed text of a path. Each of them is written into the lines of a file as the literal
of that text. All literals of a tree denote what they were written for exactly if no such text
holds a line feed or a carriage return; one that does leaves a literal that is not closed on
its line, which is no string of the language.
-/

namespace ClientForge.Emission

open ClientForge.Outcome ClientForge.Text ClientForge.Text.Script

variable {l : Language} {e : Emitter} {index definitions : List Definition}
  {actions : List Action} {tree : Tree} {s : String}

/-! ## Literals of expressions -/

/-- Whether a line holds the literal of a text. -/
def Quotes (line s : String) : Prop := ∃ before after, line = before ++ Literal.quote s ++ after

namespace Quotes

theorem quote (s : String) : Quotes (Literal.quote s) s := ⟨"", "", by simp⟩

theorem append {line : String} (h : Quotes line s) (more : String) : Quotes (line ++ more) s := by
  obtain ⟨before, after, rfl⟩ := h
  exact ⟨before, after ++ more, String.append_assoc ..⟩

theorem prepend {line : String} (h : Quotes line s) (front : String) :
    Quotes (front ++ line) s := by
  obtain ⟨before, after, rfl⟩ := h
  exact ⟨front ++ before, after, by simp only [String.append_assoc]⟩

theorem between {line : String} (h : Quotes line s) (front more : String) :
    Quotes (front ++ line ++ more) s :=
  (h.prepend front).append more

theorem intercalate {parts : List String} {part : String} (separator : String)
    (h : Quotes part s) (member : part ∈ parts) : Quotes (separator.intercalate parts) s := by
  induction parts with
  | nil => cases member
  | cons first rest ih =>
      cases rest with
      | nil =>
          obtain rfl := List.mem_singleton.mp member
          rwa [String.intercalate_singleton]
      | cons next rest =>
          rw [String.intercalate_cons_cons]
          rcases List.mem_cons.mp member with rfl | later
          · exact (h.append _).append _
          · exact (ih later).prepend _

end Quotes

/-- The texts of which an expression holds literals. -/
def Code.literals : Code → List String
  | argument _ => []
  | data => []
  | item => []
  | stored key => [key]
  | orEmpty c => c.literals
  | dateOf c => c.literals
  | dateText c => c.literals
  | construct _ c key => c.literals ++ key.toList
  | rawOf c => c.literals
  | ifPresent t c => t.literals ++ c.literals
  | mapped l b _ => l.literals ++ b.literals

/-- The texts of which the body of a method holds literals. -/
def Body.literals : Body → List String
  | give c => c.literals
  | bindThenGive s c => s.literals ++ c.literals
  | store key c => key :: c.literals

/-- The text of a part that is literal. -/
def PathPart.literal? : PathPart → Option String
  | .literal s => some s
  | .parameter _ => none

/-- The texts of which a path expression holds literals. -/
def PathExpr.literals : PathExpr → List String
  | concat parts => parts.filterMap (·.literal?)
  | plain s => [s]
  | template s _ => [s]

/-- The texts of which the expression of a reply holds literals. -/
def Reply.literals (r : Reply) : List String := (r.code?.map (·.literals)).getD []

/-- The texts of which a method holds literals. -/
def MethodView.literals (m : MethodView) : List String :=
  m.method.name :: (m.pathExpr.literals ++ m.reply.literals)

/-- The texts of which a file holds literals. -/
def JavascriptFile.literals : JavascriptFile → List String
  | entity common v => (entity common v).bodies.flatMap (·.literals)
  | enumeration v => v.cases.map (·.value)
  | client _ v => v.methods.flatMap (·.literals)
  | _ => []

theorem Code.quotes_javascript {c : Code} (h : s ∈ c.literals) : Quotes c.javascript s := by
  induction c with
  | argument | data | item => cases h
  | stored key =>
      obtain rfl := List.mem_singleton.mp h
      exact (Quotes.quote s).between _ _
  | orEmpty c ih | dateOf c ih | dateText c ih => exact (ih h).between _ _
  | construct cls c key ih =>
      rcases List.mem_append.mp h with inner | items
      · exact (((ih inner).prepend _).append _).append _
      · cases key with
        | none => cases items
        | some key =>
            obtain rfl := List.mem_singleton.mp items
            exact (((Quotes.quote s).prepend ", ").prepend _).append _
  | rawOf c ih => exact (ih h).append _
  | ifPresent t c ihTested ih =>
      rcases List.mem_append.mp h with tested | present
      · -- Data that is tested is not printed as other expressions are, but it has no literals.
        cases t with
        | data => cases tested
        | _ => exact ((ihTested tested).append _).append _
      · cases t with
        | _ => exact (ih present).prepend _
  | mapped list body _ ihList ihBody =>
      rcases List.mem_append.mp h with items | mapped
      · exact (((ihList items).append _).append _).append _
      · exact (ihBody mapped).between _ _

theorem Body.exists_quotes {b : Body} (h : s ∈ b.literals) :
    ∃ line ∈ b.javascriptLines, Quotes line s := by
  cases b with
  | give c => exact ⟨_, List.mem_singleton_self _, (Code.quotes_javascript h).between _ _⟩
  | bindThenGive source c =>
      rcases List.mem_append.mp h with bound | given
      · exact ⟨_, List.mem_cons_self, (Code.quotes_javascript bound).between _ _⟩
      · exact ⟨_, List.mem_pair.mpr (.inr rfl), (Code.quotes_javascript given).between _ _⟩
  | store key c =>
      refine ⟨_, List.mem_singleton_self _, ?_⟩
      rcases List.mem_cons.mp h with rfl | stored
      · exact ((((Quotes.quote s).prepend _).append _).append _).append _
      · exact (Code.quotes_javascript stored).between _ _

theorem PathExpr.quotes_source {p : PathExpr} (h : s ∈ p.literals) : Quotes p.source s := by
  cases p with
  | concat parts =>
      obtain ⟨part, hp, literal⟩ := List.mem_filterMap.mp h
      cases part with
      | parameter v => cases literal
      | literal t =>
          obtain rfl := Option.some.inj literal
          exact (Quotes.quote t).intercalate _ (List.mem_map.mpr ⟨_, hp, rfl⟩)
  | plain t =>
      obtain rfl := List.mem_singleton.mp h
      exact Quotes.quote s
  | template t arguments =>
      obtain rfl := List.mem_singleton.mp h
      exact ((((Quotes.quote s).prepend _).append _).append _).append _

theorem MethodView.exists_quotes {m : MethodView} (h : s ∈ m.literals) :
    ∃ line ∈ JavascriptFile.methodLines m, Quotes line s := by
  rcases List.mem_cons.mp h with rfl | h
  · exact ⟨"            " ++ Literal.quote m.method.name ++ ",",
      by simp [JavascriptFile.methodLines], (Quotes.quote _).between _ _⟩
  · rcases List.mem_append.mp h with path | replied
    · exact ⟨"            " ++ m.pathExpr.source ++ ",",
        by simp [JavascriptFile.methodLines], (PathExpr.quotes_source path).between _ _⟩
    · cases given : m.reply.code? with
      | none =>
          rw [Reply.literals, given] at replied
          cases replied
      | some c =>
          rw [Reply.literals, given] at replied
          exact ⟨"                return " ++ c.javascript ++ ";",
            by simp [JavascriptFile.methodLines, JavascriptFile.replyLines, given],
            (Code.quotes_javascript replied).between _ _⟩

/-- Every literal of a file stands in its lines. -/
theorem JavascriptFile.exists_quotes {f : JavascriptFile} (h : s ∈ f.literals) :
    ∃ line ∈ f.lines, Quotes line s := by
  cases f with
  | entity common v =>
      obtain ⟨b, hb, h⟩ := List.mem_flatMap.mp h
      obtain ⟨line, hl, quotes⟩ := Body.exists_quotes h
      exact ⟨line, (mem_lines (entity common v)).2.1 b hb line hl, quotes⟩
  | enumeration v =>
      obtain ⟨c, hc, rfl⟩ := List.mem_map.mp h
      refine ⟨"    " ++ c.constant ++ ": " ++ c.literal ++ ",", ?_, (Quotes.quote _).between _ _⟩
      have member : "    " ++ c.constant ++ ": " ++ c.literal ++ "," ∈
          v.cases.map fun c => "    " ++ c.constant ++ ": " ++ c.literal ++ "," :=
        List.mem_map.mpr ⟨c, hc, rfl⟩
      simp only [lines, enumerationLines, List.mem_append]
      exact .inl (.inl (.inr member))
  | client common v =>
      obtain ⟨m, hm, h⟩ := List.mem_flatMap.mp h
      obtain ⟨line, hl, quotes⟩ := m.exists_quotes h
      have member : line ∈ v.methods.flatMap methodLines := List.mem_flatMap.mpr ⟨m, hm, hl⟩
      exact ⟨line, by simp [lines, clientLines, member], quotes⟩
  | dateFactory => cases h
  | index exports => cases h
  | manifest packageName version common => cases h

/-! ## Where literals come from -/

/-- A text of a specification that becomes a literal. -/
inductive IsWritten (definitions : List Definition) (actions : List Action) : String → Prop
  /-- A value of an enumeration. -/
  | value {d : Definition} {value : String} (hd : d ∈ definitions) (enum : d.kind = .enum)
      (hv : value ∈ d.enumValues) : IsWritten definitions actions value
  /-- The key of a property. -/
  | key {d : Definition} {p : Property} (hd : d ∈ definitions) (other : d.kind ≠ .enum)
      (hp : p ∈ d.properties) : IsWritten definitions actions p.name
  /-- The key of the items of a result that an action replies with. -/
  | items {a : Action} {r : Reference} {cls key : String} (ha : a ∈ actions)
      (typed : a.responseType = some r)
      (replied : replyOf definitions r = .ok (.result cls (some key))) :
      IsWritten definitions actions key
  /-- Fixed text of a path. -/
  | path {a : Action} {cs : List Char} (ha : a ∈ actions)
      (piece : .text cs ∈ pathPieces (relativePath a.path)) :
      IsWritten definitions actions (String.ofList cs)

theorem literals_reading (key : String) (c : Conversion) :
    (Body.reading key c).literals = [key] := by
  cases c <;> rfl

theorem literals_writing (key argument : String) (c : Conversion) :
    (Body.writing key argument c).literals = [key] := by
  cases c <;> rfl

theorem literals_creating (c : Conversion) : (Body.creating l c).literals = [] := by
  cases l <;> cases c <;> rfl

/-- The literals of an entity are the keys of its properties. -/
theorem mem_literals_entity {common : String} {v : EntityView} :
    s ∈ (JavascriptFile.entity common v).literals ↔ ∃ w ∈ v.properties, w.key = s := by
  simp only [JavascriptFile.literals, JavascriptFile.bodies, List.flatMap_append, List.mem_append,
    List.mem_flatMap, List.mem_map]
  constructor
  · rintro (⟨_, ⟨i, -, rfl⟩, h⟩ | ⟨b, ⟨w, hw, hb⟩, h⟩)
    · rw [literals_creating] at h
      cases h
    · refine ⟨w, hw, ?_⟩
      rcases List.mem_pair.mp hb with rfl | rfl
      · rw [literals_reading] at h
        exact (List.mem_singleton.mp h).symm
      · rw [literals_writing] at h
        exact (List.mem_singleton.mp h).symm
  · rintro ⟨w, hw, rfl⟩
    refine .inr ⟨.reading w.key w.conversion, ⟨w, hw, List.mem_cons_self⟩, ?_⟩
    rw [literals_reading]
    exact List.mem_singleton_self _

/-- The literals of a definition's file are its values or the keys of its properties. -/
theorem mem_literals_of_entitySource (js : e.language = .javascript) {d : Definition}
    {f : JavascriptFile} (source : entitySource e definitions d = .ok (.javascript f)) :
    s ∈ f.literals ↔
      (d.kind = .enum ∧ s ∈ d.enumValues) ∨ (d.kind ≠ .enum ∧ ∃ p ∈ d.properties, p.name = s) := by
  obtain ⟨v, viewed, source⟩ := bind_eq_ok.mp source
  rw [js] at viewed source
  obtain ⟨-, -, source⟩ := bind_eq_ok.mp source
  obtain rfl := SourceFile.javascript.inj (Except.ok.inj source)
  by_cases enum : d.kind = .enum
  · have cases_ : v.cases = enumCases d.enumValues := by
      obtain ⟨properties, -, viewed⟩ := bind_eq_ok.mp viewed
      obtain ⟨item, -, viewed⟩ := bind_eq_ok.mp viewed
      obtain rfl := Except.ok.inj viewed
      rfl
    have values : v.cases.map (·.value) = d.enumValues := by
      rw [cases_]
      exact values_enumCasesFrom [] d.enumValues
    rw [if_pos enum, JavascriptFile.literals, values]
    simp [enum]
  · have members := (isEntityView viewed).properties
    rw [if_neg enum, mem_literals_entity]
    simp only [enum, false_and, ne_eq, not_false_eq_true, true_and, false_or]
    constructor
    · rintro ⟨w, hw, rfl⟩
      obtain ⟨p, pair, propertyViewed⟩ := exists_zip_right members hw
      exact ⟨p, (List.of_mem_zip pair).1, (isPropertyView propertyViewed).key.symm⟩
    · rintro ⟨p, hp, rfl⟩
      obtain ⟨w, pair, propertyViewed⟩ := exists_zip_left members hp
      exact ⟨w, (List.of_mem_zip pair).2, (isPropertyView propertyViewed).key⟩

/-- A reply holds the key of the items of a result, if it holds a literal. -/
theorem mem_literals_reply {r : Reply} : s ∈ r.literals ↔ ∃ cls, r = .result cls (some s) := by
  cases r with
  | result cls key => cases key <;> simp [Reply.literals, Reply.code?, Code.literals, eq_comm]
  | _ => simp [Reply.literals, Reply.code?, Code.literals]

/-- The literals of a path are its pieces of text; a path without pieces is an empty literal. -/
theorem mem_literals_path (path : String) :
    s ∈ (pathExpr .javascript (pathParts .javascript path)).literals ↔
      (∃ cs, .text cs ∈ pathPieces (relativePath path) ∧ String.ofList cs = s) ∨
        (pathPieces (relativePath path) = [] ∧ s = "") := by
  simp only [pathExpr, PathExpr.literals, pathParts]
  split
  next none_ => simp [none_, PathPart.literal?]
  next some_ =>
    have nonempty : pathPieces (relativePath path) ≠ [] := some_
    simp only [nonempty, false_and, or_false, List.mem_filterMap, List.mem_map]
    constructor
    · rintro ⟨_, ⟨piece, hp, rfl⟩, literal⟩
      cases piece with
      | text cs => exact ⟨cs, hp, Option.some.inj literal⟩
      | parameter name => cases literal
    · rintro ⟨cs, hp, rfl⟩
      exact ⟨_, ⟨.text cs, hp, rfl⟩, rfl⟩

/-- The literals of a method are the name of the protocol's method, the text of the path and
the key of the items. -/
theorem mem_literals_of_calls {a : Action} {m : MethodView}
    (calls : Calls .javascript index a m) :
    s ∈ m.literals ↔ s = m.method.name ∨
      s ∈ (pathExpr .javascript (pathParts .javascript a.path)).literals ∨
      ∃ r cls, a.responseType = some r ∧ replyOf index r = .ok (.result cls (some s)) := by
  obtain ⟨w, viewed, same⟩ := calls
  have view := isActionView viewed
  have path : m.pathExpr = pathExpr .javascript (pathParts .javascript a.path) := by
    rw [same]
    exact view.pathExpr
  have replies : s ∈ m.reply.literals ↔
      ∃ r cls, a.responseType = some r ∧ replyOf index r = .ok (.result cls (some s)) := by
    have reply : m.reply = w.reply := by rw [same]
    rw [reply, mem_literals_reply]
    rcases replyOf_of_responseView view.response with ⟨none_, nothing⟩ | ⟨r, typed, replied⟩
    · have given : w.reply = .nothing := nothing
      simp [none_, given]
    · simp [typed, replied]
  rw [MethodView.literals, List.mem_cons, List.mem_append, path, replies]

/-- The literals of a client's file are those of the methods that call its actions. -/
theorem mem_literals_of_clientSource (js : e.language = .javascript) {client : String}
    {f : JavascriptFile}
    (source : clientSource e definitions client actions = .ok (.javascript f)) :
    s ∈ f.literals ↔ ∃ a ∈ actions, ∃ m, Calls .javascript definitions a m ∧ s ∈ m.literals := by
  obtain ⟨v, view, file⟩ := clientSource_javascript js source
  obtain rfl := SourceFile.javascript.inj file
  have calls := calls_of_methodViews view.methods
  rw [JavascriptFile.literals, List.mem_flatMap]
  constructor
  · rintro ⟨m, hm, h⟩
    obtain ⟨a, pair, call⟩ := exists_zip_right calls hm
    exact ⟨a, (List.of_mem_zip pair).1, m, call, h⟩
  · rintro ⟨a, ha, m, call, h⟩
    obtain ⟨n, pair, call_⟩ := exists_zip_left calls ha
    refine ⟨n, (List.of_mem_zip pair).2, ?_⟩
    -- The methods that call one action differ in their names only.
    obtain ⟨w, viewed, same⟩ := call
    obtain ⟨w_, viewed_, same_⟩ := call_
    obtain rfl := Except.ok.inj (viewed.symm.trans viewed_)
    rw [same_]
    rwa [same] at h

theorem isOneLine_name (m : Method) : IsOneLine m.name := by
  cases m <;> decide

section Rendered

variable (js : e.language = .javascript) (rendered : render e definitions actions = .ok tree)
include js rendered

/-- Every text that is to be written is a literal of a file. -/
theorem exists_file_of_isWritten (written_ : IsWritten definitions actions s) :
    ∃ path f, (path, .javascript f) ∈ tree ∧ s ∈ f.literals := by
  obtain ⟨-, entities, clients, support, rfl, parts⟩ := render_eq_ok.mp rendered
  have entity {d : Definition} (hd : d ∈ definitions) :
      ∃ path f, (path, .javascript f) ∈ entities ++ clients ++ support ∧
        entitySource e definitions d = .ok (.javascript f) := by
    obtain ⟨file, source, there⟩ := parts.exists_entity hd
    obtain ⟨v, -, rfl⟩ := entitySource_javascript js source
    exact ⟨_, _, there, source⟩
  have client {a : Action} (ha : a ∈ actions) :
      ∃ path f m, (path, .javascript f) ∈ entities ++ clients ++ support ∧
        Calls .javascript definitions a m ∧ ∀ s ∈ m.literals, s ∈ f.literals := by
    obtain ⟨group, hg, member⟩ := exists_group ha
    obtain ⟨file, source, there⟩ := parts.exists_client hg
    obtain ⟨v, view, rfl⟩ := clientSource_javascript js source
    obtain ⟨m, -, call⟩ := exists_zip_left (calls_of_methodViews view.methods) member
    exact ⟨_, _, m, there, call, fun s h =>
      (mem_literals_of_clientSource js source).mpr ⟨a, member, m, call, h⟩⟩
  cases written_ with
  | value hd enum hv =>
      obtain ⟨path, f, there, source⟩ := entity hd
      exact ⟨path, f, there, (mem_literals_of_entitySource js source).mpr (.inl ⟨enum, hv⟩)⟩
  | key hd other hp =>
      obtain ⟨path, f, there, source⟩ := entity hd
      exact ⟨path, f, there,
        (mem_literals_of_entitySource js source).mpr (.inr ⟨other, _, hp, rfl⟩)⟩
  | items ha typed replied =>
      obtain ⟨path, f, m, there, call, literals⟩ := client ha
      exact ⟨path, f, there, literals _
        ((mem_literals_of_calls call).mpr (.inr (.inr ⟨_, _, typed, replied⟩)))⟩
  | path ha piece =>
      obtain ⟨path, f, m, there, call, literals⟩ := client ha
      exact ⟨path, f, there, literals _ ((mem_literals_of_calls call).mpr
        (.inr (.inl ((mem_literals_path _).mpr (.inl ⟨_, piece, rfl⟩)))))⟩

/-- Every literal of a file is that of a text that is to be written, or of a text that holds
no line break whatever the specification says. -/
theorem isWritten_or_isOneLine {path : String} {f : JavascriptFile}
    (there : (path, .javascript f) ∈ tree) (h : s ∈ f.literals) :
    IsWritten definitions actions s ∨ IsOneLine s := by
  obtain ⟨-, entities, clients, support, rfl, parts⟩ := render_eq_ok.mp rendered
  rcases parts.cases_of_mem there with ⟨d, hd, -, source⟩ | ⟨group, hg, -, -, source⟩ | other
  · rcases (mem_literals_of_entitySource js source).mp h with ⟨enum, hv⟩ | ⟨notEnum, p, hp, rfl⟩
    · exact .inl (.value hd enum hv)
    · exact .inl (.key hd notEnum hp)
  · obtain ⟨a, member, m, call, h⟩ := (mem_literals_of_clientSource js source).mp h
    have ha : a ∈ actions := (mem_groupByClient hg member).1
    rcases (mem_literals_of_calls call).mp h with rfl | path | ⟨r, cls, typed, replied⟩
    · exact .inr (isOneLine_name m.method)
    · rcases (mem_literals_path _).mp path with ⟨cs, piece, rfl⟩ | ⟨-, rfl⟩
      · exact .inl (.path ha piece)
      · exact .inr (by decide)
    · exact .inl (.items ha typed replied)
  · obtain ⟨name, version, made⟩ := supportFiles_javascript js parts.others
    rw [made] at other
    simp only [List.mem_cons, Prod.mk.injEq, SourceFile.javascript.injEq, List.not_mem_nil,
      or_false] at other
    rcases other with ⟨-, rfl⟩ | ⟨-, rfl⟩ | ⟨-, rfl⟩
    all_goals cases h

/-- Every enumeration value, property key, key of items and fixed text of a path has its literal
in a file, and every literal stands in the lines of its file. As a source text it is a string
with the text as its value exactly if the text is on one line, and otherwise it is no string,
whatever follows. So all literals of a tree are as they should be exactly if none of these texts
holds a line feed or a carriage return. -/
theorem file_literals_denote_iff :
    (∀ s, IsWritten definitions actions s →
      ∃ path f, (path, .javascript f) ∈ tree ∧ s ∈ f.literals) ∧
    (∀ path f, (path, .javascript f) ∈ tree → ∀ s ∈ f.literals,
      (∃ line ∈ f.lines, Quotes line s) ∧ (Denotes (Literal.quote s) s ↔ IsOneLine s) ∧
        (¬ IsOneLine s → ∀ rest, readLiteral? ((Literal.quote s).toList ++ rest) = none)) ∧
    ((∀ path f, (path, .javascript f) ∈ tree → ∀ s ∈ f.literals, Denotes (Literal.quote s) s) ↔
      ∀ s, IsWritten definitions actions s → IsOneLine s) := by
  refine ⟨fun s => exists_file_of_isWritten js rendered, ?_, ?_, ?_⟩
  · intro path f there s h
    refine ⟨f.exists_quotes h, denotes_quote_iff, fun broken rest => ?_⟩
    rw [readLiteral?_quote, if_neg broken]
  · intro denote s written_
    obtain ⟨path, f, there, h⟩ := exists_file_of_isWritten js rendered written_
    exact denotes_quote_iff.mp (denote path f there s h)
  · intro inLine path f there s h
    refine denotes_quote_iff.mpr ?_
    rcases isWritten_or_isOneLine js rendered there h with written_ | oneLine
    · exact inLine s written_
    · exact oneLine

end Rendered

/-- An enumeration, an entity, a result and a path, with a quote or a backslash in each text. -/
theorem quoted_texts_denote : ∃ tree,
    render ⟨⟨.javascript, .str "", .str "bank", .null⟩, .str "common", .str "", .str "1", true⟩
      [{ name := "Mode", kind := .enum, enumValues := ["it's", "back\\"] },
        { name := "Order", properties := [⟨"owner's", "string", .scalar .string, false, none⟩] },
        { name := "Orders", kind := .result, itemType := some (.named "Order"),
          itemsKey := some "order's" }]
      [{ path := "/o'clock/\x7bid\x7d", responseType := some (.named "Orders") }] = .ok tree ∧
    ∀ path f, (path, .javascript f) ∈ tree → ∀ s ∈ f.literals, Denotes (Literal.quote s) s := by
  have rendered : render
      ⟨⟨.javascript, .str "", .str "bank", .null⟩, .str "common", .str "", .str "1", true⟩
      [{ name := "Mode", kind := .enum, enumValues := ["it's", "back\\"] },
        { name := "Order", properties := [⟨"owner's", "string", .scalar .string, false, none⟩] },
        { name := "Orders", kind := .result, itemType := some (.named "Order"),
          itemsKey := some "order's" }]
      [{ path := "/o'clock/\x7bid\x7d", responseType := some (.named "Orders") }] = .ok _ := rfl
  refine ⟨_, rendered, (file_literals_denote_iff rfl rendered).2.2.mpr fun s written_ => ?_⟩
  cases written_ with
  | @value d _ hd enum hv =>
      revert s
      revert d
      decide
  | @key d p hd other hp =>
      revert p
      revert d
      decide
  | items ha typed replied =>
      obtain rfl := List.mem_singleton.mp ha
      obtain rfl := Option.some.inj typed
      cases replied
      decide
  | @path a cs ha piece =>
      obtain rfl := List.mem_singleton.mp ha
      have pieces : pathPieces (relativePath "/o'clock/\x7bid\x7d") =
          [.text "o'clock/".toList, .parameter "id".toList] := by
        decide +kernel
      rw [pieces] at piece
      obtain rfl : cs = "o'clock/".toList := by simpa using piece
      decide

/-- A value of two lines stands in its file as it is. Its literal is read back by the rules of
one language, and by those of the other it is no literal. -/
theorem value_breaks_literal : ∃ tree f,
    render ⟨⟨.javascript, .str "", .str "bank", .null⟩, .str "common", .str "", .str "1", true⟩
      [{ name := "Mode", kind := .enum, enumValues := ["on\noff"] }] [] = .ok tree ∧
    ("src/entity/Mode.js", .javascript f) ∈ tree ∧ "on\noff" ∈ f.literals ∧
      "    ON_OFF: 'on\noff'," ∈ f.lines ∧
      Literal.read "'on\noff',".toList = some ("on\noff".toList, [',']) ∧
      readLiteral? "'on\noff',".toList = none ∧ ¬ Denotes (Literal.quote "on\noff") "on\noff" := by
  refine ⟨_, _, rfl, .head _, .head _, ?_, by decide, by decide, ?_⟩
  · decide
  · rw [denotes_quote_iff]
    decide

end ClientForge.Emission
