import ClientForge.Proofs.FileComment
import ClientForge.Proofs.Rendering

/-!
# Documentation comments

The lines of a description are printed each on a line of its own, and nothing in them or in
a path is escaped. So a description stands in its comment line by line, and a file is read
as it was printed if and only if no description and no path that is printed in it holds the
mark that closes a comment.
-/

namespace ClientForge

/-- The descriptions that the file of a definition prints: its own and, unless it is an
enumeration, those of its properties. -/
def Definition.descriptions (d : Definition) : List (Option String) :=
  d.description :: if d.kind = .enum then [] else d.properties.map (·.description)

namespace Emission

open ClientForge.Outcome ClientForge.Text ClientForge.Naming

section Views

variable {l : Language} {index : Index}

theorem isPlain_of_propertyView {p : Property} {w : PropertyView}
    (h : propertyView l index p = .ok w) :
    w.IsPlain ∧ w.description = descriptionLines p.description := by
  have view := isPropertyView h
  have getter : IsWord w.getter := by
    rw [view.getter, getter]
    split
    · exact IsWord.append (by decide : IsWord "is") (isWord_className p.name)
    · exact IsWord.append (by decide : IsWord "get") (isWord_className p.name)
  have setter : IsWord w.setter := by
    rw [view.setter, setter]
    exact IsWord.append (by decide : IsWord "set") (isWord_className p.name)
  have named : IsWord w.variableName := view.variableName ▸ isWord_variableName l p.name
  have docType := slash_notMem_docType view.docType
  exact ⟨⟨getter, setter, named, fun _ => isWord_of_conversion view.conversion, docType⟩,
    view.description⟩

theorem isPlain_of_itemView {d : Definition} {i : ItemView}
    (h : itemView l index d = .ok (some i)) : i.IsPlain := by
  unfold itemView at h
  split at h
  next =>
    obtain ⟨c, converted, h⟩ := bind_eq_ok.mp h
    obtain ⟨doc, documented, h⟩ := bind_eq_ok.mp h
    obtain rfl := Option.some.inj (Except.ok.inj h)
    exact ⟨fun _ => isWord_of_conversion converted, slash_notMem_docType documented⟩
  next => cases h

theorem isPlain_of_entityView {d : Definition} {v : EntityView}
    (h : entityView l index d = .ok v) :
    v.IsPlain ∧ v.description = descriptionLines d.description ∧
      v.properties.map (·.description) =
        d.properties.map fun p => descriptionLines p.description := by
  have view := isEntityView h
  obtain ⟨properties, -, h⟩ := bind_eq_ok.mp h
  obtain ⟨item, -, h⟩ := bind_eq_ok.mp h
  obtain rfl := Except.ok.inj h
  refine ⟨⟨isWord_className d.name, isWord_baseClass d, fun w hw => ?_, fun i hi => ?_,
    fun c hc => ?_⟩, rfl, ?_⟩
  · obtain ⟨p, pair, viewed⟩ := exists_zip_right view.properties hw
    exact (isPlain_of_propertyView viewed).1
  · exact isPlain_of_itemView (Option.mem_def.mp hi ▸ view.item)
  · exact (isConstantName_of_mem_enumCases hc).isName
  · have same := view.properties.imp fun p w viewed => (isPlain_of_propertyView viewed).2.symm
    have mapped := List.forall₂_map_left_iff.mpr (List.forall₂_map_right_iff.mpr same)
    rw [List.forall₂_eq_eq_eq] at mapped
    exact mapped.symm

theorem isPlain_of_bodyView {parameters : List String} {r : Reference} {b : BodyView}
    (h : bodyView l index parameters r = .ok b) : b.IsPlain := by
  obtain ⟨doc, documented, h⟩ := bind_eq_ok.mp h
  obtain ⟨c, -, h⟩ := bind_eq_ok.mp h
  obtain rfl := Except.ok.inj h
  have plain : IsWord (if r.kind = .type then variableName l r.name else "payload") := by
    split
    · exact isWord_variableName l r.name
    · decide
  refine ⟨?_, isWord_elementClass r, slash_notMem_docType documented⟩
  dsimp only
  generalize (if r.kind = .type then variableName l r.name else "payload") = base at plain ⊢
  split
  · exact plain.append (by decide : IsWord "Body")
  · exact plain

/-- The names that a reply makes use of are the class that it constructs. -/
theorem cls?_of_mem_names {r : Reply} {c : Code} {n : String} (h : r.code? = some c)
    (hn : n ∈ c.names) : r.cls? = some n := by
  cases r with
  | nothing => cases h
  | data => cases h
  | entity cls =>
      obtain rfl := Option.some.inj h
      simpa [Code.names, Reply.cls?, eq_comm] using hn
  | entities cls =>
      obtain rfl := Option.some.inj h
      simpa [Code.names, Reply.cls?, eq_comm] using hn
  | result cls key =>
      obtain rfl := Option.some.inj h
      simpa [Code.names, Reply.cls?, eq_comm] using hn

theorem isPlain_of_responseView {a : Action} {answer : Reply × Option String}
    (h : responseView l index a = .ok answer) :
    (∀ c, answer.1.code? = some c → ∀ n ∈ c.names, IsWord n) ∧
      ∀ d ∈ answer.2, '/' ∉ d.toList := by
  unfold responseView at h
  split at h
  next r _ =>
    obtain ⟨reply, replied, h⟩ := bind_eq_ok.mp h
    obtain ⟨doc, documented, h⟩ := bind_eq_ok.mp h
    obtain rfl := Except.ok.inj h
    refine ⟨fun c code n hn => ?_, ?_⟩
    · obtain ⟨_, converted, wraps⟩ := cls?_of_replyOf replied (cls?_of_mem_names code hn)
      exact isWord_of_conversion converted wraps
    · intro d hd
      obtain rfl := Option.some.inj (Option.mem_def.mp hd)
      exact slash_notMem_docType documented
  next =>
    obtain rfl := Except.ok.inj h
    refine ⟨fun c code => ?_, fun d hd => ?_⟩
    · cases code
    · cases hd

/-- A method is made of names but for its path and its description, which are the action's. -/
theorem isPlain_of_actionView {a : Action} {m : MethodView} (h : actionView l index a = .ok m) :
    m.IsPlain ∧ m.description = descriptionLines a.description ∧ m.path = a.path := by
  have view := isActionView h
  have argument : ∀ b ∈ m.body, b.IsPlain := by
    intro b hb
    have requested := view.request
    rw [Option.mem_def.mp hb] at requested
    unfold requestView at requested
    split at requested
    next r _ =>
      cases found : bodyView l index (a.pathParameters.map (variableName l)) r with
      | error f =>
          rw [found] at requested
          cases requested
      | ok viewed =>
          rw [found] at requested
          obtain rfl := Option.some.inj (Except.ok.inj requested)
          exact isPlain_of_bodyView found
    next => cases requested
  have path : Neutral m.pathExpr.source := by
    rw [view.pathExpr]
    exact neutral_source_pathExpr a.path
  obtain ⟨reply, replyDoc⟩ := isPlain_of_responseView view.response
  refine ⟨⟨isName_of_methodName view.name, path, fun v hv => ?_, argument, reply, replyDoc⟩,
    view.description, view.path⟩
  rw [view.parameters] at hv
  obtain ⟨p, -, rfl⟩ := List.mem_map.mp hv
  exact isWord_variableName l p

/-- The methods of a client describe its actions in their order. -/
theorem isPlain_of_methodViews {taken : Taken} {actions : List Action} {methods : List MethodView}
    (h : methodViews l index taken actions = .ok methods) :
    (∀ m ∈ methods, m.IsPlain) ∧
      methods.map (fun m => (m.description, m.path)) =
        actions.map fun a => (descriptionLines a.description, a.path) := by
  induction actions generalizing taken methods with
  | nil =>
      obtain rfl := Except.ok.inj h
      exact ⟨List.forall_mem_nil _, rfl⟩
  | cons a actions ih =>
      obtain ⟨m, viewed, h⟩ := bind_eq_ok.mp h
      obtain ⟨more, rest, h⟩ := bind_eq_ok.mp h
      obtain rfl := Except.ok.inj h
      obtain ⟨plain, description, path⟩ := isPlain_of_actionView viewed
      obtain ⟨others, texts⟩ := ih rest
      refine ⟨List.forall_mem_cons.mpr ⟨?_, others⟩, ?_⟩
      · exact { plain with name := isName_uniqueName plain.name a.pathParameters taken }
      · rw [List.map_cons, List.map_cons, texts, ← description, ← path]

end Views

namespace Comment

variable {l : Language}

theorem mem_ofClass {description : List String} {line : String} (h : line ∈ description) :
    ⟨false, description⟩ ∈ ofClass description := by
  cases description with
  | nil => cases h
  | cons first rest => exact List.mem_singleton_self _

theorem exists_marked_ofClass {description : List String} :
    (∃ c ∈ ofClass description, Marked c.lines) ↔ Marked description := by
  unfold ofClass
  cases description <;> simp

theorem not_marked_ofItem {i : ItemView} (h : i.IsPlain) : ¬ Marked (ofItem i).lines :=
  not_marked_of_notMem (by simpa [ofItem, braced] using h.docType)

theorem marked_ofReader {w : PropertyView} (h : w.IsPlain) :
    Marked (ofReader l w).lines ↔ Marked w.description := by
  have gap : ¬ Marked (if w.description.isEmpty then [] else [""]) :=
    not_marked_of_notMem (by split <;> decide)
  have type : '/' ∉ (returnedType w).toList := by
    rw [returnedType, String.toList_append, List.mem_append, not_or]
    refine ⟨h.docType, ?_⟩
    split <;> decide
  have tag : ¬ Marked ["@return " ++ braced (returnedType w)] ∧
      ¬ Marked ["@return " ++ returnedType w] :=
    ⟨not_marked_of_notMem (by simpa [braced] using type),
      not_marked_of_notMem (by simpa using type)⟩
  cases l with
  | javascript => simp only [ofReader, marked_append, gap, tag.1, or_false]
  | php => simp only [ofReader, marked_append, gap, tag.2, or_false]

theorem not_marked_ofWriter {w : PropertyView} (h : w.IsPlain) :
    ¬ Marked (ofWriter l w).lines := by
  have variable_ := h.variableName.notMem (c := '/') (by decide)
  cases l with
  | javascript =>
      exact not_marked_of_notMem (by simpa [ofWriter, braced] using ⟨h.docType, variable_⟩)
  | php => exact not_marked_of_notMem (by simpa [ofWriter] using ⟨h.docType, variable_⟩)

theorem exists_marked_ofProperty {w : PropertyView} (h : w.IsPlain) :
    (∃ c ∈ ofProperty l w, Marked c.lines) ↔ Marked w.description := by
  simp [ofProperty, marked_ofReader h, not_marked_ofWriter h]

theorem exists_marked_ofProperties {ws : List PropertyView} (plain : ∀ w ∈ ws, w.IsPlain) :
    (∃ c ∈ ws.flatMap (ofProperty l), Marked c.lines) ↔ ∃ w ∈ ws, Marked w.description := by
  constructor
  · rintro ⟨c, hc, marked⟩
    obtain ⟨w, hw, hc⟩ := List.mem_flatMap.mp hc
    exact ⟨w, hw, (exists_marked_ofProperty (plain w hw)).mp ⟨c, hc, marked⟩⟩
  · rintro ⟨w, hw, marked⟩
    obtain ⟨c, hc, marked⟩ := (exists_marked_ofProperty (l := l) (plain w hw)).mpr marked
    exact ⟨c, List.mem_flatMap.mpr ⟨w, hw, hc⟩, marked⟩

theorem not_marked_tags {m : MethodView} (h : m.IsPlain) : ¬ Marked (tags l m) := by
  have parameter (v) (hv : v ∈ m.parameters) : '/' ∉ v.toList :=
    (h.parameters v hv).notMem (by decide)
  have argument (b) (hb : b ∈ m.body.toList) :
      '/' ∉ b.docType.toList ∧ '/' ∉ b.variableName.toList :=
    have plain := h.body b (Option.mem_toList.mp hb)
    ⟨plain.docType, plain.variableName.notMem (by decide)⟩
  refine not_marked_of_notMem ?_
  cases l with
  | javascript =>
      have result : '/' ∉ (JavascriptFile.promise m.replyDoc).toList := by
        unfold JavascriptFile.promise
        cases doc : m.replyDoc with
        | none => decide
        | some d =>
            have plain := h.replyDoc d doc
            dsimp only
            split <;> simp [plain]
      simp only [tags, List.forall_mem_append, List.forall_mem_map, List.forall_mem_singleton]
      exact ⟨⟨fun v hv => by simpa using parameter v hv,
        fun b hb => by simpa [braced] using argument b hb⟩, by simpa [braced] using result⟩
  | php =>
      have result : '/' ∉ (PhpFile.returned m.replyDoc).toList := by
        unfold PhpFile.returned
        cases doc : m.replyDoc with
        | none => decide
        | some d =>
            have plain := h.replyDoc d doc
            dsimp only
            split <;> simp [plain]
      simp only [tags, List.forall_mem_append, List.forall_mem_map, List.forall_mem_singleton]
      exact ⟨⟨fun v hv => by simpa using parameter v hv, fun b hb => by simpa using argument b hb⟩,
        by simpa using result⟩

theorem marked_ofMethod {m : MethodView} (h : m.IsPlain) :
    Marked (ofMethod l m).lines ↔ Marked m.description ∨ HoldsMark m.path.toList := by
  have path : HoldsMark (m.method.name ++ " " ++ m.path).toList ↔ HoldsMark m.path.toList := by
    have verb : ¬ HoldsMark m.method.name.toList := by
      cases m.method <;> decide
    have shape : (m.method.name ++ " " ++ m.path).toList =
        m.method.name.toList ++ ' ' :: m.path.toList := by simp
    rw [shape, holdsMark_append_cons (by decide), or_iff_right verb]
  have gap : ¬ HoldsMark "".toList := by decide
  rw [ofMethod, marked_append, or_iff_left (not_marked_tags h), marked_append, marked_cons,
    marked_cons, path, or_iff_left not_marked_nil, or_iff_left gap]

end Comment

/-- What a file makes of the descriptions and the paths that it prints: each line of a
description stands in one of its comments, and its comments are read as they were printed
if and only if no description and no path holds the mark that closes a comment. -/
structure SourceFile.Documents (f : SourceFile) (descriptions : List (Option String))
    (paths : List String) : Prop where
  shown : ∀ description ∈ descriptions, ∀ line ∈ descriptionLines description,
    ∃ c ∈ f.comments, line ∈ c.lines
  kept : f.KeepsComments ↔
    ∀ text, some text ∈ descriptions ∨ text ∈ paths → ¬ HoldsMark text.toList

namespace SourceFile

variable {e : Emitter} {index : Index} {f : SourceFile}

/-- What two lists say alike, each item of the one says with an item of the other. -/
theorem exists_of_map_eq {α β γ : Type} {g : α → γ} {h : β → γ} {as : List α} {bs : List β}
    (same : as.map g = bs.map h) {a : α} (ha : a ∈ as) : ∃ b ∈ bs, h b = g a := by
  have there : g a ∈ bs.map h := same ▸ List.mem_map_of_mem ha
  exact List.mem_map.mp there

theorem documents_of_isWoven {descriptions : List (Option String)} {paths : List String}
    (woven : f.IsWoven)
    (shown : ∀ description ∈ descriptions, ∀ line ∈ descriptionLines description,
      ∃ c ∈ f.comments, line ∈ c.lines)
    (marked : (∃ c ∈ f.comments, Marked c.lines) ↔
      (∃ description ∈ descriptions, Marked (descriptionLines description)) ∨
        ∃ path ∈ paths, HoldsMark path.toList) : f.Documents descriptions paths := by
  refine ⟨shown, woven.keepsComments_iff.trans ⟨fun clean text there holds => ?_, fun clean => ?_⟩⟩
  · have found : ∃ c ∈ f.comments, Marked c.lines := marked.mpr <| there.imp
      (fun there => ⟨some text, there, marked_descriptionLines.mpr ⟨text, rfl, holds⟩⟩)
      (fun there => ⟨text, there, holds⟩)
    obtain ⟨c, hc, found⟩ := found
    exact clean c hc found
  · intro c hc found
    rcases marked.mp ⟨c, hc, found⟩ with ⟨description, there, found⟩ | ⟨path, there, holds⟩
    · obtain ⟨text, rfl, holds⟩ := marked_descriptionLines.mp found
      exact clean text (.inl there) holds
    · exact clean path (.inr there) holds

/-- The comments of an entity are those of its class and of its properties. -/
theorem documents_of_entity {l : Language} {d : Definition} {v : EntityView}
    (viewed : entityView l index d = .ok v) (woven : f.IsWoven) (object : d.kind ≠ .enum)
    {own : List Comment} (fixed : ∀ c ∈ own, ¬ Marked c.lines)
    (parts : f.comments = Comment.ofClass v.description ++ own ++
      v.properties.flatMap (Comment.ofProperty l)) :
    f.Documents d.descriptions [] := by
  obtain ⟨plain, description, properties⟩ := isPlain_of_entityView viewed
  have descriptions : d.descriptions = d.description :: d.properties.map (·.description) := by
    rw [Definition.descriptions, if_neg object]
  refine documents_of_isWoven woven ?_ ?_
  · intro text ht line hl
    rw [parts]
    rw [descriptions, List.mem_cons, List.mem_map] at ht
    rcases ht with rfl | ⟨p, hp, rfl⟩
    · rw [← description] at hl
      exact ⟨_, List.mem_append_left _ (List.mem_append_left _ (Comment.mem_ofClass hl)), hl⟩
    · obtain ⟨w, hw, same⟩ := exists_of_map_eq properties.symm hp
      refine ⟨Comment.ofReader l w, List.mem_append_right _ (List.mem_flatMap.mpr
        ⟨w, hw, List.mem_cons_self⟩), ?_⟩
      exact List.mem_append_left _ (List.mem_append_left _ (same.symm ▸ hl))
  · have members : (∃ w ∈ v.properties, Marked w.description) ↔
        ∃ p ∈ d.properties, Marked (descriptionLines p.description) := by
      have same : (∃ ls ∈ v.properties.map (·.description), Marked ls) ↔
          ∃ ls ∈ d.properties.map fun p => descriptionLines p.description, Marked ls := by
        rw [properties]
      simpa only [List.mem_map, exists_exists_and_eq_and] using same
    have none_ : ¬ ∃ c ∈ own, Marked c.lines := fun ⟨c, hc, marked⟩ => fixed c hc marked
    rw [parts, descriptions]
    simp only [List.mem_append, or_and_right, exists_or, Comment.exists_marked_ofClass, none_,
      Comment.exists_marked_ofProperties plain.properties, members, description, List.mem_cons,
      exists_eq_left, List.mem_map, exists_exists_and_eq_and, List.not_mem_nil, false_and,
      exists_const, or_false]

/-- The comment of an enumeration is that of its class. -/
theorem documents_of_enumeration {l : Language} {d : Definition} {v : EntityView}
    (viewed : entityView l index d = .ok v) (woven : f.IsWoven) (enum : d.kind = .enum)
    (parts : f.comments = Comment.ofClass v.description) : f.Documents d.descriptions [] := by
  obtain ⟨-, description, -⟩ := isPlain_of_entityView viewed
  have descriptions : d.descriptions = [d.description] := by
    rw [Definition.descriptions, if_pos enum]
  refine documents_of_isWoven woven ?_ ?_
  · intro text ht line hl
    rw [descriptions, List.mem_singleton] at ht
    subst ht
    rw [← description] at hl
    exact ⟨_, parts ▸ Comment.mem_ofClass hl, hl⟩
  · rw [parts, descriptions, Comment.exists_marked_ofClass, description]
    simp

/-- The comments of a client are those of its methods. -/
theorem documents_of_client {l : Language} {client : String} {actions : List Action}
    {v : ClientView} (viewed : clientView l index client actions = .ok v) (woven : f.IsWoven)
    {own : List Comment} (fixed : ∀ c ∈ own, ¬ Marked c.lines)
    (parts : f.comments = own ++ v.methods.map (Comment.ofMethod l)) :
    f.Documents (actions.map (·.description)) (actions.map (·.path)) := by
  obtain ⟨plain, texts⟩ := isPlain_of_methodViews (isClientView viewed).methods
  have action {a : Action} (ha : a ∈ actions) :
      ∃ m ∈ v.methods, m.description = descriptionLines a.description ∧ m.path = a.path := by
    obtain ⟨m, hm, same⟩ := exists_of_map_eq texts.symm ha
    exact ⟨m, hm, Prod.mk.inj same⟩
  have method {m : MethodView} (hm : m ∈ v.methods) :
      ∃ a ∈ actions, m.description = descriptionLines a.description ∧ m.path = a.path := by
    obtain ⟨a, ha, same⟩ := exists_of_map_eq texts hm
    exact ⟨a, ha, (Prod.mk.inj same).imp Eq.symm Eq.symm⟩
  refine documents_of_isWoven woven ?_ ?_
  · intro text ht line hl
    obtain ⟨a, ha, rfl⟩ := List.mem_map.mp ht
    obtain ⟨m, hm, description, -⟩ := action ha
    refine ⟨Comment.ofMethod l m, parts ▸ List.mem_append_right _ (List.mem_map_of_mem hm), ?_⟩
    exact List.mem_append_left _ (List.mem_append_left _ (description ▸ hl))
  · rw [parts]
    constructor
    · rintro ⟨c, hc, marked⟩
      rcases List.mem_append.mp hc with hc | hc
      · exact absurd marked (fixed c hc)
      · obtain ⟨m, hm, rfl⟩ := List.mem_map.mp hc
        obtain ⟨a, ha, description, path⟩ := method hm
        rw [Comment.marked_ofMethod (plain m hm), description, path] at marked
        exact marked.imp (fun found => ⟨_, List.mem_map_of_mem ha, found⟩)
          fun found => ⟨_, List.mem_map_of_mem ha, found⟩
    · intro found
      have printed : ∃ a ∈ actions, Marked (descriptionLines a.description) ∨
          HoldsMark a.path.toList := by
        rcases found with ⟨_, there, found⟩ | ⟨_, there, found⟩
        · obtain ⟨a, ha, rfl⟩ := List.mem_map.mp there
          exact ⟨a, ha, .inl found⟩
        · obtain ⟨a, ha, rfl⟩ := List.mem_map.mp there
          exact ⟨a, ha, .inr found⟩
      obtain ⟨a, ha, found⟩ := printed
      obtain ⟨m, hm, description, path⟩ := action ha
      rw [← description, ← path, ← Comment.marked_ofMethod (l := l) (plain m hm)] at found
      exact ⟨_, List.mem_append_right _ (List.mem_map_of_mem hm), found⟩

theorem documents_of_entitySource {d : Definition} (h : entitySource e index d = .ok f) :
    f.Documents d.descriptions [] := by
  obtain ⟨v, viewed, h⟩ := bind_eq_ok.mp h
  obtain ⟨plain, -, -⟩ := isPlain_of_entityView viewed
  cases language : e.language with
  | javascript =>
      rw [language] at viewed
      simp only [language] at h
      obtain ⟨-, -, h⟩ := bind_eq_ok.mp h
      obtain rfl := Except.ok.inj h
      by_cases enum : d.kind = .enum
      · rw [if_pos enum]
        exact documents_of_enumeration viewed (isWoven_javascriptEnumeration plain) enum rfl
      · rw [if_neg enum]
        have items : ∀ c ∈ v.item.toList.map Comment.ofItem, ¬ Marked c.lines := by
          intro c hc
          obtain ⟨i, hi, rfl⟩ := List.mem_map.mp hc
          exact Comment.not_marked_ofItem (plain.item i (Option.mem_toList.mp hi))
        exact documents_of_entity viewed (isWoven_javascriptEntity plain _) enum items rfl
  | php =>
      rw [language] at viewed
      simp only [language] at h
      obtain ⟨space, -, h⟩ := bind_eq_ok.mp h
      obtain ⟨-, -, h⟩ := bind_eq_ok.mp h
      obtain rfl := Except.ok.inj h
      by_cases enum : d.kind = .enum
      · rw [if_pos enum]
        exact documents_of_enumeration viewed (isWoven_phpEnumeration plain space) enum rfl
      · rw [if_neg enum]
        refine documents_of_entity viewed (isWoven_phpEntity plain space _) enum
          (List.forall_mem_nil _) ?_
        rw [List.append_nil]
        rfl

theorem documents_of_clientSource {client : String} {actions : List Action}
    (h : clientSource e index client actions = .ok f) :
    f.Documents (actions.map (·.description)) (actions.map (·.path)) := by
  obtain ⟨v, viewed, h⟩ := bind_eq_ok.mp h
  have className : IsWord v.className := (isClientView viewed).className ▸ isWord_clientClass client
  have plain := (isPlain_of_methodViews (isClientView viewed).methods).1
  cases language : e.language with
  | javascript =>
      rw [language] at viewed
      simp only [language, pure_eq, ok_bind] at h
      obtain ⟨common, -, h⟩ := bind_eq_ok.mp h
      split at h
      next => cases h
      next =>
        obtain rfl := Except.ok.inj h
        exact documents_of_client viewed (isWoven_javascriptClient className plain common)
          (List.forall_mem_singleton.mpr (not_marked_of_notMem (by decide))) rfl
  | php =>
      rw [language] at viewed
      simp only [language, pure_eq, ok_bind] at h
      obtain ⟨space, -, h⟩ := bind_eq_ok.mp h
      obtain ⟨common, -, h⟩ := bind_eq_ok.mp h
      split at h
      next => cases h
      next =>
        obtain rfl := Except.ok.inj h
        exact documents_of_client viewed (isWoven_phpClient className plain space common)
          (List.forall_mem_nil _) rfl

end SourceFile

variable {e : Emitter} {definitions : List Definition} {actions : List Action} {tree : Tree}

/-- Every file of a definition and of a client shows each line of the descriptions in one of
its comments, and is read with its comments as they were printed if and only if no text
that is printed in them holds the mark that closes a comment. -/
theorem render_documents (h : render e definitions actions = .ok tree) :
    (∀ d ∈ definitions, ∃ f, (entityFile e.language d.name, f) ∈ tree ∧
        f.Documents d.descriptions []) ∧
      ∀ client group, (client, group) ∈ groupByClient actions →
        ∃ f, (clientFile e.language client, f) ∈ tree ∧
          f.Documents (group.map (·.description)) (group.map (·.path)) := by
  obtain ⟨-, entities, clients, support, rfl, parts⟩ := render_eq_ok.mp h
  refine ⟨fun d hd => ?_, fun client group hg => ?_⟩
  · obtain ⟨f, source, there⟩ := parts.exists_entity hd
    exact ⟨f, there, SourceFile.documents_of_entitySource source⟩
  · obtain ⟨f, source, there⟩ := parts.exists_client hg
    exact ⟨f, there, SourceFile.documents_of_clientSource source⟩

/-- A type that is described in two lines, and a client without a description. -/
theorem transfer_comments_kept : ∃ tree entity client,
    render ⟨⟨.php, .str "acme", .str "bank", .null⟩, .str "Lib", .str "", .str "1", true⟩
      [{ name := "Transfer", description := some "Money\non its way * / or there" }]
      [{ path := "/transfers" }] = .ok tree ∧
    ("src/Entity/Transfer.php", entity) ∈ tree ∧ ("src/Service/TransferClient.php", client) ∈ tree ∧
      entity.KeepsComments ∧ (∃ c ∈ entity.comments, "on its way * / or there" ∈ c.lines) ∧
      client.KeepsComments := by
  have rendered : render
      ⟨⟨.php, .str "acme", .str "bank", .null⟩, .str "Lib", .str "", .str "1", true⟩
      [{ name := "Transfer", description := some "Money\non its way * / or there" }]
      [{ path := "/transfers" }] = .ok _ := rfl
  obtain ⟨entities, clients⟩ := render_documents rendered
  obtain ⟨entity, there, documents⟩ := entities _ List.mem_cons_self
  obtain ⟨client, listed, documented⟩ := clients "Transfer" _ (.head _)
  refine ⟨_, entity, client, rendered, there, listed, documents.kept.mpr ?_,
    documents.shown _ List.mem_cons_self _ ?_, documented.kept.mpr ?_⟩
  · rintro text (described | path)
    · obtain rfl : text = "Money\non its way * / or there" := by
        simpa [Definition.descriptions] using described
      decide
    · cases path
  · decide
  · rintro text (described | path)
    · cases List.mem_singleton.mp described
    · obtain rfl := List.mem_singleton.mp path
      decide

/-- A wildcard with a slash behind it closes the comment in which the path is printed. -/
theorem wildcard_closes_comment : ∃ tree f,
    Specification.ofDocument (.map [(.str "title", .str "Files"),
      (.str "/files/*/info", .map [(.str "get", .null)])]) none none =
      .ok ⟨"Files", [], [], [{ client := "Files", path := "/files/*/info" }], .null, none⟩ ∧
    render ⟨⟨.javascript, .str "", .str "files", .null⟩, .str "common", .str "", .str "1", true⟩ []
      [{ client := "Files", path := "/files/*/info" }] = .ok tree ∧
    ("src/service/FilesClient.js", f) ∈ tree ∧ ¬ f.KeepsComments := by
  have rendered : render
      ⟨⟨.javascript, .str "", .str "files", .null⟩, .str "common", .str "", .str "1", true⟩ []
      [{ client := "Files", path := "/files/*/info" }] = .ok _ := rfl
  refine ⟨_, _, ?parsed, rendered, .head _, ?closed⟩
  case parsed => with_unfolding_all rfl
  case closed =>
    rw [SourceFile.KeepsComments]
    decide +kernel

end Emission

end ClientForge
