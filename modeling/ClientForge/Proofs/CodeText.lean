import ClientForge.Emission.PhpFile
import ClientForge.Proofs.CommentText
import ClientForge.Proofs.ConstantName
import ClientForge.Proofs.Imports

/-!
# The text of generated code

Generated code consists of fixed text, of names that are made from words, and of literals.
Fixed text and names open neither a literal nor a comment, and a literal closes itself
whatever text it holds. So every line of code leaves a reader where it found it.
-/

namespace ClientForge.Emission

open ClientForge.Outcome ClientForge.Text ClientForge.Naming

namespace Code

/-- The arguments and classes that an expression names. -/
def names : Code → List String
  | argument name => [name]
  | data => []
  | item => []
  | stored _ => []
  | orEmpty c => c.names
  | dateOf c => c.names
  | dateText c => c.names
  | construct cls c _ => cls :: c.names
  | rawOf c => c.names
  | ifPresent t c => t.names ++ c.names
  | mapped l b cls => l.names ++ b.names ++ cls.toList

theorem neutral_keyArgument (key : Option String) : Neutral (keyArgument key) := by
  cases key with
  | none => decide
  | some key => exact .append (by decide) (neutral_quote key)

theorem neutral_javascript {c : Code} (h : ∀ n ∈ c.names, IsWord n) : Neutral c.javascript := by
  fun_induction javascript c with
  | case1 name => exact neutral_of_isWord (h name (by simp [names]))
  | case2 => decide
  | case3 => decide
  | case4 key => exact (neutral_quote key).between _ _ (by decide) (by decide)
  | case5 c ih => exact (ih h).between _ _ (by decide) (by decide)
  | case6 c ih => exact (ih h).between _ _ (by decide) (by decide)
  | case7 c ih => exact (ih h).between _ _ (by decide) (by decide)
  | case8 cls c key ih =>
      have word := neutral_of_isWord (h cls (by simp [names]))
      have inner := ih fun n hn => h n (by simp [names, hn])
      exact ((((Neutral.append (by decide) word).append (by decide)).append inner).append
        (neutral_keyArgument key)).append (by decide)
  | case9 c ih => exact (ih h).append (by decide)
  | case10 c ih => exact .append (by decide) (ih fun n hn => h n (by simp [names, hn]))
  | case11 t c _ tested given =>
      have tested := tested fun n hn => h n (by simp [names, hn])
      have given := given fun n hn => h n (by simp [names, hn])
      exact (tested.append (by decide)).append given
  | case12 l b cls list body =>
      have list := list fun n hn => h n (by simp [names, hn])
      have body := body fun n hn => h n (by simp [names, hn])
      exact ((list.append (by decide)).append body).append (by decide)

theorem neutral_php {space : String} {c : Code} (hs : Neutral space)
    (h : ∀ n ∈ c.names, IsWord n) : Neutral (c.php space) := by
  fun_induction php space c with
  | case1 name => exact .append (by decide) (neutral_of_isWord (h name (by simp [names])))
  | case2 => decide
  | case3 => decide
  | case4 key => exact (neutral_quote key).between _ _ (by decide) (by decide)
  | case5 c ih => exact (ih h).append (by decide)
  | case6 c ih => exact (ih h).between _ _ (by decide) (by decide)
  | case7 c ih => exact (ih h).between _ _ (by decide) (by decide)
  | case8 cls c key ih =>
      have word := neutral_of_isWord (h cls (by simp [names]))
      have inner := ih fun n hn => h n (by simp [names, hn])
      have new : Neutral "new " := by decide
      have opening := ((new.append hs).append word).append (by decide : Neutral "(")
      exact ((opening.append inner).append (neutral_keyArgument key)).append (by decide)
  | case9 c ih => exact (ih h).append (by decide)
  | case10 t c tested given =>
      have tested := tested fun n hn => h n (by simp [names, hn])
      have given := given fun n hn => h n (by simp [names, hn])
      exact ((tested.append (by decide)).append given).append (by decide)
  | case11 l _ list =>
      have list := list fun n hn => h n (by simp [names, hn])
      exact list.between _ _ (by decide) (by decide)
  | case12 l _ list =>
      have list := list fun n hn => h n (by simp [names, hn])
      exact list.between _ _ (by decide) (by decide)
  | case13 l b cls _ _ body list =>
      have list := list fun n hn => h n (by simp [names, hn])
      have body := body fun n hn => h n (by simp [names, hn])
      have hint : Neutral ((cls.map (· ++ " ")).getD "") := by
        cases cls with
        | none => decide
        | some cls => exact (neutral_of_isWord (h cls (by simp [names]))).append (by decide)
      have opening : Neutral "$item) \x7b\n            return " := by decide
      have closing : Neutral ";\n        \x7d, " := by decide
      have function : Neutral "array_map(function (" := by decide
      have inside := ((function.append hint).append opening).append body
      exact ((inside.append closing).append list).append (by decide)

end Code

namespace Body

/-- The arguments and classes that a body names. -/
def names : Body → List String
  | give c => c.names
  | bindThenGive s c => s.names ++ c.names
  | store _ c => c.names

theorem neutral_javascriptLines {b : Body} (h : ∀ n ∈ b.names, IsWord n) :
    ∀ line ∈ b.javascriptLines, Neutral line := by
  have returned {c : Code} (hc : ∀ n ∈ c.names, IsWord n) :
      Neutral ("        return " ++ c.javascript ++ ";") :=
    (Code.neutral_javascript hc).between _ _ (by decide) (by decide)
  cases b with
  | give c => exact List.forall_mem_singleton.mpr (returned h)
  | bindThenGive s c =>
      have source : Neutral ("        const data = " ++ s.javascript ++ ";") :=
        (Code.neutral_javascript fun n hn => h n (by simp [names, hn])).between _ _ (by decide)
          (by decide)
      refine List.forall_mem_cons.mpr ⟨source, List.forall_mem_singleton.mpr (returned ?_)⟩
      exact fun n hn => h n (by simp [names, hn])
  | store key c =>
      have setter : Neutral ("        this.set(" ++ Literal.quote key ++ ", ") :=
        (neutral_quote key).between _ _ (by decide) (by decide)
      exact List.forall_mem_singleton.mpr
        ((Code.neutral_javascript h).between _ _ setter (by decide))

theorem neutral_phpLines {b : Body} (h : ∀ n ∈ b.names, IsWord n) :
    ∀ line ∈ b.phpLines, Neutral line := by
  have space : Neutral "" := by decide
  have returned {c : Code} (hc : ∀ n ∈ c.names, IsWord n) :
      Neutral ("        return " ++ c.php "" ++ ";") :=
    (Code.neutral_php space hc).between _ _ (by decide) (by decide)
  cases b with
  | give c => exact List.forall_mem_singleton.mpr (returned h)
  | bindThenGive s c =>
      have source : Neutral ("        $data = " ++ s.php "" ++ ";") :=
        (Code.neutral_php space fun n hn => h n (by simp [names, hn])).between _ _ (by decide)
          (by decide)
      refine List.forall_mem_cons.mpr ⟨source, List.forall_mem_cons.mpr ⟨space, ?_⟩⟩
      exact List.forall_mem_singleton.mpr (returned fun n hn => h n (by simp [names, hn]))
  | store key c =>
      have setter : Neutral ("        $this->set(" ++ Literal.quote key ++ ", ") :=
        (neutral_quote key).between _ _ (by decide) (by decide)
      exact List.forall_mem_cons.mpr
        ⟨(Code.neutral_php space h).between _ _ setter (by decide), by decide⟩

variable {l : Language} {n key argument : String} {c : Conversion}

theorem cls?_of_mem_reading (h : n ∈ (reading key c).names) : c.cls? = some n := by
  cases c <;> simp_all [reading, names, Code.names, Conversion.cls?]

theorem cls?_of_mem_creating (h : n ∈ (creating l c).names) : c.cls? = some n := by
  cases c <;> cases l <;> simp_all [creating, dataList, names, Code.names, Conversion.cls?]

theorem cls?_of_mem_writing (h : n ∈ (writing key argument c).names) :
    n = argument ∨ c.cls? = some n := by
  cases c <;> simp_all [writing, names, Code.names, Conversion.cls?, eq_comm]

end Body

section Views

variable {l : Language} {index : Index} {r : Reference}

theorem isWord_elementClass (r : Reference) : IsWord (elementClass r) := by
  unfold elementClass elementClass?
  split
  · exact isWord_className r.element.name
  · decide

theorem isWord_of_conversion {c : Conversion} (h : conversion index r = .ok c) {cls : String}
    (hc : c.cls? = some cls) : IsWord cls := by
  obtain ⟨-, -, rfl⟩ := cls?_of_conversion h hc
  exact isWord_elementClass r

theorem slash_notMem_plainDocType {qualified : Bool} {kind : ReferenceKind} {name doc : String}
    (h : plainDocType l index qualified kind name = .ok doc) : '/' ∉ doc.toList := by
  unfold plainDocType at h
  split at h
  · split at h
    next s _ =>
      obtain rfl := Except.ok.inj h
      cases l <;> cases s <;> decide
    next => cases h
  · obtain ⟨k, -, h⟩ := bind_eq_ok.mp h
    split at h
    · obtain rfl := Except.ok.inj h
      decide
    · obtain rfl := Except.ok.inj h
      have word := slash_notMem_className name
      split
      · simpa using word
      · exact word

/-- The documented type of a reference holds no slash. -/
theorem slash_notMem_docType {qualified : Bool} {doc : String}
    (h : docType l index qualified r = .ok doc) : '/' ∉ doc.toList := by
  induction r generalizing doc with
  | leaf kind name =>
      cases kind with
      | array => cases h
      | scalar => exact slash_notMem_plainDocType h
      | type => exact slash_notMem_plainDocType h
  | holding kind name items ih =>
      cases kind with
      | array =>
          obtain ⟨inner, item, h⟩ := bind_eq_ok.mp h
          obtain rfl := Except.ok.inj h
          have inside := ih item
          cases l with
          | javascript => simpa [arrayDocType] using inside
          | php =>
              dsimp only [arrayDocType]
              split
              · decide
              · simpa using inside
      | scalar => exact slash_notMem_plainDocType h
      | type => exact slash_notMem_plainDocType h

end Views

section Path

variable {l : Language}

theorem isWord_of_mem_pathParts {path v : String} {part : PathPart} (h : part ∈ pathParts l path)
    (hv : part.variableName? = some v) : IsWord v := by
  unfold pathParts at h
  split at h
  · obtain rfl := List.mem_singleton.mp h
    cases hv
  · obtain ⟨piece, -, rfl⟩ := List.mem_map.mp h
    cases piece with
    | text cs => cases hv
    | parameter name =>
        obtain rfl := Option.some.inj hv
        exact isWord_variableName l (String.ofList name)

/-- The expression of a path is made of literals and variables. -/
theorem neutral_source_pathExpr (path : String) :
    Neutral (pathExpr l (pathParts l path)).source := by
  cases l with
  | javascript =>
      refine neutral_intercalate (by decide) fun s hs => ?_
      obtain ⟨part, hp, rfl⟩ := List.mem_map.mp hs
      cases part with
      | literal text => exact neutral_quote text
      | parameter v =>
          exact (neutral_of_isWord (isWord_of_mem_pathParts hp rfl)).between _ _ (by decide)
            (by decide)
  | php =>
      unfold pathExpr
      dsimp only
      split
      · exact neutral_quote _
      · have arguments : Neutral (", ".intercalate
            (((pathParts .php path).filterMap (·.variableName?)).map fun v =>
              "urlencode($" ++ v ++ ")")) := by
          refine neutral_intercalate (by decide) fun s hs => ?_
          obtain ⟨v, hv, rfl⟩ := List.mem_map.mp hs
          obtain ⟨part, hp, named⟩ := List.mem_filterMap.mp hv
          exact (neutral_of_isWord (isWord_of_mem_pathParts hp named)).between _ _ (by decide)
            (by decide)
        have template := (neutral_quote (String.ofList
          ((pathParts .php path).flatMap (·.inTemplate)))).between "sprintf(" ", " (by decide)
            (by decide)
        exact (template.append arguments).append (by decide)

end Path

section Enumeration

theorem isName_toString (n : Nat) : IsName (toString n) := fun c hc =>
  .inl (by simp [isWordChar, isAsciiDigit_of_mem_toString hc])

theorem IsConstantName.isName {name : String} (h : IsConstantName name) : IsName name := by
  intro c hc
  refine (isWordChar_or_of_isConstantChar (h.chars c hc)).imp_right ?_
  rintro rfl
  exact List.mem_cons_self

end Enumeration

section Method

theorem isWord_joined (names : List String) : IsWord (String.join (names.map pascal)) := by
  intro c hc
  rw [String.toList_join] at hc
  obtain ⟨_, hw, hc⟩ := List.mem_flatMap.mp hc
  obtain ⟨name, -, rfl⟩ := List.mem_map.mp hw
  exact isWordChar_of_mem_pascal hc

theorem isWord_methodNameFromPath (a : Action) : IsWord (methodNameFromPath a) := by
  have verb : IsWord (defaultVerb a.method) := by
    cases a.method <;> decide
  unfold methodNameFromPath
  dsimp only
  split
  · split
    · exact (isWord_camel _).append (isWord_joined _)
    · exact verb.append (isWord_joined _)
  · exact verb.append (isWord_joined _)

theorem isName_of_isIdentifierLine {cs : List Char} (h : isIdentifierLine cs = true) {c : Char}
    (hc : c ∈ cs) : isWordChar c = true ∨ c ∈ ['_', '\n'] := by
  unfold isIdentifierLine at h
  dsimp only at h
  split at h
  next => cases h
  next d rest body =>
    simp only [Bool.and_eq_true, Bool.or_eq_true, beq_iff_eq, List.all_eq_true] at h
    have inside (hc : c ∈ d :: rest) : isWordChar c = true ∨ c ∈ ['_', '\n'] := by
      rcases List.mem_cons.mp hc with rfl | hc
      · rcases h.1 with letter | rfl
        · exact .inl (by simp [isWordChar, letter])
        · exact .inr (by decide)
      · rcases h.2 c hc with word | rfl
        · exact .inl word
        · exact .inr (by decide)
    split at body
    next front turned =>
      have whole : cs = d :: rest ++ ['\n'] := by
        rw [← List.reverse_reverse cs, turned, List.reverse_cons, body]
      rw [whole, List.mem_append] at hc
      exact hc.elim inside fun last => .inr (List.mem_cons_of_mem _ last)
    next => exact inside (body ▸ hc)

/-- The name of a method consists of letters, digits and underscores; a line feed may stand
at its end. -/
theorem isName_of_methodName {a : Action} {name : String} (h : methodName a = .ok name) :
    IsName name := by
  unfold methodName at h
  split at h
  next s _ =>
    split at h
    next identifier =>
      obtain rfl := Except.ok.inj h
      intro c hc
      rw [String.toList_ofList] at hc
      cases chars : s.toList with
      | nil =>
          rw [chars] at hc
          cases hc
      | cons d rest =>
          rw [chars] at hc identifier
          rcases List.mem_cons.mp hc with rfl | hc
          · rcases isName_of_isIdentifierLine identifier List.mem_cons_self with word | sign
            · exact .inl (isWordChar_small word)
            · have same : ∀ e ∈ ['_', '\n'], small e = e := by
                simpa using (by decide : small '_' = '_' ∧ small '\n' = '\n')
              exact .inr ((same d sign).symm ▸ sign)
          · exact isName_of_isIdentifierLine identifier (List.mem_cons_of_mem d hc)
    next =>
      obtain rfl := Except.ok.inj h
      exact isName_of_isWord (isWord_methodNameFromPath a)
  next =>
    split at h
    · cases h
    · obtain rfl := Except.ok.inj h
      exact isName_of_isWord (isWord_methodNameFromPath a)

/-- Telling methods apart adds letters and digits to their names. -/
theorem isName_uniqueName {name : String} (h : IsName name) (parameters : List String)
    (taken : Taken) : IsName (uniqueName name parameters taken).1 := by
  have behind : IsName ("And".intercalate (parameters.map pascal)) :=
    intercalate_keeps (by decide) (fun _ _ => IsName.append) (by decide) fun part hp => by
      obtain ⟨p, -, rfl⟩ := List.mem_map.mp hp
      exact isName_of_isWord (isWord_className p)
  have by_ : IsName "By" := by decide
  have plain : IsName (if taken.has name && !parameters.isEmpty then
      name ++ "By" ++ "And".intercalate (parameters.map pascal) else name) := by
    split
    · exact (h.append by_).append behind
    · exact h
  unfold uniqueName
  dsimp only
  split
  · exact plain.append (isName_toString _)
  · exact plain

end Method

end ClientForge.Emission
