import ClientForge.Proofs.Emitted
import ClientForge.Proofs.Evaluation
import ClientForge.Proofs.Lookup
import Mathlib.Logic.Function.Iterate

/-!
# How deep conversions go

A value crosses the boundary of a generated class where a property is read or written, where
an item of a result is made and where a client answers. What is emitted there for a reference
turns raw data into dates and entities, or these back into raw data. It depends on the
reference only by the innermost element and by whether there is an array at all, so the
conversion of an array is that of its items, mapped, only if these are no arrays themselves,
and values are converted down to their leaves only through a single array. The documented type
follows all of them.
-/

namespace ClientForge

/-- The number of arrays around the innermost element. -/
def Reference.depth : Reference → Nat
  | .leaf _ _ => 0
  | .holding _ _ items => items.depth + 1

theorem Reference.depth_array (r : Reference) : r.array.depth = r.depth + 1 := rfl

theorem Reference.WellFormed.isArray_eq {r : Reference} (h : r.WellFormed) :
    r.isArray = decide (r.depth ≠ 0) := by
  cases h <;> rfl

namespace Emission

open ClientForge.Outcome

/-- What the values of a type consist of, if they are converted at all. -/
inductive Element
  | date (s : Scalar)
  | named (n : String)

namespace Element

/-- A date scalar, or a defined type that is no enumeration, under the arrays of a reference. -/
def IsOf (index : Index) (r : Reference) : Element → Prop
  | date s => r.element = .scalar s ∧ isDateScalar s.name = true
  | named n => r.element = .named n ∧ ∃ d, index.get? n = some d ∧ d.kind ≠ .enum

/-- The conversion of an element, or of a list of elements. -/
def conversion (many : Bool) : Element → Conversion
  | date _ => if many then .dates else .date
  | named n => if many then .entities (Naming.className n) else .entity (Naming.className n)

/-- The key of the items, if an element is a result that has one. -/
def itemsKey? (index : Index) : Element → Option String
  | date _ => none
  | named n => (index.get? n).bind fun d => if d.kind = .result then d.itemsKey else none

/-- The documented type of an element. -/
def docType (l : Language) (qualified : Bool) : Element → String
  | date s => scalarDocType l s
  | named n =>
    if l = .php ∧ qualified then "Entities\\" ++ Naming.className n else Naming.className n

/-- The raw data of an element: a text that denotes a date, or a record. -/
def Raw (rt : Runtime) : Element → Datum → Prop
  | date _, v => v.isText = true ∧ rt.denotesDate v = true
  | named _, v => v.isRecord = true

/-- A date, or an object of the element's class, over raw data. -/
def Built (rt : Runtime) : Element → Datum → Prop
  | date _, v => ∃ source, v = .date source ∧ rt.denotesDate source = true
  | named n, v => ∃ cls data key, v = .object cls data key ∧
      rt.isKindOf cls (Naming.className n) = true ∧ data.isRecord = true

end Element

/-- The places where a value crosses the boundary of a generated class. -/
inductive Place
  | getter (key : String)
  | setter (key argument : String)
  /-- The method that makes the items of a result. -/
  | item
  | response

namespace Place

/-- The body that is emitted for a reference. -/
def body (l : Language) (index : Index) (r : Reference) : Place → Outcome Body
  | getter key => (Emission.conversion index r).map (.reading key)
  | setter key argument => (Emission.conversion index r).map (.writing key argument)
  | item => (Emission.conversion index r).map (.creating l)
  | response => (replyOf index r).map fun reply => .give (reply.code?.getD .data)

/-- What is in scope as a value crosses. -/
def scope (v : Datum) : Place → Scope
  | getter key => ⟨fun _ => .absent, fun k => if k = key then v else .absent, .absent, .absent⟩
  | setter _ argument =>
    ⟨fun a => if a = argument then v else .absent, fun _ => .absent, .absent, .absent⟩
  | item => ⟨fun _ => .absent, fun _ => .absent, v, .absent⟩
  | response => ⟨fun _ => .absent, fun _ => .absent, v, .absent⟩

/-- What a body makes of a value that crosses. -/
def run (rt : Runtime) (l : Language) (b : Body) (place : Place) (v : Datum) : Option Datum :=
  b.run rt l (place.scope v)

/-- Whether values of an element are converted: a client answers with dates as they are. -/
def Converts : Place → Element → Prop
  | response, .date _ => False
  | _, _ => True

/-- The leaves that are taken: raw data, and for a setter what is made of it. -/
def Takes (rt : Runtime) (e : Element) : Place → Datum → Prop
  | setter _ _ => e.Built rt
  | _ => e.Raw rt

/-- The leaves that are delivered. -/
def Delivers (rt : Runtime) (e : Element) : Place → Datum → Prop
  | setter _ _ => e.Raw rt
  | _ => e.Built rt

/-- The key that a single value of an element is given. -/
def key? (index : Index) (e : Element) : Place → Option String
  | response => e.itemsKey? index
  | _ => none

/-- What becomes of a leaf; an object is given a key. -/
def leaf (rt : Runtime) (l : Language) (key : Option String) :
    Place → Element → Datum → Option Datum
  | setter _ _, .date _, v => rt.format v
  | setter _ _, .named n, v =>
    if rt.admits l (some (Naming.className n)) v then v.raw? else none
  | _, .date _, v => rt.create l v
  | _, .named n, v => some (.object (Naming.className n) v key)

/-- Whether a body makes of a list what another one makes of its items, mapped. -/
def Maps (rt : Runtime) (l : Language) (e : Element) (depth : Nat) (single lists : Body)
    (place : Place) : Prop :=
  ∀ vs, (∀ v ∈ vs, Nested (place.Takes rt e) depth v) →
    place.run rt l lists (.list vs) = (vs.mapM (place.run rt l single)).map .list

/-- Whether a body converts nested values down to their leaves. -/
def Reaches (rt : Runtime) (l : Language) (e : Element) (depth : Nat) (b : Body)
    (place : Place) : Prop :=
  ∀ v, Nested (place.Takes rt e) depth v →
    ∃ w, place.run rt l b v = some w ∧ Nested (place.Delivers rt e) depth w

/-- The body for an element, or for a list of elements. -/
def emitted (l : Language) (index : Index) (e : Element) (many : Bool) : Place → Body
  | getter key => .reading key (e.conversion many)
  | setter key argument => .writing key argument (e.conversion many)
  | item => .creating l (e.conversion many)
  | response =>
    match e with
    | .date _ => .give .data
    | .named n =>
      if many then .give (.mapped .data (.construct (Naming.className n) .item none) none)
      else .give (.construct (Naming.className n) .data (e.itemsKey? index))

end Place

section

variable {rt : Runtime} {l : Language} {index : Index} {place : Place} {r : Reference}
  {e : Element} {v : Datum} {vs : List Datum}

/-! ## What is emitted -/

theorem conversion_eq (element : e.IsOf index r) :
    conversion index r = .ok (e.conversion r.isArray) := by
  cases e with
  | date s =>
      obtain ⟨innermost, date⟩ := element
      have name : (Reference.scalar s).name = s.name := rfl
      simp only [conversion, innermost, Reference.kind_scalar, if_true, name, date]
      rfl
  | named n =>
      obtain ⟨innermost, d, found, other⟩ := element
      have name : (Reference.named n).name = n := rfl
      have cls : elementClass r = Naming.className n := by
        simp [elementClass, elementClass?, innermost, name]
      simp only [conversion, innermost, name, Index.kindOf, found, ok_bind, other, cls]
      cases r.isArray <;> rfl

/-- What is emitted depends on the element and on whether there is an array around it. -/
theorem body_eq (wellFormed : r.WellFormed) (element : e.IsOf index r) (l : Language)
    (place : Place) : place.body l index r = .ok (place.emitted l index e r.isArray) := by
  have converted := conversion_eq element
  cases place with
  | getter key => rw [Place.body, converted]; rfl
  | setter key argument => rw [Place.body, converted]; rfl
  | item => rw [Place.body, converted]; rfl
  | response =>
      rw [Place.body, replyOf, converted, ok_bind]
      cases e with
      | date s => cases r.isArray <;> rfl
      | named n =>
          obtain ⟨innermost, d, found, -⟩ := element
          cases many : r.isArray with
          | true => rfl
          | false =>
              have whole : r = .named n := by
                cases wellFormed with
                | scalar s => cases innermost
                | named m => exact innermost
                | array items => cases many
              have name : r.name = n := congrArg Reference.name whole
              simp only [Element.conversion, Bool.false_eq_true, if_false, name, Index.kindOf,
                found, ok_bind, Option.bind_some, Place.emitted, Element.itemsKey?]
              by_cases result : d.kind = .result <;> simp [result] <;> rfl

/-- The accessors of a property have the bodies of two of the places. -/
theorem body_of_propertyView {p : Property} {w : PropertyView}
    (h : propertyView l index p = .ok w) :
    (Place.getter w.key).body l index p.reference = .ok (.reading w.key w.conversion) ∧
      (Place.setter w.key w.variableName).body l index p.reference =
        .ok (.writing w.key w.variableName w.conversion) := by
  rw [Place.body, Place.body, (isPropertyView h).conversion]
  exact ⟨rfl, rfl⟩

theorem body_of_itemView {d : Definition} {i : ItemView}
    (h : itemView l index d = .ok (some i)) :
    ∃ r, d.itemType = some r ∧ Place.item.body l index r = .ok (.creating l i.conversion) := by
  unfold itemView at h
  split at h
  next r _ typed =>
    obtain ⟨c, converted, h⟩ := bind_eq_ok.mp h
    obtain ⟨doc, -, h⟩ := bind_eq_ok.mp h
    obtain rfl := Option.some.inj (Except.ok.inj h)
    refine ⟨r, typed, ?_⟩
    rw [Place.body, converted]
    rfl
  · cases h

theorem body_of_actionView {a : Action} {m : MethodView} (h : actionView l index a = .ok m)
    (typed : a.responseType = some r) :
    Place.response.body l index r = .ok (.give (m.reply.code?.getD .data)) := by
  rcases replyOf_of_responseView (isActionView h).response with ⟨none_, -⟩ | ⟨q, asked, replied⟩
  · rw [typed] at none_
    cases none_
  · obtain rfl := Option.some.inj (typed.symm.trans asked)
    rw [Place.body, replied]
    rfl

/-- Wherever a value crosses, a module of a tree runs the body of a place: the bodies of its
methods and what a client replies with stand in its lines, and each is emitted for a reference
of a definition or for a response. -/
theorem bodies_of_render {em : Emitter} {definitions : List Definition} {actions : List Action}
    {tree : Tree} (js : em.language = .javascript)
    (rendered : render em definitions actions = .ok tree) {path : String} {f : JavascriptFile}
    (h : (path, SourceFile.javascript f) ∈ tree) :
    (∀ b ∈ f.bodies, (∀ line ∈ b.javascriptLines, line ∈ f.lines) ∧
      ∃ place q, Place.body .javascript definitions q place = .ok b) ∧
    ∀ c ∈ f.replies, "                return " ++ c.javascript ++ ";" ∈ f.lines ∧
      ∃ a ∈ actions, ∃ q, a.responseType = some q ∧
        Place.response.body .javascript definitions q = .ok (.give c) := by
  obtain ⟨-, entities, clients, support, rfl, parts⟩ := render_eq_ok.mp rendered
  obtain ⟨-, printed, replied, -⟩ := f.mem_lines
  suffices placed : (∀ b ∈ f.bodies, ∃ place q,
      Place.body .javascript definitions q place = .ok b) ∧ ∀ c ∈ f.replies, ∃ a ∈ actions, ∃ q,
        a.responseType = some q ∧ Place.response.body .javascript definitions q = .ok (.give c) from
    ⟨fun b hb => ⟨printed b hb, placed.1 b hb⟩, fun c hc => ⟨replied c hc, placed.2 c hc⟩⟩
  rcases parts.cases_of_mem h with ⟨d, -, -, source⟩ | ⟨group, hg, -, -, source⟩ | others
  · obtain ⟨v, view, same⟩ := entitySource_javascript js source
    obtain rfl := SourceFile.javascript.inj same
    split
    · exact ⟨nofun, nofun⟩
    · refine ⟨fun b hb => ?_, nofun⟩
      rcases List.mem_append.mp hb with hb | hb
      · obtain ⟨i, hi, rfl⟩ := List.mem_map.mp hb
        have item := view.item
        rw [Option.mem_toList.mp hi] at item
        obtain ⟨q, -, emitted⟩ := body_of_itemView item
        exact ⟨.item, q, emitted⟩
      · obtain ⟨w, hw, hb⟩ := List.mem_flatMap.mp hb
        obtain ⟨p, -, viewed⟩ := exists_zip_right view.properties hw
        obtain ⟨reads, writes⟩ := body_of_propertyView viewed
        rcases List.mem_pair.mp hb with rfl | rfl
        · exact ⟨_, _, reads⟩
        · exact ⟨_, _, writes⟩
  · obtain ⟨v, view, same⟩ := clientSource_javascript js source
    obtain rfl := SourceFile.javascript.inj same
    refine ⟨nofun, fun c hc => ?_⟩
    obtain ⟨m, hm, code⟩ := List.mem_filterMap.mp hc
    obtain ⟨a, pair, w, viewed, renamed⟩ := exists_zip_right (calls_of_methodViews view.methods) hm
    have reply : m.reply = w.reply := by rw [renamed]
    have code' : w.reply.code? = some c := reply ▸ code
    refine ⟨a, (mem_groupByClient hg (List.of_mem_zip pair).1).1, ?_⟩
    cases typed : a.responseType with
    | none =>
        rcases replyOf_of_responseView (isActionView viewed).response with
          ⟨-, nothing⟩ | ⟨q, asked, -⟩
        · rw [show w.reply = .nothing from nothing] at code'
          cases code'
        · cases typed.symm.trans asked
    | some q =>
        refine ⟨q, rfl, ?_⟩
        rw [body_of_actionView viewed typed, code']
        rfl
  · obtain ⟨name, version, rfl⟩ := supportFiles_javascript js parts.others
    simp only [List.mem_cons, Prod.mk.injEq, SourceFile.javascript.injEq, List.not_mem_nil,
      or_false] at others
    rcases others with ⟨-, rfl⟩ | ⟨-, rfl⟩ | ⟨-, rfl⟩
    all_goals exact ⟨nofun, nofun⟩

/-- The documented type has an array for each array of the reference. -/
theorem docType_eq (wellFormed : r.WellFormed) (element : e.IsOf index r) (l : Language)
    (qualified : Bool) :
    docType l index qualified r = .ok ((arrayDocType l)^[r.depth] (e.docType l qualified)) := by
  induction wellFormed with
  | scalar s =>
      cases e with
      | date t =>
          have same : Reference.scalar s = .scalar t := element.1
          rw [same]
          simp [Reference.scalar, docType, plainDocType, Element.docType, Reference.depth]
      | named n => cases element.1
  | named m =>
      cases e with
      | date t => cases element.1
      | named n =>
          obtain ⟨innermost, d, found, other⟩ := element
          obtain rfl : m = n := congrArg Reference.name innermost
          simp [Reference.named, docType, plainDocType, Index.kindOf, found, other,
            Element.docType, Reference.depth]
  | @array r items ih =>
      have inner : docType l index qualified r = _ := ih element
      rw [Reference.depth_array, Function.iterate_succ_apply', Reference.array, docType, inner]
      rfl

/-! ## What is run -/

theorem eval_stored (rt : Runtime) (l : Language) (key : String) (v : Datum) :
    (Code.stored key).eval rt l ((Place.getter key).scope v) = some v := by
  simp [Code.eval, Place.scope]

theorem eval_argument (rt : Runtime) (l : Language) (key argument : String) (v : Datum) :
    (Code.argument argument).eval rt l ((Place.setter key argument).scope v) = some v := by
  simp [Code.eval, Place.scope]

/-- A list is converted item by item, whatever the items are. -/
theorem run_list (converts : place.Converts e) :
    place.run rt l (place.emitted l index e true) (.list vs) =
      (vs.mapM (place.leaf rt l none e)).map .list := by
  have unchecked (v : Datum) (w : Option Datum) :
      (if rt.admits l none v then w else none) = w := by
    rw [Runtime.admits_none, if_pos rfl]
  cases place with
  | getter key =>
      have listed : (Code.orEmpty (.stored key)).eval rt l ((Place.getter key).scope (.list vs)) =
          some (.list vs) := by
        rw [Code.eval, eval_stored]
        cases l <;> rfl
      cases e with
      | date s => exact Code.eval_mapped listed fun v => unchecked v _
      | named n => exact Code.eval_mapped listed fun v => unchecked v _
  | setter key argument =>
      have listed := eval_argument rt l key argument (.list vs)
      cases e with
      | date s => exact Code.eval_mapped listed fun v => unchecked v _
      | named n => exact Code.eval_mapped listed fun v => rfl
  | item =>
      have listed : (Body.dataList l).eval rt l (Place.item.scope (.list vs)) =
          some (.list vs) := by
        cases l <;> rfl
      cases e with
      | date s => exact Code.eval_mapped listed fun v => unchecked v _
      | named n => exact Code.eval_mapped listed fun v => unchecked v _
  | response =>
      have listed : Code.data.eval rt l (Place.response.scope (.list vs)) = some (.list vs) := rfl
      cases e with
      | date s => exact converts.elim
      | named n => exact Code.eval_mapped listed fun v => unchecked v _

/-- A single value is converted as a leaf if it is one that the place takes. -/
theorem run_single (converts : place.Converts e) (takes : place.Takes rt e v) :
    place.run rt l (place.emitted l index e false) v =
      place.leaf rt l (place.key? index e) e v := by
  cases place with
  | getter key =>
      have read := eval_stored rt l key v
      cases e with
      | date s => exact congrArg (Option.bind · (rt.create l)) read
      | named n =>
          have present : v ≠ .absent := by
            rintro rfl
            cases takes
          exact (Body.run_bindThenGive read).trans (Code.eval_ifPresent rfl present)
  | setter key argument =>
      have given := eval_argument rt l key argument v
      cases e with
      | date s => exact congrArg (Option.bind · rt.format) given
      | named n =>
          obtain ⟨cls, data, itemsKey, rfl, kind, -⟩ := takes
          have written : (Code.rawOf (.argument argument)).eval rt l
              ((Place.setter key argument).scope (.object cls data itemsKey)) = some data := by
            rw [Code.eval, given]
            rfl
          refine (Code.eval_ifPresent given (by simp)).trans (written.trans ?_)
          cases l with
          | javascript => rfl
          | php => exact (if_pos kind).symm
  | item =>
      cases e <;> rfl
  | response =>
      cases e with
      | date s => exact converts.elim
      | named n => rfl

/-- A leaf that a place takes is turned into one that it delivers. -/
theorem leaf_takes (key : Option String) (takes : place.Takes rt e v) :
    ∃ w, place.leaf rt l key e v = some w ∧ place.Delivers rt e w := by
  have made (text : v.isText = true) (denotes : rt.denotesDate v = true) :
      rt.create l v = some (.date v) := by
    cases v with
    | text s | dateText source => cases l <;> simp [Runtime.create, Datum.isText, denotes]
    | _ => cases text
  cases place with
  | setter _ _ =>
      cases e with
      | date s =>
          obtain ⟨source, rfl, denotes⟩ := takes
          exact ⟨.dateText source, if_pos denotes, rfl, rt.denotesDate_dateText _ denotes⟩
      | named n =>
          obtain ⟨cls, data, itemsKey, rfl, kind, raw⟩ := takes
          refine ⟨data, ?_, raw⟩
          cases l with
          | javascript => rfl
          | php => exact if_pos kind
  | getter _ | item | response =>
      cases e with
      | date s => exact ⟨.date v, made takes.1 takes.2, v, rfl, takes.2⟩
      | named n => exact ⟨.object (Naming.className n) v key, rfl, _, _, _, rfl,
          rt.isKindOf_self _, takes⟩

/-- A list that stands where a leaf is expected is not converted into a list. -/
theorem leaf_list (key : Option String) (place : Place) (e : Element) (vs ws : List Datum) :
    place.leaf rt l key e (.list vs) ≠ some (.list ws) := by
  cases place <;> cases e <;> cases l <;> nofun

/-- A list that has lists in it is converted as if these were leaves. -/
theorem run_list_nil (converts : place.Converts e) :
    place.run rt l (place.emitted l index e true) (.list []) = some (.list []) :=
  run_list converts

theorem run_list_singleton (converts : place.Converts e) :
    place.run rt l (place.emitted l index e true) (.list [v]) =
      (place.leaf rt l none e v).map fun w => .list [w] := by
  rw [run_list converts, mapM_singleton, Option.map_map]
  rfl

/-- The body for lists maps the one for single values, unless that gives a key to them. What
lies deeper is not mapped: an inner list that is empty is taken for a leaf. -/
theorem maps_iff (converts : place.Converts e) (depth : Nat) :
    place.Maps rt l e depth (place.emitted l index e (decide (depth ≠ 0)))
        (place.emitted l index e true) ↔ depth = 0 ∧ place.key? index e = none := by
  cases depth with
  | zero =>
      constructor
      · intro maps
        refine ⟨rfl, ?_⟩
        cases place with
        -- Only a client gives keys; there a record shows whether the items of a list get one.
        | getter _ | setter _ _ | item => rfl
        | response =>
            cases e with
            | date s => exact converts.elim
            | named n =>
                have whole := maps [.record []] (List.forall_mem_singleton.mpr (.leaf rfl))
                have single : Place.response.run rt l
                    (Place.response.emitted l index (.named n) false) (.record []) = _ :=
                  run_single converts rfl
                rw [run_list_singleton converts, mapM_singleton] at whole
                simpa [single, Place.leaf] using whole.symm
      · rintro ⟨-, keyless⟩ vs nested
        have items : vs.mapM (place.run rt l (place.emitted l index e false)) =
            vs.mapM (place.leaf rt l none e) := mapM_congr fun v hv => by
          rw [run_single converts (nested_zero_iff.mp (nested v hv)), keyless]
        rw [run_list converts, ← items]
        rfl
  | succ depth =>
      constructor
      · intro maps
        -- The empty list is a list of every depth, so it stays one; as a leaf it does not.
        have whole := maps [.list []] (List.forall_mem_singleton.mpr (nested_nil _ depth))
        have inner : [Datum.list []].mapM (place.run rt l (place.emitted l index e true)) =
            some [.list []] := by
          rw [mapM_singleton, run_list_nil converts]
          rfl
        rw [run_list_singleton converts] at whole
        obtain ⟨w, converted, same⟩ := Option.map_eq_some_iff.mp
          (whole.trans (congrArg (Option.map Datum.list) inner))
        obtain rfl := List.singleton_inj.mp (Datum.list.inj same)
        exact absurd converted (leaf_list none place e [] [])
      · rintro ⟨none_, -⟩
        cases none_

/-- One list of leaves is converted, but no list in a list. -/
theorem reaches_iff (converts : place.Converts e) (depth : Nat) :
    place.Reaches rt l e depth (place.emitted l index e (decide (depth ≠ 0))) ↔ depth ≤ 1 := by
  match depth with
  | 0 =>
      refine iff_of_true (fun v nested => ?_) (Nat.zero_le 1)
      have takes := nested_zero_iff.mp nested
      obtain ⟨w, converted, delivers⟩ := leaf_takes (l := l) (place.key? index e) takes
      exact ⟨w, (run_single converts takes).trans converted, .leaf delivers⟩
  | 1 =>
      refine iff_of_true (fun v nested => ?_) (Nat.le_refl 1)
      obtain ⟨vs, rfl, each⟩ := nested_succ_iff.mp nested
      obtain ⟨ws, converted, delivers⟩ := exists_mapM_eq_some fun v hv =>
        leaf_takes (l := l) none (nested_zero_iff.mp (each v hv))
      refine ⟨.list ws, ?_, .list fun w hw => .leaf (delivers w hw)⟩
      exact (run_list converts).trans (congrArg (Option.map Datum.list) converted)
  | depth + 2 =>
      refine iff_of_false (fun reaches => ?_) (by omega)
      obtain ⟨w, converted, nested⟩ := reaches (.list [.list []])
        (.list (List.forall_mem_singleton.mpr (nested_nil _ depth)))
      obtain ⟨u, leaf, rfl⟩ := Option.map_eq_some_iff.mp
        ((run_list_singleton converts).symm.trans converted)
      obtain ⟨us, same, each⟩ := nested_succ_iff.mp nested
      obtain rfl := Datum.list.inj same
      obtain ⟨ws, rfl, -⟩ := nested_succ_iff.mp (each u List.mem_cons_self)
      exact leaf_list none place e [] ws leaf

end

/-- The conversion that is emitted for an array is the one for its items, mapped, exactly if
the items are no arrays and are given no key of their own; and nested values are converted down
to their leaves exactly through one array. The documented type follows every array. -/
theorem conversion_nests_iff (rt : Runtime) (l : Language) {index : Index} {place : Place}
    {r : Reference} {e : Element} (wellFormed : r.WellFormed) (element : e.IsOf index r)
    (converts : place.Converts e) :
    ∃ single lists, place.body l index r = .ok single ∧ place.body l index r.array = .ok lists ∧
      (place.Maps rt l e r.depth single lists ↔ r.depth = 0 ∧ place.key? index e = none) ∧
      (place.Reaches rt l e r.depth single ↔ r.depth ≤ 1) ∧
      ∀ qualified, docType l index qualified r =
        .ok ((arrayDocType l)^[r.depth] (e.docType l qualified)) := by
  have single := body_eq wellFormed element l place
  have lists := body_eq wellFormed.array (r := r.array) element l place
  rw [wellFormed.isArray_eq] at single
  exact ⟨_, _, single, lists, maps_iff converts r.depth, reaches_iff converts r.depth,
    docType_eq wellFormed element l⟩

/-- A property of rows is read down to its entities, but a table of rows is not. -/
theorem money_rows_reached :
    (Reference.named "Money").array.WellFormed ∧
      (Element.named "Money").IsOf [{ name := "Money" }] (Reference.named "Money").array ∧
      ∃ row table,
        (Place.getter "cells").body .javascript [{ name := "Money" }]
          (Reference.named "Money").array = .ok row ∧
        (Place.getter "cells").body .javascript [{ name := "Money" }]
          (Reference.named "Money").array.array = .ok table ∧
        (Place.getter "cells").Reaches .plain .javascript (.named "Money") 1 row ∧
        ¬ (Place.getter "cells").Maps .plain .javascript (.named "Money") 1 row table := by
  have wellFormed : (Reference.named "Money").array.WellFormed := .array (.named _)
  have element : (Element.named "Money").IsOf [{ name := "Money" }]
      (Reference.named "Money").array := ⟨rfl, _, rfl, by decide⟩
  have converts : (Place.getter "cells").Converts (.named "Money") := trivial
  obtain ⟨row, table, emitted, mapped, maps, reaches, -⟩ :=
    conversion_nests_iff .plain .javascript wellFormed element converts
  exact ⟨wellFormed, element, row, table, emitted, mapped, reaches.mpr (Nat.le_refl 1),
    fun h => absurd (maps.mp h).1 (by decide)⟩

/-- A table is documented as an array of arrays, but each of its rows is taken for one entity. -/
theorem rows_taken_for_entities :
    docType .javascript [{ name := "Money" }] false (Reference.named "Money").array.array =
        .ok "Array.<Array.<Money>>" ∧
      ∃ row table,
        (Place.getter "cells").body .javascript [{ name := "Money" }]
          (Reference.named "Money").array = .ok row ∧
        (Place.getter "cells").body .javascript [{ name := "Money" }]
          (Reference.named "Money").array.array = .ok table ∧
        [Datum.list [.record []]].mapM ((Place.getter "cells").run .plain .javascript row) =
          some [.list [.object "Money" (.record []) none]] ∧
        (Place.getter "cells").run .plain .javascript table (.list [.list [.record []]]) =
          some (.list [.object "Money" (.list [.record []]) none]) ∧
        ¬ (Place.getter "cells").Maps .plain .javascript (.named "Money") 1 row table := by
  refine ⟨rfl, _, _, rfl, rfl, rfl, rfl, fun maps => ?_⟩
  have nested : Nested ((Place.getter "cells").Takes .plain (.named "Money")) 1
      (.list [.record []]) := .list (List.forall_mem_singleton.mpr (.leaf rfl))
  have same : some (Datum.list [.object "Money" (.list [.record []]) none]) =
      some (.list [.list [.object "Money" (.record []) none]]) :=
    maps _ (List.forall_mem_singleton.mpr nested)
  simp at same

end Emission

end ClientForge
