import ClientForge.Proofs.ClassFile
import ClientForge.Proofs.Provision
import ClientForge.Proofs.WordScan

/-!
# The vendor in two namespaces

The classes of a PHP package are in a namespace that opens with the vendor, and they extend classes
of a runtime library whose namespace opens with the vendor too, unless the settings name the
library. Both segments are made from the words of one setting: in the namespace of the package a
word keeps its letters behind the first one, in that of the library they become small. Only a word
of several capitals can tell the difference. So the two segments are one identifier exactly if the
vendor has no such word, and they are missing together in any case.
-/

namespace ClientForge

open ClientForge.Text ClientForge.Outcome

namespace Naming

variable {c : Char} {cs w : List Char} {name : String}

/-! ## Two ways to write a word with a capital -/

theorem small_eq_self_iff : small c = c ↔ isAsciiUpper c = false := by
  constructor
  · intro same
    refine Bool.eq_false_iff.mpr fun upper => ?_
    have lower := isAsciiLower_small upper
    rw [same, not_isAsciiLower_of_isAsciiUpper upper] at lower
    cases lower
  · exact small_eq_self

theorem capital_small (c : Char) : capital (small c) = capital c := by
  cases upper : isAsciiUpper c with
  | true =>
      obtain ⟨same, back⟩ := capital_of_isAsciiUpper upper
      rw [same, back]
  | false => rw [small_eq_self_iff.mpr upper]

theorem map_small_eq_self_iff : cs.map small = cs ↔ ∀ c ∈ cs, isAsciiUpper c = false := by
  induction cs with
  | nil => simp
  | cons c cs ih => simp [ih, small_eq_self_iff]

/-- Behind its first character a word has a capital only if it is an acronym. -/
theorem IsWordForm.isAcronym_eq_false_iff (h : IsWordForm w) :
    isAcronym w = false ↔ ∀ c ∈ w.tail, isAsciiUpper c = false := by
  have noCapital {c : Char} {v : List Char} (inside : c ∈ v) (other : isAsciiUpper c = false) :
      isAcronym v = false := by
    rw [isAcronym, List.all_eq_false.mpr ⟨c, inside, by simp [other]⟩, Bool.and_false]
  have ofDigit {c : Char} (digit : isAsciiDigit c = true) : isAsciiUpper c = false := by
    refine Bool.eq_false_iff.mpr fun upper => ?_
    rw [isAsciiDigit_of_isAsciiLetter (by simp [isAsciiLetter, upper])] at digit
    cases digit
  cases h with
  | capitals some_ upper =>
      cases w with
      | nil => exact absurd rfl some_
      | cons c tail =>
          cases tail with
          | nil => simp [isAcronym]
          | cons d tail =>
              have all : (c :: d :: tail).all isAsciiUpper = true := List.all_eq_true.mpr upper
              have long : isAcronym (c :: d :: tail) = true := by
                rw [isAcronym, all]
                simp
              have second : isAsciiUpper d = true := upper d (by simp)
              refine iff_of_false (by simp [long]) fun none_ => ?_
              simp [none_ d List.mem_cons_self] at second
  | @mixed opening letters digits single upper some_ lower digit =>
      obtain ⟨c, letters, rfl⟩ := List.exists_cons_of_ne_nil some_
      have first : isAsciiUpper c = false :=
        not_isAsciiUpper_of_isAsciiLower (lower c List.mem_cons_self)
      refine iff_of_true (noCapital (c := c) (by simp) first) fun d hd => ?_
      have behind : d ∈ (c :: letters) ++ digits := by
        cases opening with
        | nil => exact List.mem_of_mem_tail hd
        | cons e opening =>
            obtain rfl : opening = [] := by simpa using single
            exact hd
      rcases List.mem_append.mp behind with inside | inside
      · exact not_isAsciiUpper_of_isAsciiLower (lower d inside)
      · exact ofDigit (digit d inside)
  | digits some_ digit =>
      obtain ⟨c, tail, rfl⟩ := List.exists_cons_of_ne_nil some_
      have all : ∀ d ∈ c :: tail, isAsciiUpper d = false := fun d hd => ofDigit (digit d hd)
      exact iff_of_true (noCapital List.mem_cons_self (all c List.mem_cons_self)) fun d hd =>
        all d (List.mem_cons_of_mem c hd)

/-- Making a word small but for its first letter changes it exactly if it is an acronym. -/
theorem IsWordForm.capitalized_map_small_iff (h : IsWordForm w) :
    capitalized (w.map small) = capitalized w ↔ isAcronym w = false := by
  rw [h.isAcronym_eq_false_iff]
  cases w with
  | nil => simp [capitalized]
  | cons c tail =>
      rw [List.map_cons, capitalized, capitalized, capital_small, List.cons_inj_right,
        map_small_eq_self_iff, List.tail_cons]

theorem length_capitalized (w : List Char) : (capitalized w).length = w.length := by
  cases w <;> rfl

/-- The two ways to set the words of a name together agree word by word. -/
theorem titled_eq_pascal_iff :
    titled name = pascal name ↔ ∀ w ∈ words name.toList, isAcronym w = false := by
  rw [titled, pascal, String.ofList_inj, pascalOf]
  have forms : ∀ w ∈ words name.toList, IsWordForm w := fun w hw => isWordForm_of_mem_words hw
  generalize words name.toList = ws at forms
  induction ws with
  | nil => simp
  | cons w ws ih =>
      have others : ∀ v ∈ ws, IsWordForm v := fun v hv => forms v (List.mem_cons_of_mem w hv)
      have long : (capitalized (w.map small)).length = (capitalized w).length := by
        rw [length_capitalized, length_capitalized, List.length_map]
      have here := (forms w List.mem_cons_self).capitalized_map_small_iff
      rw [List.flatMap_cons, List.flatMap_cons, List.forall_mem_cons]
      refine Iff.trans ?_ (and_congr here (ih others))
      constructor
      · intro same
        exact List.append_inj same long
      · rintro ⟨here, there⟩
        rw [here, there]

theorem isWord_titled (name : String) : IsWord (titled name) := by
  intro c hc
  rw [titled, String.toList_ofList, ← List.flatMap_map] at hc
  refine isWordChar_of_mem_pascalOf (fun w hw d hd => ?_) hc
  obtain ⟨v, hv, rfl⟩ := List.mem_map.mp hw
  obtain ⟨e, he, rfl⟩ := List.mem_map.mp hd
  exact isWordChar_small (isWordChar_of_mem_words hv he)

/-- Either way a name is empty if it has no words. -/
theorem titled_eq_empty_iff : titled name = "" ↔ pascal name = "" := by
  have long : (titled name).length = (pascal name).length := by
    rw [titled, pascal, String.length_ofList, String.length_ofList, pascalOf, List.length_flatMap,
      List.length_flatMap]
    simp only [length_capitalized, List.length_map]
  rw [← String.length_eq_zero_iff, ← String.length_eq_zero_iff, long]

end Naming

namespace Emission

open ClientForge.Naming

variable {s : Settings} {vendor api : String}

/-- The vendor of a namespace: its first segment, if others follow. -/
def vendorOf? (space : String) : Option String :=
  match split '\x5c' space with
  | first :: _ :: _ => some first
  | _ => none

theorem vendorOf?_of_isWord {space : String} (word : IsWord space) : vendorOf? space = none := by
  rw [vendorOf?, split_of_notMem (word.notMem (by decide))]

theorem vendorOf?_append {first : String} (word : IsWord first) (rest : String) :
    vendorOf? (first ++ "\\" ++ rest) = some first := by
  obtain ⟨second, more, cut⟩ := List.exists_cons_of_ne_nil (splitAt_ne_nil '\x5c' rest.toList)
  have parts : split '\x5c' (first ++ "\\" ++ rest) = first :: split '\x5c' rest :=
    split_append (word.notMem (by decide))
  rw [vendorOf?, parts, split, cut, List.map_cons]

theorem vendorOf?_ite {first alone : String} (word : IsWord first) (single : IsWord alone)
    (rest : String) :
    vendorOf? (if first = "" then alone else first ++ "\\" ++ rest) =
      if first = "" then none else some first := by
  split
  next => exact vendorOf?_of_isWord single
  next => exact vendorOf?_append word rest

theorem library_of_unset (given : s.vendor = .str vendor) (unset : s.common.isTruthy = false) :
    s.library .php = .ok (.str (if titled vendor = "" then "RestClientCommon"
      else titled vendor ++ "\\" ++ "Component\\RestClientCommon")) := by
  have path : "\\Component\\RestClientCommon" = "\\" ++ "Component\\RestClientCommon" := rfl
  rw [Settings.library, if_neg (by simp [unset]), defaultCommonPackage_of_text given, path,
    String.append_assoc]
  simp only [beq_iff_eq]
  rfl

/-- The runtime library's namespace names the same vendor as the namespace of the generated
classes exactly if no word of the vendor is an acronym, and either names none if the other does. -/
theorem vendors_agree_iff (given : s.vendor = .str vendor) (named : s.apiName = .str api)
    (unset : s.common.isTruthy = false) :
    ∃ e space common, Emitter.ofSettings .php s = .ok e ∧
      e.resolver.namespaceName = .ok space ∧ e.common = .str common ∧
      (vendorOf? common = vendorOf? space ↔ ∀ w ∈ words vendor.toList, isAcronym w = false) ∧
      (vendorOf? common = none ↔ vendorOf? space = none) := by
  have word : IsWord (pascal vendor) := isWord_className vendor
  refine ⟨_, _, _, Settings.ofSettings_eq_ok.mpr ⟨_, library_of_unset given unset, rfl⟩,
    namespaceName_of_texts given named, rfl, ?_⟩
  rw [vendorOf?_ite (isWord_titled vendor) (by decide), vendorOf?_ite word (isWord_interface api),
    ← titled_eq_pascal_iff]
  by_cases empty : titled vendor = ""
  · have other : pascal vendor = "" := titled_eq_empty_iff.mp empty
    simp [empty, other]
  · have other : pascal vendor ≠ "" := mt titled_eq_empty_iff.mpr empty
    simp [empty, other]

/-- A vendor of small words, single capitals and digits has one name. -/
theorem vendor_of_small_words_agrees : ∃ e space common,
    Emitter.ofSettings .php { vendor := .str "acmePay 2u-B", apiName := .str "shop" } = .ok e ∧
      e.resolver.namespaceName = .ok space ∧ e.common = .str common ∧
      vendorOf? common = vendorOf? space ∧ (vendorOf? common = none ↔ vendorOf? space = none) := by
  obtain ⟨e, space, common, made, named, library, same, missing⟩ := vendors_agree_iff
    (s := { vendor := .str "acmePay 2u-B", apiName := .str "shop" }) rfl rfl rfl
  exact ⟨e, space, common, made, named, library, same.mpr (by decide), missing⟩

/-- A vendor in capitals has two names: a class in the namespace of the one extends a class in the
namespace of the other. -/
theorem vendor_in_capitals_differs : ∃ e f,
    Emitter.ofSettings .php { vendor := .str "ACME", apiName := .str "shop" } = .ok e ∧
      e.resolver.namespaceName = .ok "ACME\\ShopClient" ∧
      e.common = .str "Acme\\Component\\RestClientCommon" ∧
      vendorOf? "Acme\\Component\\RestClientCommon" ≠ vendorOf? "ACME\\ShopClient" ∧
      entitySource e [] { name := "Money" } = .ok (.php f) ∧
      f.lines.take 6 = ["<?php", "", "namespace ACME\\ShopClient\\Entity;", "",
        "use Acme\\Component\\RestClientCommon\\Entity\\Entity;", ""] := by
  refine ⟨_, _, rfl, rfl, rfl, by decide, rfl, ?_⟩
  decide

end Emission

end ClientForge
