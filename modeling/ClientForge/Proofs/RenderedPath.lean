import ClientForge.Proofs.Generation

/-!
# The paths of rendered files

Every part of the path of a rendered file is the name of a folder or of a source file:
never empty, never dots alone, and never the name of a temporary neighbour. So the path
leads straight down from the root of its tree, and two paths lead to two places.
-/

namespace ClientForge

/-- A text is its pieces with the separator between them. -/
theorem Text.joinWith_splitAt (sep : Char) (cs : List Char) :
    joinWith [sep] (splitAt sep cs) = cs := by
  induction cs with
  | nil => rfl
  | cons c rest ih =>
      by_cases same : c = sep
      · obtain ⟨piece, more, cut⟩ := List.exists_cons_of_ne_nil (splitAt_ne_nil sep rest)
        rw [cut] at ih
        rw [splitAt, if_pos same, cut]
        simp [joinWith, ih, same]
      · obtain ⟨piece, more, cut, whole⟩ := splitAt_cons_of_ne same rest
        rw [cut] at ih
        rw [whole]
        cases more with
        | nil =>
            obtain rfl : piece = rest := ih
            rfl
        | cons next more => simpa [joinWith] using ih

theorem Text.split_injective {sep : Char} {s t : String} (h : split sep s = split sep t) :
    s = t := by
  have pieces : splitAt sep s.toList = splitAt sep t.toList :=
    List.map_injective_iff.mpr (fun a b same => by simpa using congrArg String.toList same) h
  have same := congrArg (joinWith [sep]) pieces
  rwa [joinWith_splitAt, joinWith_splitAt, String.toList_inj] at same

namespace FilePath

/-- Whether a part of a path names something that stays: nothing that is dropped from a
path, no way back, and no temporary neighbour. -/
def isLasting (part : String) : Bool :=
  isPart part && part != ".." && !Text.endsWith part ".tmp"

theorem isPart_of_isLasting {part : String} (h : isLasting part = true) : isPart part = true := by
  simp only [isLasting, Bool.and_eq_true] at h
  exact h.1.1

theorem not_isLasting_dots : isLasting ".." = false := by decide

/-- The name of a source file stays. -/
theorem isLasting_sourceName (l : Language) (name : String) :
    isLasting (name ++ "." ++ Naming.extension l) = true := by
  have other {s : String}
      (h : (name ++ "." ++ Naming.extension l).toList.reverse ≠ s.toList.reverse) :
      name ++ "." ++ Naming.extension l ≠ s := by
    rintro rfl
    exact h rfl
  have lasting : Text.endsWith (name ++ "." ++ Naming.extension l) ".tmp" = false := by
    rw [Text.endsWith, List.isSuffixOf]
    cases l <;> simp [Naming.extension, List.isPrefixOf]
  simp only [isLasting, isPart, lasting, Bool.not_false, Bool.and_true, Bool.and_eq_true,
    bne_iff_ne]
  refine ⟨⟨other ?_, other ?_⟩, other ?_⟩ <;> cases l <;> simp [Naming.extension]

/-- A path that leads down from a folder by parts that stay. -/
structure Lasting (path : String) : Prop where
  inner : (ofText path).Inner
  parts : ∀ part ∈ Text.split '/' path, isLasting part = true

namespace Lasting

variable {path : String} (h : Lasting path)
include h

theorem parts_eq : (ofText path).parts = Text.split '/' path :=
  List.filter_eq_self.mpr fun part hp => isPart_of_isLasting (h.parts part hp)

theorem dots_notMem : ".." ∉ (ofText path).parts := by
  rw [h.parts_eq]
  intro dots
  have lasting := h.parts _ dots
  rw [not_isLasting_dots] at lasting
  cases lasting

end Lasting

instance (path : String) : Decidable (Lasting path) :=
  decidable_of_iff ((ofText path).Inner ∧ ∀ part ∈ Text.split '/' path, isLasting part = true)
    ⟨fun ⟨inner, parts⟩ => ⟨inner, parts⟩, fun ⟨inner, parts⟩ => ⟨inner, parts⟩⟩

end FilePath

namespace Generation

open ClientForge.Emission ClientForge.FilePath

theorem lasting_sourcePath {l : Language} {folder name : String} (hf : '/' ∉ folder.toList)
    (hn : '/' ∉ name.toList) (lasting : isLasting folder = true)
    (inner : (ofText (Naming.sourcePath l folder name)).Inner) :
    Lasting (Naming.sourcePath l folder name) := by
  refine ⟨inner, ?_⟩
  rw [Naming.split_sourcePath l hf hn]
  intro part hp
  rcases List.mem_cons.mp hp with rfl | hp
  · decide
  · rcases List.mem_pair.mp hp with rfl | rfl
    · exact lasting
    · exact isLasting_sourceName l name

theorem lasting_entityFile (l : Language) (name : String) :
    Lasting (Naming.entityFile l name) :=
  lasting_sourcePath (by cases l <;> decide) (Naming.slash_notMem_className name)
    (by cases l <;> decide) (inner_entityFile l name)

theorem lasting_clientFile (l : Language) (client : String) :
    Lasting (Naming.clientFile l client) :=
  lasting_sourcePath (by cases l <;> decide) (Naming.slash_notMem_clientClass client)
    (by cases l <;> decide) (inner_clientFile l client)

/-- Every path of a tree that is rendered leads down by parts that stay, and no path comes
twice. -/
theorem lasting_of_render {e : Emitter} {definitions : List Definition} {actions : List Action}
    {tree : Tree} (h : render e definitions actions = .ok tree) :
    (∀ path ∈ Table.names tree, Lasting path) ∧ (Table.names tree).Nodup := by
  obtain ⟨-, entities, clients, support, rfl, parts⟩ := render_eq_ok.mp h
  refine ⟨?_, parts.once⟩
  have others := names_supportFiles parts.others
  intro path hp
  obtain ⟨entry, he, rfl⟩ := List.mem_map.mp hp
  rcases parts.cases_of_mem he with ⟨d, -, path, -⟩ | ⟨group, -, -, path, -⟩ | member
  · exact path ▸ lasting_entityFile e.language d.name
  · exact path ▸ lasting_clientFile e.language group.1
  · have fixed := Table.mem_names_of_mem member
    rw [others] at fixed
    have all : ∀ path ∈ supportPaths e.language, Lasting path := by
      cases e.language <;> decide
    exact all _ fixed

end Generation

end ClientForge
