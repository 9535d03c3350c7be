import Mathlib.Data.List.Perm.Basic
import Doopey.Foundation.Namespace

/-!
# Rebuilding a namespace

A walk from the root meets every directory before its entries, and the entries of one
directory in the order of its listing. So the paths can be added to an empty namespace
in the order of the walk, and this ends in the namespace that was walked through.
-/

namespace Foundation

section Lists

variable {α : Type*}

/-- A sublist that has all the elements with a property is what the property picks. -/
theorem filter_eq_of_sublist {p : α → Bool} {sub whole : List α} (hsub : sub.Sublist whole)
    (hnodup : whole.Nodup) (hmem : ∀ a ∈ whole, p a ↔ a ∈ sub) : whole.filter p = sub := by
  have hpicked : sub.filter p = sub :=
    List.filter_eq_self.mpr fun a ha => (hmem a (hsub.subset ha)).mpr ha
  have hfilter : sub.Sublist (whole.filter p) := hpicked ▸ hsub.filter p
  symm
  apply hfilter.eq_of_length
  apply List.Perm.length_eq
  rw [List.perm_ext_iff_of_nodup (hnodup.sublist hsub) (hnodup.filter p)]
  intro a
  rw [List.mem_filter]
  constructor
  · exact fun ha => ⟨hsub.subset ha, (hmem a (hsub.subset ha)).mpr ha⟩
  · exact fun ha => (hmem a ha.1).mp ha.2

/-- In a list without repetitions, what comes before an element is in front of it. -/
theorem mem_front_of_sublist {a b : α} {front rest : List α} (hnodup : (front ++ b :: rest).Nodup)
    (hsub : [a, b].Sublist (front ++ b :: rest)) : a ∈ front := by
  have hrest : b ∉ rest := (List.nodup_cons.mp (List.nodup_append.mp hnodup).2.1).1
  obtain ⟨before, after, hsplit, hbefore, hafter⟩ := List.sublist_append_iff.mp hsub
  cases before with
  | nil =>
      rw [List.nil_append] at hsplit
      subst hsplit
      cases hafter with
      | cons _ hafter => exact absurd (hafter.subset (by simp)) hrest
      | cons_cons _ hafter => exact absurd (hafter.subset (by simp)) hrest
  | cons first before =>
      obtain ⟨rfl, -⟩ := List.cons_eq_cons.mp hsplit
      exact hbefore.subset List.mem_cons_self

theorem sublist_flatMap_of_mem {β : Type*} {text : α → List β} {a : α} {list : List α}
    (ha : a ∈ list) : (text a).Sublist (list.flatMap text) :=
  List.sublist_flatten_of_mem (List.mem_map_of_mem ha)

/-- The heads of the parts that a list is made up of. -/
theorem sublist_flatMap_of_head {list : List α} {text : α → List α} :
    list.Sublist (list.flatMap fun a => a :: text a) := by
  induction list with
  | nil => exact List.Sublist.slnil
  | cons a list ih =>
      rw [List.flatMap_cons, List.cons_append]
      exact (ih.trans (List.sublist_append_right _ _)).cons_cons a

end Lists

namespace Namespace

variable {Path Value : Type*} {root : Path} {parent : Path → Option Path} {dir : Value}

/-- A walk meets a path before its entries, and these in the order of its listing. -/
theorem sublist_walk (ns : Namespace root parent dir) {depth : Nat} {above top : Path}
    (habove : above ∈ ns.walk depth top) :
    (above :: ns.listing above).Sublist (ns.walk (depth + 1) top) := by
  induction depth generalizing top with
  | zero => exact absurd habove (by simp [walk])
  | succ depth ih =>
      rw [walk]
      rcases mem_walk_succ.mp habove with rfl | ⟨entry, hentry, habove⟩
      · exact (sublist_flatMap_of_head.cons_cons above)
      · exact ((ih habove).trans (sublist_flatMap_of_mem hentry)).cons top

variable [DecidableEq Path]

/-- All paths but the root, every one behind its parent and the entries of one listing in
its order. -/
structure InOrder (ns : Namespace root parent dir) (paths : List Path) : Prop where
  mem {path : Path} : path ∈ paths ↔ path ≠ root ∧ ns.entry path ≠ none
  nodup : paths.Nodup
  parent_mem {front rest : List Path} {path : Path} : paths = front ++ path :: rest →
    ∃ above, parent path = some above ∧ (above = root ∨ above ∈ front)
  listing (above : Path) : paths.filter (fun path => parent path = some above) = ns.listing above

/-- A walk that is deep enough is in order. -/
theorem inOrder_walk {rank : Path → Nat}
    (hrank : ∀ {path above : Path}, parent path = some above → path ≠ root → rank above < rank path)
    (ns : Namespace root parent dir) {bound : Nat}
    (hbound : ∀ path, ns.entry path ≠ none → rank path < bound) :
    ∃ paths, ns.walk (bound + 1) root = root :: paths ∧ ns.InOrder paths := by
  have hroot : ns.entry root ≠ none := by simp [ns.root_entry]
  have hdeep {path : Path} (hentry : ns.entry path ≠ none) : path ∈ ns.walk bound root :=
    ns.mem_walk_mono (hbound path hentry) (ns.mem_walk_root hrank path hentry)
  have hmem {path : Path} : path ∈ ns.walk (bound + 1) root ↔ ns.entry path ≠ none :=
    ⟨ns.entry_of_mem_walk hroot, fun hentry => ns.mem_walk_mono (Nat.le_succ _) (hdeep hentry)⟩
  have hnodup := ns.nodup_walk hrank (bound + 1) root
  have hsub {above : Path} (hentry : ns.entry above ≠ none) :
      (above :: ns.listing above).Sublist (ns.walk (bound + 1) root) :=
    ns.sublist_walk (hdeep hentry)
  rw [walk] at hmem hnodup hsub ⊢
  generalize (ns.listing root).flatMap (ns.walk bound) = paths at hmem hnodup hsub ⊢
  obtain ⟨hrootPaths, hnodupPaths⟩ := List.nodup_cons.mp hnodup
  have hpaths {path : Path} : path ∈ paths ↔ path ≠ root ∧ ns.entry path ≠ none := by
    rw [← hmem, List.mem_cons]
    constructor
    · intro hpath
      refine ⟨?_, Or.inr hpath⟩
      rintro rfl
      exact hrootPaths hpath
    · rintro ⟨hne, hpath⟩
      exact hpath.resolve_left hne
  refine ⟨paths, rfl, hpaths, hnodupPaths, ?_, ?_⟩
  · rintro front rest path rfl
    obtain ⟨hne, hentry⟩ := hpaths.mp (List.mem_append_right front List.mem_cons_self)
    obtain ⟨above, habove, hdir⟩ := ns.exists_parent hentry hne
    have hlisted : path ∈ ns.listing above := ns.mem_listing.mpr ⟨hne, hentry, habove⟩
    have hpair : [above, path].Sublist (root :: front ++ path :: rest) :=
      ((List.singleton_sublist.mpr hlisted).cons_cons above).trans (hsub (by simp [hdir]))
    exact ⟨above, habove, List.mem_cons.mp (mem_front_of_sublist hnodup hpair)⟩
  · intro above
    -- the root is no entry, so that a listing is met in what is behind it
    have hlisting : (ns.listing above).Sublist paths := by
      by_cases hentry : ns.entry above = some dir
      · have hbound : ns.entry above ≠ none := by simp [hentry]
        have hbehind := List.sublist_of_cons_sublist (hsub hbound)
        rcases List.sublist_cons_iff.mp hbehind with hbehind | ⟨tail, heq, -⟩
        · exact hbehind
        · have hlisted : root ∈ ns.listing above := by simp [heq]
          exact absurd rfl (ns.mem_listing.mp hlisted).1
      · rw [ns.listing_eq_nil hentry]
        exact List.nil_sublist _
    apply filter_eq_of_sublist hlisting hnodupPaths
    intro path hpath
    obtain ⟨hne, hentry⟩ := hpaths.mp hpath
    simp [ns.mem_listing, hne, hentry]

/-- Of the paths of `ns`, the root and those of a list are bound, in the order of the list. -/
structure Rebuilt (ns part : Namespace root parent dir) (paths : List Path) : Prop where
  entry (path : Path) :
    part.entry path = if path = root ∨ path ∈ paths then ns.entry path else none
  listing (above : Path) : part.listing above = paths.filter fun path => parent path = some above

theorem rebuilt_initial (ns : Namespace root parent dir) :
    ns.Rebuilt (initial root parent dir) [] where
  entry path := by
    rw [entry_initial]
    by_cases heq : path = root
    · simp [heq, ns.root_entry]
    · simp [heq]
  listing _ := rfl

/-- The next path can be added. -/
theorem Rebuilt.add {ns part : Namespace root parent dir} {front rest : List Path} {path : Path}
    (hpart : ns.Rebuilt part front) (horder : ns.InOrder (front ++ path :: rest)) :
    ∃ value, ns.entry path = some value ∧ ∃ haccept : part.Accepts path,
      ns.Rebuilt (part.add path value haccept) (front ++ [path]) := by
  obtain ⟨hne, hentry⟩ := horder.mem.mp (List.mem_append_right front List.mem_cons_self)
  obtain ⟨value, hvalue⟩ := Option.ne_none_iff_exists'.mp hentry
  obtain ⟨above, habove, hdir⟩ := ns.exists_parent hentry hne
  have hnew : path ∉ front := fun hmem =>
    (List.nodup_append.mp horder.nodup).2.2 path hmem path List.mem_cons_self rfl
  -- the path is not bound yet, and the order has brought its parent in front of it
  have haccept : part.Accepts path := by
    constructor
    · rw [hpart.entry, if_neg (not_or.mpr ⟨hne, hnew⟩)]
    · obtain ⟨above', habove', hfront⟩ := horder.parent_mem rfl
      obtain rfl := Option.some.inj (habove.symm.trans habove')
      refine ⟨above, habove, ?_⟩
      rw [hpart.entry, if_pos hfront, hdir]
  refine ⟨value, hvalue, haccept, ?_, ?_⟩
  · intro other
    rw [part.entry_add, hpart.entry]
    by_cases heq : other = path
    · subst heq
      simp [hvalue]
    · simp [heq]
  · intro above'
    change (if parent path = some above' then part.listing above' ++ [path]
      else part.listing above') = _
    rw [hpart.listing, List.filter_append, List.filter_singleton]
    by_cases heq : parent path = some above' <;> simp [heq]

/-- When all paths are added, nothing is missing. -/
theorem Rebuilt.eq {ns part : Namespace root parent dir} {paths : List Path}
    (hpart : ns.Rebuilt part paths) (horder : ns.InOrder paths) : part = ns := by
  ext1
  · funext path
    rw [hpart.entry]
    split
    next => rfl
    next hnot =>
      obtain ⟨hne, hmem⟩ := not_or.mp hnot
      by_contra hentry
      exact hmem (horder.mem.mpr ⟨hne, Ne.symm hentry⟩)
  · funext above
    rw [hpart.listing, horder.listing]

end Namespace

end Foundation
