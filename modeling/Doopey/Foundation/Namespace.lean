import Mathlib.Data.List.Nodup
import Mathlib.Logic.Function.Basic

/-!
# Hierarchical namespaces

A namespace binds paths to values. Every path but the root has a parent, which
is bound to the value that marks directories, and every path keeps the list of
its entries in the order in which they were added. Paths, values and the parent
function are parameters.
-/

namespace Foundation

variable {Path Value : Type*}

/-- A set of bound paths that is closed under parents, with the ordered listing
of every path. -/
@[ext] structure Namespace (root : Path) (parent : Path → Option Path) (dir : Value) where
  entry : Path → Option Value
  listing : Path → List Path
  root_entry : entry root = some dir
  mem_listing {path above : Path} :
    path ∈ listing above ↔ path ≠ root ∧ entry path ≠ none ∧ parent path = some above
  exists_parent {path : Path} : entry path ≠ none → path ≠ root →
    ∃ above, parent path = some above ∧ entry above = some dir
  listing_nodup (above : Path) : (listing above).Nodup

namespace Namespace

variable {root : Path} {parent : Path → Option Path} {dir : Value}

/-- The path is free and its parent is a directory. -/
def Accepts (ns : Namespace root parent dir) (path : Path) : Prop :=
  ns.entry path = none ∧ ∃ above, parent path = some above ∧ ns.entry above = some dir

theorem Accepts.ne_root {ns : Namespace root parent dir} {path : Path} (h : ns.Accepts path) :
    path ≠ root := by
  rintro rfl
  exact Option.some_ne_none dir (ns.root_entry.symm.trans h.1)

/-- Only directories have entries. -/
theorem entry_of_mem_listing (ns : Namespace root parent dir) {path above : Path}
    (hmem : path ∈ ns.listing above) : ns.entry above = some dir := by
  obtain ⟨hroot, hentry, hparent⟩ := ns.mem_listing.mp hmem
  obtain ⟨above', hparent', hdir⟩ := ns.exists_parent hentry hroot
  rwa [Option.some.inj (hparent.symm.trans hparent')]

theorem listing_eq_nil (ns : Namespace root parent dir) {path : Path}
    (hentry : ns.entry path ≠ some dir) : ns.listing path = [] :=
  List.eq_nil_iff_forall_not_mem.mpr fun _ hmem => hentry (ns.entry_of_mem_listing hmem)

/-- A path occurs in one listing only. -/
theorem listing_unique (ns : Namespace root parent dir) {path above above' : Path}
    (h : path ∈ ns.listing above) (h' : path ∈ ns.listing above') : above = above' :=
  Option.some.inj ((ns.mem_listing.mp h).2.2.symm.trans (ns.mem_listing.mp h').2.2)

variable [DecidableEq Path]

/-- The namespace of an empty root directory. -/
def initial (root : Path) (parent : Path → Option Path) (dir : Value) :
    Namespace root parent dir where
  entry := Function.update (fun _ => none) root (some dir)
  listing := fun _ => []
  root_entry := Function.update_self ..
  mem_listing {path above} := by
    refine ⟨fun h => absurd h List.not_mem_nil, fun h => ?_⟩
    exact absurd (Function.update_of_ne h.1 _ _) h.2.1
  exists_parent := fun {path} hentry hroot => absurd (Function.update_of_ne hroot _ _) hentry
  listing_nodup := fun _ => List.nodup_nil

/-- Bind an accepted path, at the end of its parent's listing. -/
def add (ns : Namespace root parent dir) (path : Path) (value : Value) (h : ns.Accepts path) :
    Namespace root parent dir where
  entry := Function.update ns.entry path (some value)
  listing := fun above =>
    if parent path = some above then ns.listing above ++ [path] else ns.listing above
  root_entry := by rw [Function.update_of_ne h.ne_root.symm, ns.root_entry]
  mem_listing {path' above} := by
    by_cases hpath : path' = path
    · subst hpath
      have hnot : path' ∉ ns.listing above := fun hmem => (ns.mem_listing.mp hmem).2.1 h.1
      by_cases hparent : parent path' = some above <;> simp [hparent, hnot, h.ne_root]
    · rw [Function.update_of_ne hpath, ← ns.mem_listing]
      split <;> simp [hpath]
  exists_parent {path'} := by
    intro hentry hroot
    have hdir : ∀ above, ns.entry above = some dir →
        Function.update ns.entry path (some value) above = some dir := by
      intro above habove
      rw [Function.update_of_ne, habove]
      rintro rfl
      exact Option.some_ne_none dir (habove.symm.trans h.1)
    by_cases hpath : path' = path
    · subst hpath
      obtain ⟨above, hparent, habove⟩ := h.2
      exact ⟨above, hparent, hdir above habove⟩
    · rw [Function.update_of_ne hpath] at hentry
      obtain ⟨above, hparent, habove⟩ := ns.exists_parent hentry hroot
      exact ⟨above, hparent, hdir above habove⟩
  listing_nodup above := by
    split
    next =>
      rw [List.nodup_append']
      refine ⟨ns.listing_nodup above, List.nodup_singleton path, ?_⟩
      intro path' hmem hmem'
      rw [List.mem_singleton.mp hmem'] at hmem
      exact (ns.mem_listing.mp hmem).2.1 h.1
    next => exact ns.listing_nodup above

/-- Unbind a path without entries. -/
def remove (ns : Namespace root parent dir) (path : Path) (hroot : path ≠ root)
    (hleaf : ns.listing path = []) : Namespace root parent dir where
  entry := Function.update ns.entry path none
  listing := fun above => (ns.listing above).erase path
  root_entry := by rw [Function.update_of_ne hroot.symm, ns.root_entry]
  mem_listing {path' above} := by
    rw [(ns.listing_nodup above).mem_erase_iff, ns.mem_listing]
    by_cases hpath : path' = path
    · simp [hpath]
    · simp [hpath]
  exists_parent {path'} := by
    intro hentry hne
    have hpath : path' ≠ path := by
      rintro rfl
      exact hentry (Function.update_self ..)
    rw [Function.update_of_ne hpath] at hentry
    obtain ⟨above, hparent, habove⟩ := ns.exists_parent hentry hne
    refine ⟨above, hparent, ?_⟩
    rw [Function.update_of_ne, habove]
    rintro rfl
    have hmem : path' ∈ ns.listing above := ns.mem_listing.mpr ⟨hne, hentry, hparent⟩
    simp [hleaf] at hmem
  listing_nodup above := (ns.listing_nodup above).erase path

theorem entry_initial (path : Path) :
    (initial root parent dir).entry path = if path = root then some dir else none := by
  simp [initial, Function.update_apply]

theorem entry_add (ns : Namespace root parent dir) {path : Path} (value : Value)
    (h : ns.Accepts path) (path' : Path) :
    (ns.add path value h).entry path' = if path' = path then some value else ns.entry path' :=
  Function.update_apply ..

theorem listing_add_parent (ns : Namespace root parent dir) {path above : Path} (value : Value)
    (h : ns.Accepts path) (hparent : parent path = some above) :
    (ns.add path value h).listing above = ns.listing above ++ [path] := if_pos hparent

theorem listing_add_of_ne (ns : Namespace root parent dir) {path above : Path} (value : Value)
    (h : ns.Accepts path) (hparent : parent path ≠ some above) :
    (ns.add path value h).listing above = ns.listing above := if_neg hparent

theorem entry_remove (ns : Namespace root parent dir) {path : Path} (hroot : path ≠ root)
    (hleaf : ns.listing path = []) (path' : Path) :
    (ns.remove path hroot hleaf).entry path' = if path' = path then none else ns.entry path' :=
  Function.update_apply ..

theorem listing_remove (ns : Namespace root parent dir) {path : Path} (hroot : path ≠ root)
    (hleaf : ns.listing path = []) (above : Path) :
    (ns.remove path hroot hleaf).listing above =
      (ns.listing above).filter fun path' => path' ≠ path := by
  refine ((ns.listing_nodup above).erase_eq_filter path).trans ?_
  apply List.filter_congr
  intro path' _
  by_cases heq : path' = path <;> simp [heq]

theorem listing_remove_of_not_mem (ns : Namespace root parent dir) {path : Path}
    (hroot : path ≠ root) (hleaf : ns.listing path = []) {above : Path}
    (hnot : path ∉ ns.listing above) :
    (ns.remove path hroot hleaf).listing above = ns.listing above :=
  List.erase_of_not_mem hnot

theorem listing_remove_of_eq_cons (ns : Namespace root parent dir) {path : Path}
    (hroot : path ≠ root) (hleaf : ns.listing path = []) {above : Path} {rest : List Path}
    (hlist : ns.listing above = path :: rest) :
    (ns.remove path hroot hleaf).listing above = rest := by
  change (ns.listing above).erase path = rest
  rw [hlist, List.erase_cons_head]

/-! ## Walking through a namespace -/

omit [DecidableEq Path]

/-- A path and all that is below it, in the order of a depth-first traversal cut
off at a depth. -/
def walk (ns : Namespace root parent dir) : Nat → Path → List Path
  | 0, _ => []
  | depth + 1, path => path :: (ns.listing path).flatMap (ns.walk depth)

theorem mem_walk_succ {ns : Namespace root parent dir} {depth : Nat} {path top : Path} :
    path ∈ ns.walk (depth + 1) top ↔
      path = top ∨ ∃ entry ∈ ns.listing top, path ∈ ns.walk depth entry := by
  simp [walk]

/-- Only bound paths are walked through. -/
theorem entry_of_mem_walk (ns : Namespace root parent dir) {depth : Nat} {path top : Path}
    (htop : ns.entry top ≠ none) (hmem : path ∈ ns.walk depth top) : ns.entry path ≠ none := by
  induction depth generalizing top with
  | zero => simp [walk] at hmem
  | succ depth ih =>
      rcases mem_walk_succ.mp hmem with rfl | ⟨entry, hentry, hmem⟩
      · exact htop
      · exact ih (ns.mem_listing.mp hentry).2.1 hmem

/-- The entries of a walked path are walked through one level deeper. -/
theorem mem_walk_of_listing (ns : Namespace root parent dir) {depth : Nat} {path above top : Path}
    (habove : above ∈ ns.walk depth top) (hmem : path ∈ ns.listing above) :
    path ∈ ns.walk (depth + 1) top := by
  induction depth generalizing top with
  | zero => simp [walk] at habove
  | succ depth ih =>
      rcases mem_walk_succ.mp habove with rfl | ⟨entry, hentry, habove⟩
      · exact mem_walk_succ.mpr (Or.inr ⟨path, hmem, mem_walk_succ.mpr (Or.inl rfl)⟩)
      · exact mem_walk_succ.mpr (Or.inr ⟨entry, hentry, ih habove⟩)

theorem mem_walk_mono (ns : Namespace root parent dir) {depth depth' : Nat} (hle : depth ≤ depth')
    {path top : Path} (hmem : path ∈ ns.walk depth top) : path ∈ ns.walk depth' top := by
  induction depth generalizing depth' top with
  | zero => simp [walk] at hmem
  | succ depth ih =>
      obtain ⟨depth', rfl⟩ := Nat.exists_eq_add_of_le' hle
      rw [← Nat.add_assoc]
      rcases mem_walk_succ.mp hmem with rfl | ⟨entry, hentry, hmem⟩
      · exact mem_walk_succ.mpr (Or.inl rfl)
      · exact mem_walk_succ.mpr (Or.inr ⟨entry, hentry, ih (Nat.le_add_left ..) hmem⟩)

/-- A walked path is the top, or its parent is walked through as well. -/
theorem parent_of_mem_walk (ns : Namespace root parent dir) {depth : Nat} {path top : Path}
    (hmem : path ∈ ns.walk depth top) :
    path = top ∨ path ≠ root ∧ ∃ above, parent path = some above ∧ above ∈ ns.walk depth top := by
  induction depth generalizing top with
  | zero => simp [walk] at hmem
  | succ depth ih =>
      rcases mem_walk_succ.mp hmem with rfl | ⟨entry, hentry, hmem⟩
      · exact Or.inl rfl
      · obtain ⟨hroot, -, hparent⟩ := ns.mem_listing.mp hentry
        refine Or.inr ?_
        rcases ih hmem with rfl | ⟨hne, above, habove, hmem⟩
        · exact ⟨hroot, top, hparent, mem_walk_succ.mpr (Or.inl rfl)⟩
        · exact ⟨hne, above, habove, mem_walk_succ.mpr (Or.inr ⟨entry, hentry, hmem⟩)⟩

section Ranked

variable {rank : Path → Nat}
  (hrank : ∀ {path above : Path}, parent path = some above → path ≠ root → rank above < rank path)

include hrank

/-- A deep enough walk from the root meets every bound path. -/
theorem mem_walk_root (ns : Namespace root parent dir) (path : Path) (hentry : ns.entry path ≠ none) :
    path ∈ ns.walk (rank path + 1) root := by
  by_cases hroot : path = root
  · exact mem_walk_succ.mpr (Or.inl hroot)
  obtain ⟨above, habove, hdir⟩ := ns.exists_parent hentry hroot
  have hlt := hrank habove hroot
  have hmem := ns.mem_walk_root above (by rw [hdir]; simp)
  exact ns.mem_walk_mono (Nat.succ_le_succ hlt)
    (ns.mem_walk_of_listing hmem (ns.mem_listing.mpr ⟨hroot, hentry, habove⟩))
termination_by rank path

theorem rank_le_of_mem_walk (ns : Namespace root parent dir) {depth : Nat} {path top : Path}
    (hmem : path ∈ ns.walk depth top) : rank top ≤ rank path := by
  induction depth generalizing top with
  | zero => simp [walk] at hmem
  | succ depth ih =>
      rcases mem_walk_succ.mp hmem with rfl | ⟨entry, hentry, hmem⟩
      · exact Nat.le_refl _
      · obtain ⟨hroot, -, hparent⟩ := ns.mem_listing.mp hentry
        exact Nat.le_trans (Nat.le_of_lt (hrank hparent hroot)) (ih hmem)

/-- Walks from two entries of one listing do not meet. -/
theorem eq_of_mem_walk (ns : Namespace root parent dir) {above top top' : Path}
    (htop : top ∈ ns.listing above) (htop' : top' ∈ ns.listing above) {depth : Nat} (path : Path)
    (hmem : path ∈ ns.walk depth top) (hmem' : path ∈ ns.walk depth top') : top = top' := by
  have hlt {entry : Path} (hentry : entry ∈ ns.listing above) : rank above < rank entry :=
    hrank (ns.mem_listing.mp hentry).2.2 (ns.mem_listing.mp hentry).1
  -- the parent of an entry is `above`, which no walk from an entry reaches
  have hmeet {entry entry' : Path} (hentry : entry ∈ ns.listing above)
      (hentry' : entry' ∈ ns.listing above) (hpath : entry ∈ ns.walk depth entry') :
      entry = entry' := by
    refine (ns.parent_of_mem_walk hpath).resolve_right ?_
    rintro ⟨-, above', habove', hwalk⟩
    obtain rfl := Option.some.inj ((ns.mem_listing.mp hentry).2.2.symm.trans habove')
    exact absurd (ns.rank_le_of_mem_walk hrank hwalk) (Nat.not_le_of_lt (hlt hentry'))
  rcases ns.parent_of_mem_walk hmem with rfl | ⟨hroot, next, hnext, hwalk⟩
  · exact hmeet htop htop' hmem'
  · rcases ns.parent_of_mem_walk hmem' with rfl | ⟨-, next', hnext', hwalk'⟩
    · exact (hmeet htop' htop hmem).symm
    · obtain rfl := Option.some.inj (hnext.symm.trans hnext')
      have hlt := hrank hnext hroot
      exact ns.eq_of_mem_walk htop htop' next hwalk hwalk'
termination_by rank path

/-- No path is walked through twice. -/
theorem nodup_walk (ns : Namespace root parent dir) (depth : Nat) (top : Path) :
    (ns.walk depth top).Nodup := by
  induction depth generalizing top with
  | zero => exact List.nodup_nil
  | succ depth ih =>
      rw [walk, List.nodup_cons, List.nodup_flatMap]
      refine ⟨?_, fun entry _ => ih entry, ?_⟩
      · intro hmem
        obtain ⟨entry, hentry, hmem⟩ := List.mem_flatMap.mp hmem
        obtain ⟨hroot, -, hparent⟩ := ns.mem_listing.mp hentry
        exact absurd (ns.rank_le_of_mem_walk hrank hmem) (Nat.not_le_of_lt (hrank hparent hroot))
      · refine (ns.listing_nodup top).pairwise_of_forall_ne ?_
        intro entry hentry entry' hentry' hne path hmem hmem'
        exact hne (ns.eq_of_mem_walk hrank hentry hentry' path hmem hmem')

end Ranked

end Namespace

end Foundation
