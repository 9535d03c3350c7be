import Mathlib.Data.List.Forall2
import Doopey.Common.ConfigLoader

/-!
# Config files that are loaded without a logger

`DoopeyInit` loads the config before it creates the logger. It comes back from that
exactly if there is nothing to warn of, and if `strtok` finds a name in every pair
of brackets and a key and a value in every line of a section.
-/

namespace Doopey

open Foundation

namespace ConfigLoader

/-- The lines of a section: each has a key and a value, and no key comes twice. -/
def CleanProperties (lines : List Bytes) : Prop :=
  ∃ keys : List Bytes, keys.Nodup ∧
    List.Forall₂ (fun key line => ∃ value, PropertyLine key value line) keys lines

/-- A file with nothing in it but empty lines and sections, where every section begins with a
line in brackets that has more than brackets in it, and goes on with clean lines up to
the next empty one. -/
inductive Clean : List Bytes → Prop
  | nil : Clean []
  | blank {lines : List Bytes} (h : Clean lines) : Clean ([] :: lines)
  | config {line : Bytes} {lines : List Bytes} (hbrackets : isSectionLine line = true)
      (hname : ∃ b ∈ line, isBracket b = false)
      (hproperties : CleanProperties (lines.takeWhile fun line => !line.isEmpty))
      (hrest : Clean (lines.dropWhile fun line => !line.isEmpty).tail) : Clean (line :: lines)

theorem assign_ok_iff {token : Option Bytes} {value : Bytes} :
    assign token = .ok value ↔ token = some value := by
  cases token with
  | none => simp [assign]
  | some first => simp [assign]

/-- Two tokens of a line with `=` in it are a key and a value. -/
theorem propertyLine_of_tokens {line key value left left' : Bytes} (hequals : equals ∈ line)
    (hkey : nextToken isDelimiter line = (some key, left))
    (hvalue : nextToken isDelimiter left = (some value, left')) : PropertyLine key value line := by
  obtain ⟨gap, rest, htext, hgap, hkeyToken, hstops, rfl⟩ := nextToken_eq_some_iff.mp hkey
  obtain ⟨gap', rest', htext', hgap', hvalueToken, hstops', -⟩ := nextToken_eq_some_iff.mp hvalue
  -- the separator behind the key is there, as a value follows
  obtain ⟨d, rest, rfl⟩ : ∃ d tail, rest = d :: tail := by
    cases rest with
    | nil => simp [hvalueToken.nonempty] at htext'
    | cons d tail => exact ⟨d, tail, rfl⟩
  rw [List.tail_cons] at htext'
  have hd : isDelimiter d = true := stops_cons.mp hstops
  refine ⟨hkeyToken, hvalueToken, hequals, gap, d :: gap', rest', ?_, List.cons_ne_nil _ _, ?_,
    hstops'⟩
  · rw [htext, htext', List.cons_append]
  · intro b hb
    rcases List.mem_append.mp hb with hb | hb
    · exact hgap b hb
    · rcases List.mem_cons.mp hb with rfl | hb
      · exact hd
      · exact hgap' b hb

/-- A line of a section is read without a logger exactly if it has a key, a new one, and a
value. -/
theorem readProperty_ok_iff {line : Bytes} (hline : 0 ∉ line) {config config' : Config} :
    readProperty false config line = .ok config' ↔ ∃ key value, PropertyLine key value line ∧
      config.values.lookup key = none ∧
      config' = { config with values := config.values ++ [(key, value)] } := by
  constructor
  · intro hread
    rw [readProperty, cString_eq hline] at hread
    split at hread
    next => exact absurd hread (by simp [logging])
    next hequals =>
      obtain ⟨key, hkey, hread⟩ := bind_eq_ok_iff.mp hread
      obtain ⟨value, hvalue, hread⟩ := bind_eq_ok_iff.mp hread
      refine ⟨key, value, propertyLine_of_tokens (not_not.mp hequals)
        (Prod.ext (assign_ok_iff.mp hkey) rfl) (Prod.ext (assign_ok_iff.mp hvalue) rfl), ?_⟩
      split at hread
      next => exact absurd hread (by simp [logging])
      next hnew =>
        rw [Option.not_isSome_iff_eq_none] at hnew
        rw [insertNew, hnew] at hread
        exact ⟨hnew, (Except.ok.inj hread).symm⟩
  · rintro ⟨key, value, hproperty, hnew, rfl⟩
    rw [readProperty_of_property hline hproperty, insertNew, hnew]
    rfl

/-- The lines of a section are read without a logger exactly if they are clean and their keys
are new. -/
theorem foldlM_ok_iff {lines : List Bytes} (hlines : ∀ line ∈ lines, 0 ∉ line) (config : Config) :
    (∃ config', lines.foldlM (readProperty false) config = .ok config') ↔
      ∃ keys : List Bytes, keys.Nodup ∧ (∀ key ∈ keys, config.values.lookup key = none) ∧
        List.Forall₂ (fun key line => ∃ value, PropertyLine key value line) keys lines := by
  induction lines generalizing config with
  | nil => exact iff_of_true ⟨config, rfl⟩ ⟨[], .nil, by simp, .nil⟩
  | cons line lines ih =>
      obtain ⟨hline, hrest⟩ := List.forall_mem_cons.mp hlines
      have hlookup (key value other : Bytes) :
          (config.values ++ [(key, value)]).lookup other = none ↔
            config.values.lookup other = none ∧ other ≠ key := by
        rw [List.lookup_append, Option.or_eq_none_iff, List.lookup_cons]
        by_cases heq : other = key
        · simp [heq]
        · simp [beq_false_of_ne heq, heq]
      constructor
      · rintro ⟨config', hrun⟩
        rw [List.foldlM_cons] at hrun
        obtain ⟨middle, hread, hrun⟩ := bind_eq_ok_iff.mp hrun
        obtain ⟨key, value, hproperty, hnew, rfl⟩ := (readProperty_ok_iff hline).mp hread
        obtain ⟨keys, hnodup, hkeys, hforall⟩ := (ih hrest _).mp ⟨config', hrun⟩
        refine ⟨key :: keys, List.nodup_cons.mpr ⟨fun hmem => ?_, hnodup⟩,
          List.forall_mem_cons.mpr ⟨hnew, fun other hother => ?_⟩, .cons ⟨value, hproperty⟩ hforall⟩
        · exact ((hlookup key value key).mp (hkeys key hmem)).2 rfl
        · exact ((hlookup key value other).mp (hkeys other hother)).1
      · rintro ⟨keys, hnodup, hkeys, hforall⟩
        cases hforall with
        | @cons key _ keys _ hproperty hforall =>
            obtain ⟨value, hproperty⟩ := hproperty
            obtain ⟨hnot, hnodup⟩ := List.nodup_cons.mp hnodup
            obtain ⟨hnew, hkeys⟩ := List.forall_mem_cons.mp hkeys
            have hread := (readProperty_ok_iff hline).mpr ⟨key, value, hproperty, hnew, rfl⟩
            rw [List.foldlM_cons, hread, ok_bind]
            refine (ih hrest _).mpr ⟨keys, hnodup, fun other hother => ?_, hforall⟩
            refine (hlookup key value other).mpr ⟨hkeys other hother, ?_⟩
            rintro rfl
            exact hnot hother

theorem clean_blank_iff {lines : List Bytes} : Clean ([] :: lines) ↔ Clean lines := by
  constructor
  · intro hclean
    cases hclean with
    | blank h => exact h
    | config hbrackets => exact absurd hbrackets (by decide)
  · exact .blank

theorem clean_section_iff {line : Bytes} {lines : List Bytes} (hline : isSectionLine line = true) :
    Clean (line :: lines) ↔ (∃ b ∈ line, isBracket b = false) ∧
      CleanProperties (lines.takeWhile fun line => !line.isEmpty) ∧
      Clean (lines.dropWhile fun line => !line.isEmpty).tail := by
  constructor
  · intro hclean
    cases hclean with
    | blank h => exact absurd hline (by decide)
    | config _ hname hproperties hrest => exact ⟨hname, hproperties, hrest⟩
  · rintro ⟨hname, hproperties, hrest⟩
    exact .config hline hname hproperties hrest

/-- A section is read without a logger exactly if it has a name, its lines are clean, and what
is behind it is read. -/
theorem readSections_section_ok_iff {line : Bytes} {lines : List Bytes}
    (hlines : ∀ text ∈ line :: lines, 0 ∉ text) (hsection : isSectionLine line = true) {fuel : Nat}
    {behind : Prop} (hbehind : ∀ collection : SectionCollection, (∃ loaded,
      readSections false fuel false collection
        (lines.dropWhile fun line => !line.isEmpty).tail = .ok loaded) ↔ behind)
    (collection : SectionCollection) :
    (∃ loaded, readSections false (fuel + 1) false collection (line :: lines) = .ok loaded) ↔
      (∃ b ∈ line, isBracket b = false) ∧
      CleanProperties (lines.takeWhile fun line => !line.isEmpty) ∧ behind := by
  obtain ⟨hline, hrest⟩ := List.forall_mem_cons.mp hlines
  have hnamed : (∃ name, (nextToken isBracket (cString line)).1 = some name) ↔
      ∃ b ∈ line, isBracket b = false := by
    rw [cString_eq hline]
    exact exists_nextToken_iff
  have hproperties := @foldlM_ok_iff (lines.takeWhile fun line => !line.isEmpty)
    fun line hmem => hrest line ((List.takeWhile_prefix _).subset hmem)
  constructor
  · rintro ⟨loaded, hload⟩
    cases hname : (nextToken isBracket (cString line)).1 with
    | none =>
        rw [readSections, if_pos hsection] at hload
        dsimp only at hload
        rw [hname] at hload
        exact absurd hload (by simp [assign])
    | some name =>
        rw [readSections_section hsection hname] at hload
        obtain ⟨config, hread, hload⟩ := bind_eq_ok_iff.mp hload
        obtain ⟨keys, hnodup, -, hforall⟩ := (hproperties _).mp ⟨config, hread⟩
        exact ⟨hnamed.mp ⟨name, hname⟩, ⟨keys, hnodup, hforall⟩, (hbehind _).mp ⟨loaded, hload⟩⟩
  · rintro ⟨hname, ⟨keys, hnodup, hforall⟩, hrest⟩
    obtain ⟨name, hname⟩ := hnamed.mpr hname
    obtain ⟨config, hread⟩ := (hproperties ⟨name, []⟩).mpr ⟨keys, hnodup, fun _ _ => rfl, hforall⟩
    rw [readSections_section hsection hname, hread, ok_bind]
    exact (hbehind _).mpr hrest

/-- Without a logger the outer loop comes to the end of the file exactly if the file is clean. -/
theorem readSections_ok_iff {lines : List Bytes} (hlines : ∀ line ∈ lines, 0 ∉ line) {fuel : Nat}
    (hfuel : lines.length < fuel) (collection : SectionCollection) :
    (∃ loaded, readSections false fuel false collection lines = .ok loaded) ↔ Clean lines := by
  induction fuel generalizing lines collection with
  | zero => omega
  | succ fuel ih =>
      cases lines with
      | nil => exact iff_of_true ⟨collection, rfl⟩ .nil
      | cons line lines =>
          have hrest := (List.forall_mem_cons.mp hlines).2
          rw [List.length_cons] at hfuel
          by_cases hblank : line = []
          · subst hblank
            rw [readSections_blank, ih hrest (by omega), clean_blank_iff]
          by_cases hsection : isSectionLine line = true
          · have hbehind : ∀ line ∈ (lines.dropWhile fun line => !line.isEmpty).tail, 0 ∉ line :=
              fun line hmem => hrest line
                ((List.dropWhile_suffix _).subset (List.mem_of_mem_tail hmem))
            have hshorter : (lines.dropWhile fun line => !line.isEmpty).tail.length < fuel := by
              have hdrop : (lines.dropWhile fun line => !line.isEmpty).length ≤ lines.length :=
                (List.dropWhile_suffix _).length_le
              rw [List.length_tail]
              omega
            rw [readSections_section_ok_iff hlines hsection (ih hbehind hshorter),
              clean_section_iff hsection]
          · refine iff_of_false ?_ ?_
            · rw [readSections, if_neg hsection,
                if_pos ⟨rfl, List.length_pos_of_ne_nil hblank⟩]
              simp [logging]
            · intro hclean
              cases hclean with
              | blank h => exact hblank rfl
              | config h => exact hsection h

/-- `DoopeyInit` gets its config exactly if the file is clean. -/
theorem doopeyInit_ok_iff {content : Bytes} (hcontent : 0 ∉ content) :
    (∃ collection, doopeyInit content = .ok collection) ↔ Clean (pieces newline content) := by
  apply readSections_ok_iff
  · intro line hline hmem
    exact hcontent (mem_of_mem_pieces hline hmem).1
  · exact Nat.lt_succ_self _

/-- A section with one key is loaded. -/
theorem doopeyInit_ok_iff_example :
    (∃ collection, doopeyInit (ascii "[a]\nk=v\n") = .ok collection) ∧
      Clean [ascii "[a]", ascii "k=v"] :=
  ⟨⟨_, rfl⟩, (@doopeyInit_ok_iff (ascii "[a]\nk=v\n") (by decide)).mp ⟨_, rfl⟩⟩

/-- Empty brackets, a key without a value, and a line to warn of. -/
theorem doopeyInit_faults :
    doopeyInit (ascii "[]\n") = .error .badPointer ∧
    doopeyInit (ascii "[a]\nk=\n") = .error .badPointer ∧
    doopeyInit (ascii "k=v\n") = .error .badPointer := ⟨rfl, rfl, rfl⟩

end ConfigLoader

end Doopey
