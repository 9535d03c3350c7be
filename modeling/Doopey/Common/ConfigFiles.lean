import Doopey.Common.ConfigLoader

/-!
# Config files as they are written

A file is made of sections with lines `key=value` and lines that are none of these.
With a logger, what is loaded is what the file says: of several sections with a name
and of several lines with a key the first one counts, and a line without `'='`
changes nothing.
-/

namespace Doopey

open Foundation ConfigLoader

/-- A line of a section in a config file. -/
inductive ConfigLine
  /-- A key and a value, with blanks in front of `'='` and behind it. -/
  | property (key value : Bytes) (before behind : Nat)
  | malformed (text : Bytes)

namespace ConfigLine

def text : ConfigLine → Bytes
  | property key value before behind =>
      key ++ List.replicate before space ++ [equals] ++ List.replicate behind space ++ value
  | malformed text => text

/-- A word of a property: not empty, without blanks and `'='`, and inside a line. -/
structure IsWord (word : Bytes) : Prop where
  nonempty : word ≠ []
  plain : space ∉ word ∧ equals ∉ word
  inside : newline ∉ word ∧ 0 ∉ word

def WellFormed : ConfigLine → Prop
  | property key value _ _ => IsWord key ∧ IsWord value
  | malformed text => text ≠ [] ∧ equals ∉ text ∧ newline ∉ text ∧ 0 ∉ text

/-- The key and the value, if the line has them. -/
def entry : ConfigLine → Option (Bytes × Bytes)
  | property key value _ _ => some (key, value)
  | malformed _ => none

end ConfigLine

/-- A section of a config file, with the empty lines behind it. -/
structure ConfigSection where
  name : Bytes
  lines : List ConfigLine
  blanks : Nat

namespace ConfigSection

structure WellFormed (sec : ConfigSection) : Prop where
  nonempty : sec.name ≠ []
  plain : openBracket ∉ sec.name ∧ closeBracket ∉ sec.name
  inside : newline ∉ sec.name ∧ 0 ∉ sec.name
  lines : ∀ line ∈ sec.lines, line.WellFormed

/-- The lines of the file. -/
def fileLines (sec : ConfigSection) : List Bytes :=
  (openBracket :: (sec.name ++ [closeBracket])) ::
    (sec.lines.map ConfigLine.text ++ List.replicate sec.blanks [])

/-- The keys and values in the order of the lines. -/
def entries (sec : ConfigSection) : List (Bytes × Bytes) := sec.lines.filterMap ConfigLine.entry

end ConfigSection

/-- Sections that are ended by empty lines, but for the last one. -/
structure WellFormedSections (sections : List ConfigSection) : Prop where
  wellFormed : ∀ sec ∈ sections, sec.WellFormed
  ended : ∀ sec ∈ sections.dropLast, 1 ≤ sec.blanks

/-- The content of a file with these sections: every line is ended by a newline, but the last one
need not be. -/
def IsFile (sections : List ConfigSection) (content : Bytes) : Prop :=
  let lines := sections.flatMap ConfigSection.fileLines
  content = lines.flatMap (· ++ [newline]) ∨
    ∃ front last, lines = front ++ [last] ∧ last ≠ [] ∧
      content = front.flatMap (· ++ [newline]) ++ last

namespace ConfigLine

theorem IsWord.isToken {word : Bytes} (h : IsWord word) : IsToken isDelimiter word := by
  refine ⟨h.nonempty, fun b hb => ?_⟩
  have hspace : b ≠ space := fun heq => h.plain.1 (heq ▸ hb)
  have hequals : b ≠ equals := fun heq => h.plain.2 (heq ▸ hb)
  simp [isDelimiter, hspace, hequals]

theorem WellFormed.propertyLine {key value : Bytes} {before behind : Nat}
    (h : (property key value before behind).WellFormed) :
    PropertyLine key value (property key value before behind).text := by
  refine ⟨h.1.isToken, h.2.isToken, by simp [text], [],
    List.replicate before space ++ [equals] ++ List.replicate behind space, [], by simp [text],
    by simp, ?_, stops_nil⟩
  intro b hb
  simp only [List.nil_append, List.mem_append, List.mem_replicate, List.mem_singleton] at hb
  rcases hb with (⟨-, rfl⟩ | rfl) | ⟨-, rfl⟩ <;> rfl

/-- A line is inside the file, and is not an empty one. -/
theorem WellFormed.inside {line : ConfigLine} (h : line.WellFormed) :
    line.text ≠ [] ∧ newline ∉ line.text ∧ 0 ∉ line.text := by
  cases line with
  | property key value before behind =>
      obtain ⟨hkey, hvalue⟩ := h
      simp [text, List.mem_replicate, hkey.inside, hvalue.inside, space, equals, newline]
  | malformed text => exact ⟨h.1, h.2.2⟩

/-- A line of a section with a logger: its entry is inserted, if it has one. -/
theorem WellFormed.readProperty {line : ConfigLine} (h : line.WellFormed) (config : Config) :
    readProperty true config line.text = .ok { config with
      values := line.entry.elim config.values fun entry =>
        insertNew config.values entry.1 entry.2 } := by
  cases line with
  | property key value before behind =>
      rw [readProperty_of_property h.inside.2.2 h.propertyLine]
      split
      next hfound => simp [logging, entry, insertNew, hfound]
      next => rfl
  | malformed text => exact if_pos h.2.1

end ConfigLine

/-- Entries are inserted, one after the other. -/
def insertAll (values entries : List (Bytes × Bytes)) : List (Bytes × Bytes) :=
  entries.foldl (fun values entry => insertNew values entry.1 entry.2) values

theorem foldlM_readProperty {lines : List ConfigLine} (hlines : ∀ line ∈ lines, line.WellFormed)
    (config : Config) : (lines.map ConfigLine.text).foldlM (readProperty true) config =
      .ok { config with
        values := insertAll config.values (lines.filterMap ConfigLine.entry) } := by
  induction lines generalizing config with
  | nil => rfl
  | cons line lines ih =>
      obtain ⟨hline, hrest⟩ := List.forall_mem_cons.mp hlines
      rw [List.map_cons, List.foldlM_cons, hline.readProperty, ok_bind, ih hrest]
      cases hentry : line.entry with
      | none => rw [List.filterMap_cons_none hentry, Option.elim_none]
      | some entry => rw [List.filterMap_cons_some hentry, Option.elim_some, insertAll, insertAll,
          List.foldl_cons]

namespace ConfigSection

/-- What is loaded for a section. -/
def config (sec : ConfigSection) : Config :=
  ⟨sec.name, insertAll [] sec.entries⟩

variable {sec : ConfigSection}

theorem WellFormed.nextToken (h : sec.WellFormed) :
    (nextToken isBracket (cString (openBracket :: (sec.name ++ [closeBracket])))).1 =
      some sec.name := by
  have hline : 0 ∉ openBracket :: (sec.name ++ [closeBracket]) := by
    simp [h.inside.2, openBracket, closeBracket]
  have htoken : IsToken isBracket sec.name := by
    refine ⟨h.nonempty, fun b hb => ?_⟩
    have hopen : b ≠ openBracket := fun heq => h.plain.1 (heq ▸ hb)
    have hclose : b ≠ closeBracket := fun heq => h.plain.2 (heq ▸ hb)
    simp [isBracket, hopen, hclose]
  have hstops : Stops isBracket [closeBracket] := stops_cons.mpr rfl
  rw [cString_eq hline]
  exact congrArg Prod.fst (@nextToken_append _ _ [openBracket] _ _ (by simp [isBracket]) htoken hstops)

theorem isSectionLine_fileLines (name : Bytes) :
    isSectionLine (openBracket :: (name ++ [closeBracket])) = true := by
  rw [isSectionLine, ← List.cons_append, List.getLast?_concat]
  rfl

/-- The inner loop stops behind the lines of the section. -/
theorem WellFormed.cut (h : sec.WellFormed) {rest : List Bytes}
    (hended : rest = [] ∨ 1 ≤ sec.blanks) :
    let lines := sec.lines.map ConfigLine.text ++ List.replicate sec.blanks [] ++ rest
    (lines.takeWhile fun line => !line.isEmpty) = sec.lines.map ConfigLine.text ∧
      (lines.dropWhile fun line => !line.isEmpty).tail =
        List.replicate (sec.blanks - 1) [] ++ rest := by
  have htexts : ∀ line ∈ sec.lines.map ConfigLine.text, (!line.isEmpty) = true := by
    intro text htext
    obtain ⟨line, hline, rfl⟩ := List.mem_map.mp htext
    simpa using (h.lines line hline).inside.1
  dsimp only
  rw [List.append_assoc, List.takeWhile_append_of_pos htexts, List.dropWhile_append_of_pos htexts]
  cases hblanks : sec.blanks with
  | zero =>
      obtain rfl := hended.resolve_right (by omega)
      simp
  | succ blanks => simp [List.replicate_succ]

end ConfigSection

theorem readSections_replicate (logger : Bool) (count fuel : Nat) (ignoreProperties : Bool)
    (collection : SectionCollection) (lines : List Bytes) :
    readSections logger (count + fuel) ignoreProperties collection
        (List.replicate count [] ++ lines) =
      readSections logger fuel ignoreProperties collection lines := by
  induction count with
  | zero => simp
  | succ count ih =>
      rw [List.replicate_succ, List.cons_append, Nat.add_right_comm, readSections_blank, ih]

/-- The sections are inserted, one after the other. -/
theorem readSections_sections {sections : List ConfigSection} (h : WellFormedSections sections)
    {fuel : Nat} (hfuel : (sections.flatMap ConfigSection.fileLines).length < fuel)
    (collection : SectionCollection) :
    readSections true fuel false collection (sections.flatMap ConfigSection.fileLines) =
      .ok ⟨sections.foldl (fun table sec => insertNew table sec.name sec.config)
        collection.configTable⟩ := by
  induction sections generalizing fuel collection with
  | nil =>
      obtain ⟨fuel, rfl⟩ : ∃ rest, fuel = rest + 1 := ⟨fuel - 1, by omega⟩
      rfl
  | cons sec sections ih =>
      obtain ⟨hsec, hrest⟩ := List.forall_mem_cons.mp h.wellFormed
      have hended : sections.flatMap ConfigSection.fileLines = [] ∨ 1 ≤ sec.blanks := by
        cases sections with
        | nil => exact Or.inl rfl
        | cons next sections => exact Or.inr (h.ended sec List.mem_cons_self)
      have hsections : WellFormedSections sections := by
        refine ⟨hrest, fun other hother => ?_⟩
        cases sections with
        | nil => exact absurd hother List.not_mem_nil
        | cons next sections => exact h.ended other (List.mem_cons_of_mem _ hother)
      obtain ⟨htake, hdrop⟩ := hsec.cut hended
      rw [List.flatMap_cons, ConfigSection.fileLines, List.length_append, List.length_cons,
        List.length_append, List.length_replicate] at hfuel
      obtain ⟨rest, hrest⟩ : ∃ rest, fuel = sec.blanks - 1 + rest + 1 :=
        ⟨fuel - (sec.blanks - 1) - 1, by omega⟩
      rw [List.flatMap_cons, ConfigSection.fileLines, List.cons_append, hrest,
        readSections_section (ConfigSection.isSectionLine_fileLines sec.name) hsec.nextToken, htake,
        foldlM_readProperty hsec.lines, ok_bind, hdrop, readSections_replicate, ih hsections (by omega)]
      rfl

/-- The lines of a file, whether the last one is ended or not. -/
theorem IsFile.pieces {sections : List ConfigSection} {content : Bytes}
    (hfile : IsFile sections content) (h : ∀ sec ∈ sections, sec.WellFormed) :
    pieces newline content = sections.flatMap ConfigSection.fileLines := by
  have hlines : ∀ line ∈ sections.flatMap ConfigSection.fileLines, newline ∉ line := by
    intro line hline
    obtain ⟨sec, hsec, hline⟩ := List.mem_flatMap.mp hline
    rcases List.mem_cons.mp hline with rfl | hline
    · simp [(h sec hsec).inside.1, openBracket, closeBracket, newline]
    · rcases List.mem_append.mp hline with htext | hblank
      · obtain ⟨configLine, hconfigLine, rfl⟩ := List.mem_map.mp htext
        exact ((h sec hsec).lines configLine hconfigLine).inside.2.1
      · rw [(List.mem_replicate.mp hblank).2]
        exact List.not_mem_nil
  rcases hfile with rfl | ⟨front, last, hsplit, hlast, rfl⟩
  · have hpieces := pieces_flatMap hlines []
    rwa [List.append_nil, Foundation.pieces, List.append_nil] at hpieces
  · rw [hsplit] at hlines ⊢
    rw [pieces_flatMap fun line hline => hlines line (List.mem_append_left _ hline),
      pieces_last hlast (hlines last (List.mem_append_right _ (List.mem_singleton_self _)))]

/-- The collection that the sections stand for. -/
def collectionOf (sections : List ConfigSection) : SectionCollection :=
  ⟨sections.foldl (fun table sec => insertNew table sec.name sec.config) []⟩

theorem loadConfig_eq {sections : List ConfigSection} {content : Bytes}
    (hfile : IsFile sections content) (h : WellFormedSections sections) :
    loadConfig true content = .ok (collectionOf sections) := by
  rw [loadConfig, hfile.pieces h.wellFormed]
  exact readSections_sections h (Nat.lt_succ_self _) ⟨[]⟩

/-- The first entry with a key is the one that is found. -/
theorem ConfigSection.getValue_config (sec : ConfigSection) (key : Bytes) :
    sec.config.getValue true key = .ok ((sec.entries.lookup key).getD []) := by
  have hlookup : sec.config.values.lookup key = sec.entries.lookup key := by
    have hall := lookup_foldl_insertNew (Prod.fst : Bytes × Bytes → Bytes) Prod.snd sec.entries [] key
    simpa [config, insertAll] using hall
  rw [Config.getValue, hlookup]
  cases sec.entries.lookup key with
  | none => rfl
  | some value => rfl

/-- The first section with a name is the one that is found. -/
theorem getConfig_collectionOf (sections : List ConfigSection) (name : Bytes) :
    (collectionOf sections).getConfig true name =
      .ok ((sections.find? fun sec => sec.name == name).map ConfigSection.config) := by
  have hlookup : (collectionOf sections).configTable.lookup name =
      (sections.find? fun sec => sec.name == name).map ConfigSection.config := by
    rw [collectionOf, lookup_foldl_insertNew, List.lookup_nil, Option.none_or]
    induction sections with
    | nil => rfl
    | cons sec sections ih =>
        rw [List.map_cons, List.lookup_cons, List.find?_cons, ih]
        by_cases heq : name = sec.name
        · subst heq
          rw [beq_self_eq_true]
          rfl
        · rw [beq_false_of_ne heq, beq_false_of_ne (Ne.symm heq)]
  rw [SectionCollection.getConfig, hlookup]
  cases sections.find? fun sec => sec.name == name with
  | none => rfl
  | some sec => rfl

/-- Config files are read as they are written: the first section with a name and the first
entry with a key count, and a value that is not there is empty. Files that differ in nothing but
blanks, empty lines and malformed lines are read alike. -/
theorem loadConfig_reads {sections : List ConfigSection} {content : Bytes}
    (hfile : IsFile sections content) (h : WellFormedSections sections) :
    (∃ collection, loadConfig true content = .ok collection ∧ ∀ name,
      match sections.find? fun sec => sec.name == name with
      | none => collection.getConfig true name = .ok none
      | some sec => ∃ config, collection.getConfig true name = .ok (some config) ∧
          ∀ key, config.getValue true key = .ok ((sec.entries.lookup key).getD [])) ∧
    ∀ sections' content', IsFile sections' content' → WellFormedSections sections' →
      (sections'.map fun sec => (sec.name, sec.entries)) =
        (sections.map fun sec => (sec.name, sec.entries)) →
      loadConfig true content' = loadConfig true content := by
  constructor
  · refine ⟨collectionOf sections, loadConfig_eq hfile h, fun name => ?_⟩
    have hget := getConfig_collectionOf sections name
    split
    next hfind => rw [hget, hfind, Option.map_none]
    next sec hfind =>
      rw [hget, hfind, Option.map_some]
      exact ⟨sec.config, rfl, sec.getValue_config⟩
  · intro sections' content' hfile' h' heq
    -- what is loaded depends on the names and the entries only
    have hcollection (sections : List ConfigSection) : collectionOf sections =
        ⟨(sections.map fun sec => (sec.name, sec.entries)).foldl
          (fun table sec => insertNew table sec.1 ⟨sec.1, insertAll [] sec.2⟩) []⟩ := by
      rw [collectionOf, List.foldl_map]
      rfl
    rw [loadConfig_eq hfile h, loadConfig_eq hfile' h', hcollection, hcollection sections, heq]

/-- A section with a line without `'='`, blanks around `'='`, a key that comes twice, and another
section with the same name behind it; the last line is not ended. -/
theorem loadConfig_reads_example : ∃ collection,
    loadConfig true (ascii "[a]\nk = v\nx\nk=w\n\n[a]\nk=u") = .ok collection ∧
      ∃ config, collection.getConfig true (ascii "a") = .ok (some config) ∧
        config.getValue true (ascii "k") = .ok (ascii "v") := by
  have hword (letter : UInt8) (hletter : letter ∉ [space, equals, newline, 0]) :
      ConfigLine.IsWord [letter] := by
    simp only [List.mem_cons, List.not_mem_nil, or_false, not_or] at hletter
    obtain ⟨hspace, hequals, hnewline, hzero⟩ := hletter
    exact ⟨List.cons_ne_nil _ _, by simpa [eq_comm] using ⟨hspace, hequals⟩,
      by simpa [eq_comm] using ⟨hnewline, hzero⟩⟩
  have hfile : IsFile [⟨ascii "a", [.property (ascii "k") (ascii "v") 1 1, .malformed (ascii "x"),
      .property (ascii "k") (ascii "w") 0 0], 1⟩,
      ⟨ascii "a", [.property (ascii "k") (ascii "u") 0 0], 0⟩]
      (ascii "[a]\nk = v\nx\nk=w\n\n[a]\nk=u") :=
    Or.inr ⟨[ascii "[a]", ascii "k = v", ascii "x", ascii "k=w", [], ascii "[a]"], ascii "k=u",
      by decide, by decide, by decide⟩
  obtain ⟨collection, hload, hconfig⟩ := (loadConfig_reads hfile ⟨by
    intro sec hsec
    simp only [List.mem_cons, List.not_mem_nil, or_false] at hsec
    rcases hsec with rfl | rfl
    · refine ⟨by decide, by decide, by decide, ?_⟩
      intro line hline
      simp only [List.mem_cons, List.not_mem_nil, or_false] at hline
      rcases hline with rfl | rfl | rfl
      · exact ⟨hword 107 (by decide), hword 118 (by decide)⟩
      · exact ⟨by decide, by decide, by decide, by decide⟩
      · exact ⟨hword 107 (by decide), hword 119 (by decide)⟩
    · refine ⟨by decide, by decide, by decide, ?_⟩
      intro line hline
      obtain rfl := List.mem_singleton.mp hline
      exact ⟨hword 107 (by decide), hword 117 (by decide)⟩, by decide⟩).1
  obtain ⟨config, hget, hvalue⟩ := hconfig (ascii "a")
  exact ⟨collection, hload, config, hget, hvalue (ascii "k")⟩

end Doopey
