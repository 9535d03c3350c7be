import Doopey.Foundation.Except
import Doopey.Foundation.Tokens
import Doopey.Common.Base

/-!
# Config files

A config file has sections, each a line with the name in brackets and lines
`key=value` up to an empty line. The loader cuts the lines with `strtok`, which
returns a null pointer where there is no token, and warns of lines that it does
not understand.

The logger of the process is an input: `DoopeyInit` creates it after it has loaded
the config, and a warning through the null pointer that it is before is a fault.
-/

namespace Doopey

open Foundation

/-- `std::map::insert`, which leaves an entry that exists as it is. -/
def insertNew {α β : Type} [BEq α] (map : List (α × β)) (key : α) (value : β) :
    List (α × β) :=
  if (map.lookup key).isSome then map else map ++ [(key, value)]

/-- A call of the logger, and what is done behind it. -/
def logging {α : Type} (logger : Bool) (result : α) : Except Fault α :=
  if logger then .ok result else .error .badPointer

/-- `class Config` -/
structure Config where
  name : Bytes
  values : List (Bytes × Bytes)

/-- `Config::getValue` -/
def Config.getValue (logger : Bool) (config : Config) (key : Bytes) : Except Fault Bytes :=
  match config.values.lookup key with
  | some value => .ok value
  | none => logging logger []

/-- `class SectionCollection` -/
structure SectionCollection where
  configTable : List (Bytes × Config)

/-- `SectionCollection::getConfig` -/
def SectionCollection.getConfig (logger : Bool) (collection : SectionCollection)
    (name : Bytes) : Except Fault (Option Config) :=
  match collection.configTable.lookup name with
  | some config => .ok (some config)
  | none => logging logger none

namespace ConfigLoader

/-- `'['`, `']'`, `' '` and `'='` -/
abbrev openBracket : UInt8 := 91
abbrev closeBracket : UInt8 := 93
abbrev space : UInt8 := 32
abbrev equals : UInt8 := 61

/-- The separators `"[]"` -/
def isBracket (b : UInt8) : Bool := b == openBracket || b == closeBracket

/-- The separators `" ="` -/
def isDelimiter (b : UInt8) : Bool := b == space || b == equals

/-- What `strcpy` copies of a string. -/
def cString (text : Bytes) : Bytes := text.takeWhile (· != 0)

/-- A string that is assigned what `strtok` returned. -/
def assign : Option Bytes → Except Fault Bytes
  | some token => .ok token
  | none => .error .badPointer

/-- `line[0]=='[' && line[line.size()-1]==']'` -/
def isSectionLine (line : Bytes) : Bool :=
  line.head? == some openBracket && line.getLast? == some closeBracket

/-- The body of the inner loop: a line of a section. -/
def readProperty (logger : Bool) (config : Config) (line : Bytes) : Except Fault Config :=
  if equals ∉ line then logging logger config
  else do
    let (token, rest) := nextToken isDelimiter (cString line)
    let tempKey ← assign token
    let (token, _) := nextToken isDelimiter rest
    let tempValue ← assign token
    if (config.values.lookup tempKey).isSome then logging logger config
    else .ok { config with values := insertNew config.values tempKey tempValue }

/-- The inner loop, up to an empty line or the end of the file. -/
def readSection (logger : Bool) : Config → List Bytes → Except Fault (Config × List Bytes)
  | config, [] => .ok (config, [])
  | config, line :: lines =>
      if line = [] then .ok (config, lines)
      else do
        let config ← readProperty logger config line
        readSection logger config lines

/-- The outer loop. -/
def readSections (logger : Bool) :
    Nat → Bool → SectionCollection → List Bytes → Except Fault SectionCollection
  | 0, _, _, _ => .error .divergence
  | _ + 1, _, collection, [] => .ok collection
  | fuel + 1, ignoreProperties, collection, line :: lines =>
      if isSectionLine line then do
        let (token, _) := nextToken isBracket (cString line)
        let configName ← assign token
        let (config, lines) ← readSection logger ⟨configName, []⟩ lines
        readSections logger fuel false ⟨insertNew collection.configTable config.name config⟩ lines
      else if ignoreProperties = false ∧ 0 < line.length then do
        logging logger ()
        readSections logger fuel true collection lines
      else readSections logger fuel ignoreProperties collection lines

/-- `ConfigLoader::loadConfig`, on the content of the file; `getline` yields its lines. -/
def loadConfig (logger : Bool) (content : Bytes) : Except Fault SectionCollection :=
  let lines := pieces newline content
  readSections logger (lines.length + 1) false ⟨[]⟩ lines

/-- The config that `DoopeyInit` loads, before there is a logger. -/
def doopeyInit (content : Bytes) : Except Fault SectionCollection := loadConfig false content

end ConfigLoader

theorem lookup_insertNew {α β : Type} [BEq α] [LawfulBEq α] (map : List (α × β)) (key : α)
    (value : β) (other : α) : (insertNew map key value).lookup other =
      (map.lookup other).or ([(key, value)].lookup other) := by
  unfold insertNew
  split
  next hfound =>
    by_cases heq : other = key
    · subst heq
      obtain ⟨old, hold⟩ := Option.isSome_iff_exists.mp hfound
      rw [hold, Option.some_or]
    · have hbeq : (other == key) = false := beq_false_of_ne heq
      rw [List.lookup_cons, hbeq]
      simp
  next => rw [List.lookup_append]

/-- Of several entries that are inserted, the first one with a key stays. -/
theorem lookup_foldl_insertNew {α β γ : Type} [BEq α] [LawfulBEq α] (key : γ → α) (value : γ → β)
    (entries : List γ) (map : List (α × β)) (other : α) :
    (entries.foldl (fun map entry => insertNew map (key entry) (value entry)) map).lookup other =
      (map.lookup other).or ((entries.map fun entry => (key entry, value entry)).lookup other) := by
  induction entries generalizing map with
  | nil => simp
  | cons entry entries ih =>
      rw [List.foldl_cons, ih, lookup_insertNew, Option.or_assoc, List.map_cons, List.lookup_cons,
        List.lookup_cons]
      cases other == key entry with
      | true => rfl
      | false => rfl

namespace ConfigLoader

/-- A string without NUL is copied as a whole. -/
theorem cString_eq {text : Bytes} (htext : 0 ∉ text) : cString text = text := by
  rw [cString, List.takeWhile_eq_self_iff]
  intro b hb
  simpa using fun heq : b = 0 => htext (heq ▸ hb)

/-- A line of a section with a key and a value: what `strtok` makes of it. -/
structure PropertyLine (key value line : Bytes) : Prop where
  isToken_key : IsToken isDelimiter key
  isToken_value : IsToken isDelimiter value
  equals_mem : equals ∈ line
  text : ∃ gap middle rest, line = gap ++ (key ++ (middle ++ (value ++ rest))) ∧ middle ≠ [] ∧
    (∀ b ∈ gap ++ middle, isDelimiter b = true) ∧ Stops isDelimiter rest

/-- A line with a key and a value is an entry, if the key is new. -/
theorem readProperty_of_property {key value line : Bytes} (hline : 0 ∉ line)
    (h : PropertyLine key value line) (logger : Bool) (config : Config) :
    readProperty logger config line =
      if (config.values.lookup key).isSome then logging logger config
      else .ok { config with values := insertNew config.values key value } := by
  obtain ⟨gap, middle, rest, htext, hmiddle, hgaps, hrest⟩ := h.text
  obtain ⟨d, middle, rfl⟩ := List.exists_cons_of_ne_nil hmiddle
  have hgap : ∀ b ∈ gap, isDelimiter b = true := fun b hb => hgaps b (List.mem_append_left _ hb)
  have hd : isDelimiter d = true := hgaps d (List.mem_append_right _ List.mem_cons_self)
  have hbetween : ∀ b ∈ middle, isDelimiter b = true :=
    fun b hb => hgaps b (List.mem_append_right _ (List.mem_cons_of_mem _ hb))
  have hfirst : nextToken isDelimiter line = (some key, middle ++ (value ++ rest)) := by
    rw [htext, List.cons_append]
    exact nextToken_append hgap h.isToken_key (stops_cons.mpr hd)
  rw [readProperty, if_neg (not_not_intro h.equals_mem), cString_eq hline, hfirst]
  dsimp only
  rw [nextToken_append hbetween h.isToken_value hrest]
  rfl

/-- Behind the last line of a section the inner loop has read what is in front of the next
empty line. -/
theorem readSection_eq (logger : Bool) (config : Config) (lines : List Bytes) :
    readSection logger config lines =
      (lines.takeWhile fun line => !line.isEmpty).foldlM (readProperty logger) config >>=
        fun config => .ok (config, (lines.dropWhile fun line => !line.isEmpty).tail) := by
  induction lines generalizing config with
  | nil => rfl
  | cons line lines ih =>
      rw [readSection]
      cases line with
      | nil => rfl
      | cons b line =>
          rw [if_neg (List.cons_ne_nil _ _), List.takeWhile_cons_of_pos (by rfl),
            List.dropWhile_cons_of_pos (by rfl), List.foldlM_cons]
          cases readProperty logger config (b :: line) with
          | error fault => rfl
          | ok config => exact ih config

/-- An empty line between sections is passed over. -/
theorem readSections_blank (logger : Bool) (fuel : Nat) (ignoreProperties : Bool)
    (collection : SectionCollection) (lines : List Bytes) :
    readSections logger (fuel + 1) ignoreProperties collection ([] :: lines) =
      readSections logger fuel ignoreProperties collection lines := by
  rw [readSections, if_neg (by decide), if_neg (by simp)]

/-- A line that begins a section, with the name of it. -/
theorem readSections_section {line name : Bytes} (hline : isSectionLine line = true)
    (hname : (nextToken isBracket (cString line)).1 = some name) (logger : Bool) (fuel : Nat)
    (ignoreProperties : Bool) (collection : SectionCollection) (lines : List Bytes) :
    readSections logger (fuel + 1) ignoreProperties collection (line :: lines) =
      (lines.takeWhile fun line => !line.isEmpty).foldlM (readProperty logger) ⟨name, []⟩ >>=
        fun config => readSections logger fuel false
          ⟨insertNew collection.configTable config.name config⟩
          (lines.dropWhile fun line => !line.isEmpty).tail := by
  rw [readSections, if_pos hline]
  dsimp only
  rw [hname, assign, ok_bind, readSection_eq, bind_assoc]
  rfl

end ConfigLoader

end Doopey
