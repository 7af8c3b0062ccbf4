import PagedCache.Proofs.Response
import PagedCache.Proofs.Toml.Documents
import PagedCache.Settings.Text

/-!
# Settings are read back from their text

The text of settings has a section for the limits, one for every policy, and one for
logging.  Reading it builds a document with a table for each section, and the tables are
decoded to the settings.
-/

namespace PagedCache

open Toml Toml.Statement

-- Powers are those of the core library, as in the definitions.
attribute [local instance (high)] instPowNat

namespace Record

/-- The properties of a table are its entries. -/
theorem properties?_table {entries : Entries} (hnames : (entries.map Prod.fst).Nodup)
    (convention : Convention) (names : List String) (origin : Origin) :
    properties? convention names (Value.table origin entries).toJson =
      some fun name => (entries.lookup name).map Value.toJson := by
  rw [Value.toJson, properties?]
  congr 1
  funext name
  exact find?_toJson hnames name

section Lookup

variable {β : Type} {entries : Entries} {name : String} {value : Value}
  {decode : Json.Value → Option β} {result : β} (hentry : entries.lookup name = some value)
  (hdecode : decode value.toJson = some result)

include hentry hdecode

theorem optional_of_lookup {default : β} :
    optional (fun name => (entries.lookup name).map Value.toJson) name decode default =
      some result := by
  rw [optional, hentry]
  exact hdecode

theorem required_of_lookup :
    required (fun name => (entries.lookup name).map Value.toJson) name decode = some result := by
  rw [required, hentry]
  exact hdecode

end Lookup

/-- A list is decoded item by item. -/
theorem list?_itemsToJson {β : Type} {decode : Json.Value → Option β} {encode : β → Value}
    (hdecode : ∀ item, decode (encode item).toJson = some item) (items : List β) :
    list? decode (.array (Value.itemsToJson (items.map encode))) = some items := by
  rw [itemsToJson_eq_map, list?]
  induction items with
  | nil => rfl
  | cons item rest ih =>
      rw [List.map_cons, List.map_cons, List.mapM_cons, hdecode, ih]
      rfl

end Record

theorem nodup_reverse {entries : Entries} (hnames : (entries.map Prod.fst).Nodup) :
    (entries.reverse.map Prod.fst).Nodup := by
  rw [List.map_reverse]
  exact List.nodup_reverse.mpr hnames

/-! ## Tables -/

namespace Limits

/-- The entries of the table of limits, in the order of its lines. -/
def entries (limits : Limits) : Entries :=
  [("max_snapshots", .integer limits.maxSnapshots),
    ("max_window_end", .integer limits.maxWindowEnd)]

/-- Whether the limits have a written form. -/
def Writable (limits : Limits) : Prop :=
  limits.maxSnapshots < 2 ^ (63 : Nat) ∧ limits.maxWindowEnd < 2 ^ (63 : Nat)

theorem nodup_entries (limits : Limits) : (limits.entries.map Prod.fst).Nodup := by
  simp [entries]

theorem decode_table {limits : Limits} (hlimits : limits.Writable) :
    decode .toml (Value.table .header limits.entries.reverse).toJson = some limits := by
  have hword : ∀ value : Nat, value < 2 ^ (63 : Nat) →
      (Value.integer value).toJson.toWord? = some value := by
    intro value hvalue
    have hbound : value < Json.Literal.wordBound := Nat.lt_trans hvalue (by decide)
    exact Json.Value.toWord?_eq_some_iff.mpr ⟨rfl, hbound⟩
  rw [decode, Record.properties?_table (nodup_reverse limits.nodup_entries)]
  refine Option.bind_eq_some_iff.mpr ⟨_, rfl, ?_⟩
  refine Option.bind_eq_some_iff.mpr ⟨_, Record.optional_of_lookup rfl (hword _ hlimits.1), ?_⟩
  exact Option.bind_eq_some_iff.mpr ⟨_, Record.optional_of_lookup rfl (hword _ hlimits.2), rfl⟩

end Limits

namespace PolicyEntry

/-- The entries of the table of a policy, in the order of its lines. -/
def entries (entry : PolicyEntry) : Entries :=
  [("type", .string entry.typeName), ("field", .string entry.field),
    ("field_name", .string entry.listProperty), ("count_name", .string entry.countProperty),
    ("key_args", .array (entry.keyArguments.map .string))]

theorem nodup_entries (entry : PolicyEntry) : (entry.entries.map Prod.fst).Nodup := by
  simp [entries]

theorem decode_table (entry : PolicyEntry) :
    decode .toml (Value.table .header entry.entries.reverse).toJson = some entry := by
  have harguments : Record.list? Record.text?
      (.array (Value.itemsToJson (entry.keyArguments.map .string))) = some entry.keyArguments :=
    Record.list?_itemsToJson (fun _ => rfl) entry.keyArguments
  rw [decode, Record.properties?_table (nodup_reverse entry.nodup_entries)]
  refine Option.bind_eq_some_iff.mpr ⟨_, rfl, ?_⟩
  refine Option.bind_eq_some_iff.mpr ⟨_, Record.required_of_lookup rfl rfl, ?_⟩
  refine Option.bind_eq_some_iff.mpr ⟨_, Record.required_of_lookup rfl rfl, ?_⟩
  refine Option.bind_eq_some_iff.mpr ⟨_, Record.required_of_lookup rfl rfl, ?_⟩
  refine Option.bind_eq_some_iff.mpr ⟨_, Record.required_of_lookup rfl rfl, ?_⟩
  exact Option.bind_eq_some_iff.mpr ⟨_, Record.optional_of_lookup rfl harguments, rfl⟩

end PolicyEntry

namespace Logging

/-- The entries of the table of logging, in the order of its lines. -/
def entries (logging : Logging) : Entries :=
  [("level", .string logging.level), ("format", .string logging.format.name)]

theorem nodup_entries (logging : Logging) : (logging.entries.map Prod.fst).Nodup := by
  simp [entries]

theorem decode_table (logging : Logging) :
    decode .toml (Value.table .header logging.entries.reverse).toJson = some logging := by
  have hlevel : Record.text? (Value.string logging.level).toJson = some logging.level := rfl
  have hformat : LogFormat.ofName? logging.format.name = some logging.format := by
    cases logging.format <;> rfl
  rw [decode, Record.properties?_table (nodup_reverse logging.nodup_entries)]
  refine Option.bind_eq_some_iff.mpr ⟨_, rfl, ?_⟩
  refine Option.bind_eq_some_iff.mpr ⟨_, Record.optional_of_lookup rfl hlevel, ?_⟩
  exact Option.bind_eq_some_iff.mpr ⟨_, Record.optional_of_lookup rfl hformat, rfl⟩

end Logging

/-! ## The document -/

namespace Settings

/-- The entry for the policies: an empty list, or a table for each of them. -/
def policiesValue (policies : List PolicyEntry) : Value :=
  if policies.isEmpty then .array []
  else .tables (policies.map fun entry => .table .header entry.entries.reverse)

/-- The entries that the text of the settings builds. -/
def document (settings : Settings) : Entries :=
  let cache : String × Value := ("cache", .table .header settings.limits.entries.reverse)
  let policies : String × Value := ("policies", policiesValue settings.policies)
  ("logging", .table .header settings.logging.entries.reverse) ::
    if settings.policies.isEmpty then [cache, policies] else [policies, cache]

/-- The statements of the sections, each a header and assignments. -/
def sections (settings : Settings) : List (List Statement) :=
  (.table [] "cache" :: assignments settings.limits.entries) ::
    settings.policies.map (fun entry => .element [] "policies" :: assignments entry.entries) ++
      [.table [] "logging" :: assignments settings.logging.entries]

/-- The statements of the text of the settings. -/
def statements (settings : Settings) : List (List Statement) :=
  (if settings.policies.isEmpty then [[.assign [] "policies" (.array [])]] else []) ++
    settings.sections

theorem ofStatements?_statements (settings : Settings) :
    Entries.ofStatements? settings.statements.flatten = some settings.document := by
  have hcache : ∀ {before : Entries}, before.lookup "cache" = none →
      Draft.Builds (.table [] "cache" :: assignments settings.limits.entries) before
        (("cache", .table .header settings.limits.entries.reverse) :: before) :=
    Draft.builds_table settings.limits.nodup_entries
  have hlogging : ∀ {before : Entries}, before.lookup "logging" = none →
      Draft.Builds (.table [] "logging" :: assignments settings.logging.entries) before
        (("logging", .table .header settings.logging.entries.reverse) :: before) :=
    Draft.builds_table settings.logging.nodup_entries
  unfold statements sections document policiesValue
  cases settings.policies with
  | nil =>
      have hassign : [Statement.assign [] "policies" (.array [])].foldlM Draft.extend .empty =
          some ⟨[], .root, [("policies", .array [])]⟩ := by
        simp [Draft.extend, Draft.empty, Entries.assign, Entries.alter, Entries.add,
          Origin.isDotted]
      have hpolicies : ([("policies", .array [])] : Entries).lookup "cache" = none := rfl
      have hbuilt :=
        Draft.ofStatements?_append hassign rfl ((hcache hpolicies).append (hlogging rfl))
      simpa using hbuilt
  | cons entry rest =>
      have hnone : ([] : List Statement).foldlM Draft.extend .empty = some .empty := rfl
      have hentries : ∀ entries ∈ (entry :: rest).map PolicyEntry.entries,
          (entries.map Prod.fst).Nodup := by
        simp [PolicyEntry.nodup_entries]
      have hfirst : ([("cache", .table .header settings.limits.entries.reverse)] : Entries).lookup
          "policies" = none := rfl
      have hpolicies := Draft.builds_elements hfirst (List.cons_ne_nil _ _) hentries
      have hbuilt := Draft.ofStatements?_append hnone rfl
        (((hcache rfl).append hpolicies).append (hlogging rfl))
      simpa [Draft.elements, Function.comp_def, List.flatMap] using hbuilt

theorem decode_document {settings : Settings} (hlimits : settings.limits.Writable) :
    decode .toml (Value.table .header settings.document).toJson = some settings := by
  have hnames : (settings.document.map Prod.fst).Nodup := by
    unfold document
    split <;> simp
  have hpolicies : Record.list? (PolicyEntry.decode .toml)
      (policiesValue settings.policies).toJson = some settings.policies := by
    unfold policiesValue
    split
    next hempty =>
      rw [List.isEmpty_iff.mp hempty]
      rfl
    next => exact Record.list?_itemsToJson PolicyEntry.decode_table settings.policies
  have hcache : settings.document.lookup "cache" =
      some (.table .header settings.limits.entries.reverse) := by
    unfold document
    split <;> rfl
  have hlogging : settings.document.lookup "logging" =
      some (.table .header settings.logging.entries.reverse) := rfl
  have hlist : settings.document.lookup "policies" = some (policiesValue settings.policies) := by
    unfold document
    split <;> rfl
  rw [decode, Record.properties?_table hnames]
  refine Option.bind_eq_some_iff.mpr ⟨_, rfl, ?_⟩
  refine Option.bind_eq_some_iff.mpr
    ⟨_, Record.optional_of_lookup hcache (Limits.decode_table hlimits), ?_⟩
  refine Option.bind_eq_some_iff.mpr ⟨_, Record.optional_of_lookup hlist hpolicies, ?_⟩
  exact Option.bind_eq_some_iff.mpr
    ⟨_, Record.optional_of_lookup hlogging (Logging.decode_table _), rfl⟩

/-! ## The text -/

/-- A written integer is small enough, and is its digits. -/
theorem integer?_eq_some_iff {value : Nat} {text : List Char} :
    Writer.integer? value = some text ↔ value < 2 ^ (63 : Nat) ∧ Decimal.digits value = text := by
  unfold Writer.integer?
  split <;> simp_all

theorem writes_header {name : String} (hname : IsBare name) :
    Writes (header name) [.table [] name] :=
  .singleton (isLine_table hname)

theorem writes_assignment {name : String} (hname : IsBare name) {text : List Char}
    {value : Value} (htext : Spells maxDepth text value) :
    Writes (Writer.assignment name text) (assignments [(name, value)]) :=
  .singleton (isLine_assignment hname htext)

theorem writes_limitLines {limits : Limits} {text : List Char}
    (htext : limitLines? limits = some text) :
    Writes text (.table [] "cache" :: assignments limits.entries) ∧ limits.Writable := by
  simp only [limitLines?, Option.bind_eq_bind, Option.bind_eq_some_iff,
    integer?_eq_some_iff] at htext
  obtain ⟨_, ⟨hsnapshots, rfl⟩, _, ⟨hend, rfl⟩, hdone⟩ := htext
  cases hdone
  refine ⟨?_, hsnapshots, hend⟩
  exact ((writes_header (by decide)).append
    (writes_assignment (by decide) (spells_digits _ hsnapshots))).append
    (writes_assignment (by decide) (spells_digits _ hend))

theorem writes_policyLines (entry : PolicyEntry) :
    Writes (policyLines entry) (.element [] "policies" :: assignments entry.entries) := by
  have hname : IsBare "policies" := by decide
  have hheader : Writes (header "[policies]") [.element [] "policies"] :=
    .singleton (isLine_element hname)
  have hstring : ∀ {name : String}, IsBare name → ∀ text : String,
      Writes (Writer.assignment name (Writer.string text)) (assignments [(name, .string text)]) :=
    fun hname text => writes_assignment hname (spells_string _ text)
  exact ((((hheader.append (hstring (by decide) entry.typeName)).append
    (hstring (by decide) entry.field)).append
    (hstring (by decide) entry.listProperty)).append
    (hstring (by decide) entry.countProperty)).append
    (writes_assignment (by decide) (spells_strings 78 entry.keyArguments))

theorem writes_loggingLines (logging : Logging) :
    Writes (loggingLines logging) (.table [] "logging" :: assignments logging.entries) :=
  ((writes_header (by decide)).append
    (writes_assignment (by decide) (spells_string _ logging.level))).append
    (writes_assignment (by decide) (spells_string _ logging.format.name))

theorem writes_separate {blocks : List (List Char)} {sections : List (List Statement)}
    (hblocks : List.Forall₂ Writes blocks sections) :
    Writes (separate blocks) sections.flatten := by
  induction hblocks with
  | nil => exact .nil
  | @cons block statements blocks sections hblock hrest ih =>
      cases hrest with
      | nil => simpa [separate] using hblock
      | cons =>
        rw [separate]
        · exact hblock.append ih.blank
        · simp

theorem writes_sections {settings : Settings} {limits : List Char}
    (hcache : Writes limits (.table [] "cache" :: assignments settings.limits.entries)) :
    List.Forall₂ Writes
      (limits :: settings.policies.map policyLines ++ [loggingLines settings.logging])
      settings.sections := by
  have hpolicies : List.Forall₂ Writes (settings.policies.map policyLines)
      (settings.policies.map fun entry =>
        .element [] "policies" :: assignments entry.entries) := by
    rw [List.forall₂_map_left_iff, List.forall₂_map_right_iff, List.forall₂_same]
    exact fun entry _ => writes_policyLines entry
  exact .cons hcache (List.rel_append hpolicies (.cons (writes_loggingLines _) .nil))

/-- An empty list of policies is written before the sections. -/
theorem writes_blocks {settings : Settings} {blocks : List (List Char)}
    (hblocks : List.Forall₂ Writes blocks settings.sections) :
    List.Forall₂ Writes
      (if settings.policies.isEmpty then
        Writer.assignment "policies" (Writer.strings []) :: blocks
      else blocks) settings.statements := by
  unfold statements
  split
  next => exact .cons (writes_assignment (by decide) (spells_strings 78 [])) hblocks
  next => exact hblocks

/-- **Settings are read back from their text.** -/
theorem ofText?_of_toText? {settings : Settings} {text : String}
    (htext : settings.toText? = some text) : ofText? text = some settings := by
  obtain ⟨limits, hlimits, rfl⟩ := Option.map_eq_some_iff.mp htext
  obtain ⟨hcache, hwritable⟩ := writes_limitLines hlimits
  have hblocks := writes_blocks (writes_sections hcache)
  have hstatements := statements?_of_writes (writes_separate hblocks)
  rw [ofText?, parse?]
  dsimp only
  rw [hstatements, Option.bind_some, ofStatements?_statements, Option.map_some,
    Option.bind_some, decode_document hwritable]

end Settings

end PagedCache
