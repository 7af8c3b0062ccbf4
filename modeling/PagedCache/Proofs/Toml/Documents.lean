import PagedCache.Proofs.OrderedEntries
import PagedCache.Proofs.Toml.Statements
import PagedCache.Toml.Document
import Mathlib.Data.String.Basic

/-!
# TOML documents are built section by section

A section is a header and assignments.  It puts one table into the finished document,
from whatever section the draft was in before.
-/

namespace PagedCache.Toml

/-- **The statements of a text are read.** -/
theorem statements?_of_writes {text : List Char} {statements : List Statement}
    (htext : Statement.Writes text statements) :
    statements? (String.ofList text) = some statements := by
  have hmark : skipByteOrderMark text = text := by
    cases htext with
    | nil => rfl
    | blank => rfl
    | line hline hrest =>
        obtain ⟨first, more, rfl, hfirst⟩ := hline.start
        rw [List.cons_append, skipByteOrderMark]
        intro rest hrest
        obtain rfl := (List.cons.inj hrest).1
        exact absurd (by decide) hfirst
  rw [statements?, String.toList_ofList, hmark]
  exact Statement.scanAll_of_writes htext (Nat.lt_succ_self _)

/-- Assignments of values to names, as statements. -/
def assignments (entries : Entries) : List Statement :=
  entries.map fun entry => .assign [] entry.1 entry.2

namespace Draft

/-- **Assignments of new names are collected**, the last one in front. -/
theorem foldlM_assignments {entries : Entries} (draft : Draft)
    (hnames : (entries.map Prod.fst).Nodup)
    (hnew : ∀ entry ∈ entries, draft.entries.lookup entry.1 = none) :
    (assignments entries).foldlM extend draft =
      some { draft with entries := entries.reverse ++ draft.entries } := by
  induction entries generalizing draft with
  | nil => rfl
  | cons entry rest ih =>
      obtain ⟨hfirst, hrest⟩ := List.nodup_cons.mp hnames
      obtain ⟨hentry, hlater⟩ := List.forall_mem_cons.mp hnew
      have hstep : draft.extend (.assign [] entry.1 entry.2) =
          some { draft with entries := (entry.1, entry.2) :: draft.entries } := by
        have hadd : (draft.entries.add entry.1 entry.2) =
            some ((entry.1, entry.2) :: draft.entries) := by
          rw [Entries.add, hentry]
          rfl
        change (draft.entries.add entry.1 entry.2).map _ = _
        rw [hadd]
        rfl
      have hnewer : ∀ later ∈ rest,
          ((entry.1, entry.2) :: draft.entries).lookup later.1 = none := by
        intro later hmem
        have hne : later.1 ≠ entry.1 := fun heq => hfirst (heq ▸ List.mem_map_of_mem hmem)
        exact (lookup_cons_of_ne entry.2 draft.entries hne).trans (hlater later hmem)
      rw [assignments, List.map_cons, List.foldlM_cons, hstep, Option.bind_eq_bind,
        Option.bind_some]
      exact (ih _ hrest hnewer).trans (by simp)

/-- What statements do to the finished document, from whatever section they start. -/
def Builds (statements : List Statement) (before after : Entries) : Prop :=
  ∀ draft : Draft, draft.finish = some before →
    ∃ next, statements.foldlM extend draft = some next ∧ next.finish = some after

theorem Builds.append {first second : List Statement} {before middle after : Entries}
    (hfirst : Builds first before middle) (hsecond : Builds second middle after) :
    Builds (first ++ second) before after := by
  intro draft hdraft
  obtain ⟨next, hrun, hnext⟩ := hfirst draft hdraft
  obtain ⟨last, hlast, hfinish⟩ := hsecond next hnext
  refine ⟨last, ?_, hfinish⟩
  rw [List.foldlM_append, hrun]
  exact hlast

section Sections

variable {document rest : Entries} {name : String} {entries : Entries}
  (hentries : (entries.map Prod.fst).Nodup)

include hentries in
/-- A section is opened by its header, and closed when the next one begins. -/
theorem builds_section {header : Statement} {current : Section} {before opened after : Entries}
    (hopen : ∀ draft : Draft, draft.finish = some before →
      draft.extend header = some ⟨opened, current, []⟩)
    (hclose : finish ⟨opened, current, entries.reverse⟩ = some after) :
    Builds (header :: assignments entries) before after := by
  intro draft hdraft
  refine ⟨⟨opened, current, entries.reverse⟩, ?_, hclose⟩
  rw [List.foldlM_cons, hopen draft hdraft, Option.bind_eq_bind, Option.bind_some,
    foldlM_assignments _ hentries fun _ _ => rfl, List.append_nil]

include hentries in
/-- **A table is put into a document that has nothing under its name.** -/
theorem builds_table (hname : document.lookup name = none) :
    Builds (.table [] name :: assignments entries) document
      ((name, .table .header entries.reverse) :: document) := by
  have hclose : finish ⟨document, .table [] name, entries.reverse⟩ =
      some ((name, .table .header entries.reverse) :: document) := by
    simp [finish, Entries.alter, placeTable, hname]
  refine builds_section hentries ?_ hclose
  intro draft hdraft
  simp [extend, hdraft, Entries.alter, Entries.descend, implied?, hname]

theorem replace_cons_self (hname : rest.lookup name = none) (old value : Value) :
    Entries.replace ((name, old) :: rest) name value = (name, value) :: rest := by
  have hothers : ∀ entry ∈ rest, (if entry.1 = name then (name, value) else entry) = entry := by
    intro entry hentry
    have hother := List.lookup_eq_none_iff.mp hname entry hentry
    rw [if_neg]
    rintro rfl
    simp at hother
  rw [Entries.replace, List.map_cons, if_pos rfl, List.map_congr_left hothers, List.map_id']

theorem finish_element (hname : rest.lookup name = none) (items : List Value)
    (entries : Entries) :
    finish ⟨(name, .tables items) :: rest, .element [] name, entries⟩ =
      some ((name, .tables (items ++ [.table .header entries])) :: rest) := by
  simp [finish, Entries.alter, placeElement, replace_cons_self hname]

include hentries in
/-- The first table of an array. -/
theorem builds_firstElement (hname : document.lookup name = none) :
    Builds (.element [] name :: assignments entries) document
      ((name, .tables [.table .header entries.reverse]) :: document) := by
  refine builds_section hentries ?_ (finish_element hname [] entries.reverse)
  intro draft hdraft
  simp [extend, hdraft, Entries.alter, openArray, hname]

include hentries in
/-- A further table of an array. -/
theorem builds_nextElement (hname : rest.lookup name = none) (items : List Value) :
    Builds (.element [] name :: assignments entries) ((name, .tables items) :: rest)
      ((name, .tables (items ++ [.table .header entries.reverse])) :: rest) := by
  refine builds_section hentries ?_ (finish_element hname items entries.reverse)
  intro draft hdraft
  simp [extend, hdraft, Entries.alter, openArray]

end Sections

section Elements

variable {document rest : Entries} {name : String} {sections : List Entries}

/-- The tables of an array, one after another. -/
def elements (name : String) (sections : List Entries) : List Statement :=
  sections.flatMap fun entries => .element [] name :: assignments entries

theorem builds_nextElements (hname : rest.lookup name = none)
    (hsections : ∀ entries ∈ sections, (entries.map Prod.fst).Nodup) (items : List Value) :
    Builds (elements name sections) ((name, .tables items) :: rest)
      ((name, .tables (items ++ sections.map fun entries => .table .header entries.reverse)) ::
        rest) := by
  induction sections generalizing items with
  | nil =>
      rw [List.map_nil, List.append_nil]
      exact fun draft hdraft => ⟨draft, rfl, hdraft⟩
  | cons entries sections ih =>
      obtain ⟨hentries, hmore⟩ := List.forall_mem_cons.mp hsections
      have hnext := ih hmore (items ++ [.table .header entries.reverse])
      rw [List.append_assoc] at hnext
      exact (builds_nextElement hentries hname items).append hnext

/-- **An array of tables is put into a document that has nothing under its name.** -/
theorem builds_elements (hname : document.lookup name = none) (hnonempty : sections ≠ [])
    (hsections : ∀ entries ∈ sections, (entries.map Prod.fst).Nodup) :
    Builds (elements name sections) document
      ((name, .tables (sections.map fun entries => .table .header entries.reverse)) ::
        document) := by
  cases sections with
  | nil => exact absurd rfl hnonempty
  | cons entries sections =>
      obtain ⟨hentries, hmore⟩ := List.forall_mem_cons.mp hsections
      exact (builds_firstElement hentries hname).append (builds_nextElements hname hmore _)

end Elements

/-- **Statements build a document** after others that begin it. -/
theorem ofStatements?_append {front back : List Statement} {draft : Draft}
    {before after : Entries} (hfront : front.foldlM extend .empty = some draft)
    (hdraft : draft.finish = some before) (hback : Builds back before after) :
    Entries.ofStatements? (front ++ back) = some after := by
  obtain ⟨next, hrun, hnext⟩ := hback draft hdraft
  rw [Entries.ofStatements?, List.foldlM_append, hfront, Option.bind_eq_bind, Option.bind_some,
    hrun, Option.bind_some, hnext]

end Draft

/-! ## Members -/

theorem entriesToJson_eq_map (entries : Entries) :
    Value.entriesToJson entries = entries.map fun entry => (entry.1, entry.2.toJson) := by
  induction entries with
  | nil => rfl
  | cons entry rest ih => rw [Value.entriesToJson, ih, List.map_cons]

theorem itemsToJson_eq_map (items : List Value) :
    Value.itemsToJson items = items.map Value.toJson := by
  induction items with
  | nil => rfl
  | cons item rest ih => rw [Value.itemsToJson, ih, List.map_cons]

/-- **The members of a table are its entries**, in whatever order they were assigned. -/
theorem find?_toJson {entries : Entries} (hnames : (entries.map Prod.fst).Nodup) (name : String) :
    Json.Members.find? (OrderedEntries.ofList (Value.entriesToJson entries)) name =
      (entries.lookup name).map Value.toJson := by
  have hkeys : ((Value.entriesToJson entries).map Prod.fst).Nodup := by
    rw [entriesToJson_eq_map, List.map_map]
    exact hnames
  rw [Json.Members.find?, OrderedEntries.find?_ofList hkeys, entriesToJson_eq_map,
    OrderedEntries.find?]
  clear hnames hkeys
  induction entries with
  | nil => rfl
  | cons entry rest ih =>
      rw [List.map_cons, List.lookup_cons, List.lookup_cons, ih]
      cases name == entry.1 <;> rfl

end PagedCache.Toml
