import PagedCache.OrderedEntries
import Mathlib.Data.List.Basic
import Mathlib.Order.RelClasses

/-!
# Maps as ordered lists

Entries are looked up by key.  The map of a list of entries has its keys in order, and does
not depend on the order of the list as long as no key is repeated.
-/

namespace PagedCache

/-! ## Entries by key -/

section Entries

variable {κ β : Type} [BEq κ] [LawfulBEq κ]

theorem lookup_cons_of_ne {key other : κ} (value : β) (rest : List (κ × β))
    (hother : key ≠ other) :
    ((other, value) :: rest).lookup key = rest.lookup key := by
  rw [List.lookup_cons, beq_false_of_ne hother]

theorem lookup_filter_key (keep : κ → Bool) (entries : List (κ × β)) (key : κ) :
    (entries.filter fun entry => keep entry.1).lookup key =
      if keep key then entries.lookup key else none := by
  induction entries with
  | nil => simp
  | cons entry rest ih =>
      obtain ⟨other, value⟩ := entry
      by_cases hother : key = other
      · subst hother
        cases hkeep : keep key <;> simp [hkeep, ih]
      · rw [lookup_cons_of_ne value rest hother, ← ih]
        cases hkeep : keep other with
        | false => simp [hkeep]
        | true => simp [hkeep, lookup_cons_of_ne value _ hother]

omit [LawfulBEq κ] in
/-- Dropping entries from the end forgets a key or leaves its value. -/
theorem lookup_take (entries : List (κ × β)) (count : Nat) (key : κ) :
    (entries.take count).lookup key = none ∨
      (entries.take count).lookup key = entries.lookup key := by
  have hsplit : entries.lookup key =
      ((entries.take count).lookup key).or ((entries.drop count).lookup key) := by
    rw [← List.lookup_append, List.take_append_drop]
  cases htake : (entries.take count).lookup key with
  | none => exact .inl rfl
  | some value =>
      rw [hsplit, htake]
      exact .inr rfl

end Entries

/-! ## Ordered entries -/

namespace OrderedEntries

variable {κ α : Type}

instance [LT κ] [DecidableLT κ] (entries : List (κ × α)) : Decidable (Ascending entries) :=
  inferInstanceAs (Decidable (entries.Pairwise fun left right => left.1 < right.1))

section KeepLast

variable [DecidableEq κ]

theorem keepLast_sublist (entries : List (κ × α)) : (keepLast entries).Sublist entries := by
  induction entries using keepLast.induct with
  | case1 => exact .slnil
  | case2 entry => exact .refl _
  | case3 entry next rest hsame ih =>
      rw [keepLast, if_pos hsame]
      exact ih.cons entry
  | case4 entry next rest hother ih =>
      rw [keepLast, if_neg hother]
      exact ih.cons_cons entry

variable [LT κ] [IsStrictTotalOrder κ (· < ·)]

theorem keepLast_eq_self {entries : List (κ × α)} (hentries : Ascending entries) :
    keepLast entries = entries := by
  induction entries using keepLast.induct with
  | case1 => rfl
  | case2 entry => rfl
  | case3 entry next rest hsame ih =>
      have hlt : entry.1 < next.1 := (List.pairwise_cons.mp hentries).1 next List.mem_cons_self
      rw [hsame] at hlt
      exact absurd hlt (irrefl_of (· < ·) next.1)
  | case4 entry next rest hother ih =>
      rw [keepLast, if_neg hother, ih (List.pairwise_cons.mp hentries).2]

/-- In a list by increasing keys, repeated keys stand next to each other. -/
theorem ascending_keepLast {entries : List (κ × α)}
    (hentries : entries.Pairwise fun left right => ¬right.1 < left.1) :
    Ascending (keepLast entries) := by
  induction entries using keepLast.induct with
  | case1 => exact .nil
  | case2 entry => exact List.pairwise_singleton _ _
  | case3 entry next rest hsame ih =>
      rw [keepLast, if_pos hsame]
      exact ih (List.pairwise_cons.mp hentries).2
  | case4 entry next rest hother ih =>
      obtain ⟨hentry, hrest⟩ := List.pairwise_cons.mp hentries
      have hnext : entry.1 < next.1 :=
        ((trichotomous_of (· < ·) entry.1 next.1).resolve_right fun h =>
          h.elim hother (hentry next List.mem_cons_self))
      rw [keepLast, if_neg hother]
      refine List.pairwise_cons.mpr ⟨fun other hmem => ?_, ih hrest⟩
      obtain rfl | hlater := List.mem_cons.mp ((keepLast_sublist _).subset hmem)
      · exact hnext
      · have hle := (List.pairwise_cons.mp hrest).1 other hlater
        rcases trichotomous_of (· < ·) next.1 other.1 with hlt | hsame | hgt
        · exact trans_of (· < ·) hnext hlt
        · exact hsame ▸ hnext
        · exact absurd hgt hle

end KeepLast

theorem find?_cons_of_ne [DecidableEq κ] {key other : κ} (hother : key ≠ other) (value : α)
    (rest : List (κ × α)) : find? key ((other, value) :: rest) = find? key rest :=
  lookup_cons_of_ne value rest hother

section Insert

variable [LT κ] [DecidableLT κ] [DecidableEq κ]

@[simp]
theorem find?_insert_self (key : κ) (value : α) (entries : List (κ × α)) :
    find? key (insert key value entries) = some value := by
  induction entries with
  | nil => simp [insert, find?]
  | cons entry rest ih =>
      obtain ⟨other, old⟩ := entry
      unfold insert
      split_ifs with hlt hsame
      · simp [find?]
      · simp [find?]
      · simpa only [find?, List.lookup_cons, beq_false_of_ne hsame] using ih

theorem find?_insert_of_ne {key name : κ} (hname : name ≠ key) (value : α)
    (entries : List (κ × α)) :
    find? name (insert key value entries) = find? name entries := by
  induction entries with
  | nil => simp [insert, find?, List.lookup_cons, beq_false_of_ne hname]
  | cons entry rest ih =>
      obtain ⟨other, old⟩ := entry
      unfold insert
      split_ifs with hlt hsame
      · simp only [find?, List.lookup_cons, beq_false_of_ne hname]
      · subst hsame
        simp only [find?, List.lookup_cons, beq_false_of_ne hname]
      · simp only [find?] at ih
        simp only [find?, List.lookup_cons, ih]

omit [LT κ] [DecidableLT κ] in
theorem mem_of_find?_eq_some {key : κ} {value : α} {entries : List (κ × α)}
    (hvalue : find? key entries = some value) : (key, value) ∈ entries := by
  obtain ⟨before, after, rfl, -⟩ := List.lookup_eq_some_iff.mp hvalue
  exact List.mem_append_right before List.mem_cons_self

theorem mem_insert {key : κ} {value : α} {entries : List (κ × α)} {entry : κ × α}
    (hentry : entry ∈ insert key value entries) : entry = (key, value) ∨ entry ∈ entries := by
  induction entries with
  | nil => exact .inl (List.mem_singleton.mp hentry)
  | cons first rest ih =>
      obtain ⟨other, old⟩ := first
      unfold insert at hentry
      split_ifs at hentry with hlt hsame
      · exact List.mem_cons.mp hentry
      · exact (List.mem_cons.mp hentry).imp_right (List.mem_cons_of_mem _)
      · obtain rfl | hrest := List.mem_cons.mp hentry
        · exact .inr List.mem_cons_self
        · exact (ih hrest).imp_right (List.mem_cons_of_mem _)

theorem mem_insertAll {base overlay : List (κ × α)} {entry : κ × α}
    (hentry : entry ∈ insertAll base overlay) : entry ∈ overlay ∨ entry ∈ base := by
  induction overlay generalizing base with
  | nil => exact .inr hentry
  | cons first rest ih =>
      rcases ih hentry with hrest | hbase
      · exact .inl (List.mem_cons_of_mem _ hrest)
      · exact (mem_insert hbase).imp_left fun hfirst => List.mem_cons.mpr (.inl hfirst)

theorem insertAll_append (base first second : List (κ × α)) :
    insertAll base (first ++ second) = insertAll (insertAll base first) second :=
  List.foldl_append

/-- Of several values for a key the last one counts. -/
theorem find?_insertAll (key : κ) (base overlay : List (κ × α)) :
    find? key (insertAll base overlay) = (overlay.reverse.lookup key).or (find? key base) := by
  induction overlay generalizing base with
  | nil => rfl
  | cons first rest ih =>
      have hnext : find? key (insertAll base (first :: rest)) =
          (rest.reverse.lookup key).or (find? key (insert first.1 first.2 base)) := ih _
      rw [hnext, List.reverse_cons, List.lookup_append, Option.or_assoc]
      congr 1
      by_cases hkey : key = first.1
      · rw [hkey, find?_insert_self, List.lookup_cons_self, Option.some_or]
      · rw [find?_insert_of_ne hkey, List.lookup_cons, beq_false_of_ne hkey]
        rfl

/-- An entry that a filter drops is set in vain. -/
theorem filter_insert {keep : κ × α → Bool} {key : κ} (hkey : ∀ value, keep (key, value) = false)
    (value : α) (entries : List (κ × α)) :
    (insert key value entries).filter keep = entries.filter keep := by
  induction entries with
  | nil => simp [insert, hkey]
  | cons entry rest ih =>
      obtain ⟨other, old⟩ := entry
      unfold insert
      split_ifs with hlt hsame
      · simp only [List.filter_cons, hkey, Bool.false_eq_true, if_false]
      · subst hsame
        simp only [List.filter_cons, hkey, Bool.false_eq_true, if_false]
      · simp only [List.filter_cons, ih]

variable [IsStrictTotalOrder κ (· < ·)]

/-- Setting an entry keeps the order. -/
theorem ascending_insert {entries : List (κ × α)} (hentries : Ascending entries) (key : κ)
    (value : α) : Ascending (insert key value entries) := by
  induction entries with
  | nil => exact List.pairwise_singleton _ _
  | cons entry rest ih =>
      obtain ⟨other, old⟩ := entry
      obtain ⟨hother, hrest⟩ := List.pairwise_cons.mp hentries
      unfold insert
      split_ifs with hlt hsame
      · refine List.pairwise_cons.mpr ⟨fun later hlater => ?_, hentries⟩
        obtain rfl | hbehind := List.mem_cons.mp hlater
        · exact hlt
        · exact trans_of (· < ·) hlt (hother later hbehind)
      · exact List.pairwise_cons.mpr ⟨hsame ▸ hother, hrest⟩
      · have hafter : other < key :=
          ((trichotomous_of (· < ·) key other).resolve_left hlt).resolve_left hsame
        refine List.pairwise_cons.mpr ⟨fun later hlater => ?_, ih hrest⟩
        obtain rfl | hbehind := mem_insert hlater
        · exact hafter
        · exact hother later hbehind

theorem ascending_insertAll {base : List (κ × α)} (hbase : Ascending base)
    (overlay : List (κ × α)) : Ascending (insertAll base overlay) := by
  induction overlay generalizing base with
  | nil => exact hbase
  | cons first rest ih => exact ih (ascending_insert hbase first.1 first.2)

omit [DecidableLT κ] in
/-- In a map every entry is found. -/
theorem find?_eq_some_iff_mem {entries : List (κ × α)} (hentries : Ascending entries) {key : κ}
    {value : α} : find? key entries = some value ↔ (key, value) ∈ entries := by
  refine ⟨mem_of_find?_eq_some, fun hmem => ?_⟩
  induction entries with
  | nil => cases hmem
  | cons entry rest ih =>
      obtain ⟨hentry, hrest⟩ := List.pairwise_cons.mp hentries
      obtain rfl | hlater := List.mem_cons.mp hmem
      · exact List.lookup_cons_self
      · have hlt : entry.1 < key := hentry (key, value) hlater
        have hne : key ≠ entry.1 := by
          rintro rfl
          exact irrefl_of (· < ·) entry.1 hlt
        exact (find?_cons_of_ne hne entry.2 rest).trans (ih hrest hlater)

end Insert

variable [LT κ] [DecidableLT κ] [IsStrictTotalOrder κ (· < ·)]

/-- The order by which entries are sorted. -/
def keyLe (left right : κ × α) : Bool :=
  !decide (right.1 < left.1)

omit [IsStrictTotalOrder κ (· < ·)] in
theorem keyLe_iff {left right : κ × α} : keyLe left right = true ↔ ¬right.1 < left.1 := by
  simp [keyLe]

theorem keyLe_trans (left middle right : κ × α) (hleft : keyLe left middle = true)
    (hright : keyLe middle right = true) : keyLe left right = true := by
  rw [keyLe_iff] at *
  intro hlt
  rcases trichotomous_of (· < ·) left.1 middle.1 with hless | hsame | hgreater
  · exact hright (trans_of (· < ·) hlt hless)
  · exact hright (hsame ▸ hlt)
  · exact hleft hgreater

theorem keyLe_total (left right : κ × α) : (keyLe left right || keyLe right left) = true := by
  rw [Bool.or_eq_true, keyLe_iff, keyLe_iff, ← not_and_or]
  rintro ⟨hlt, hgt⟩
  exact asymm_of (· < ·) hlt hgt

theorem pairwise_mergeSort (entries : List (κ × α)) :
    (entries.mergeSort keyLe).Pairwise fun left right => ¬right.1 < left.1 :=
  (List.pairwise_mergeSort keyLe_trans keyLe_total entries).imp keyLe_iff.mp

/-- Without repeated keys, sorting is enough. -/
theorem ascending_mergeSort {entries : List (κ × α)} (hkeys : (entries.map Prod.fst).Nodup) :
    Ascending (entries.mergeSort keyLe) := by
  have hsorted : ((entries.mergeSort keyLe).map Prod.fst).Nodup :=
    ((List.mergeSort_perm entries keyLe).map Prod.fst).nodup_iff.mpr hkeys
  have hdistinct := List.pairwise_map.mp hsorted
  refine ((pairwise_mergeSort entries).and hdistinct).imp ?_
  rintro left right ⟨hle, hne⟩
  rcases trichotomous_of (· < ·) left.1 right.1 with hlt | hsame | hgt
  · exact hlt
  · exact absurd hsame hne
  · exact absurd hgt hle

variable [DecidableEq κ]

/-- **The map of a list is in order.** -/
theorem ascending_ofList (entries : List (κ × α)) : Ascending (ofList entries) :=
  ascending_keepLast (pairwise_mergeSort entries)

omit [IsStrictTotalOrder κ (· < ·)] in
theorem mem_of_mem_ofList {entries : List (κ × α)} {entry : κ × α}
    (hentry : entry ∈ ofList entries) : entry ∈ entries :=
  (List.mergeSort_perm entries keyLe).subset ((keepLast_sublist _).subset hentry)

theorem ofList_eq_mergeSort {entries : List (κ × α)} (hkeys : (entries.map Prod.fst).Nodup) :
    ofList entries = entries.mergeSort keyLe :=
  keepLast_eq_self (ascending_mergeSort hkeys)

/-- **A list in order is its own map.** -/
theorem ofList_eq_self {entries : List (κ × α)} (hentries : Ascending entries) :
    ofList entries = entries := by
  have hsorted : entries.mergeSort keyLe = entries := by
    apply List.mergeSort_of_pairwise
    exact hentries.imp fun hlt => keyLe_iff.mpr fun hgt => asymm_of (· < ·) hlt hgt
  exact (congrArg keepLast hsorted).trans (keepLast_eq_self hentries)

/-- **The map of a list without repeated keys does not depend on the order.** -/
theorem ofList_eq_of_perm {left right : List (κ × α)} (hkeys : (left.map Prod.fst).Nodup)
    (hperm : left.Perm right) : ofList left = ofList right := by
  have hrightKeys : (right.map Prod.fst).Nodup := (hperm.map Prod.fst).nodup_iff.mp hkeys
  rw [ofList_eq_mergeSort hkeys, ofList_eq_mergeSort hrightKeys]
  refine List.Perm.eq_of_pairwise ?_ (ascending_mergeSort hkeys)
    (ascending_mergeSort hrightKeys) ?_
  · intro first second _ _ hlt hgt
    exact absurd hgt (asymm_of (· < ·) hlt)
  · exact ((List.mergeSort_perm left keyLe).trans hperm).trans
      (List.mergeSort_perm right keyLe).symm

omit [LT κ] [DecidableLT κ] [IsStrictTotalOrder κ (· < ·)] in
theorem find?_of_mem {entries : List (κ × α)} (hkeys : (entries.map Prod.fst).Nodup) {key : κ}
    {value : α} (hmem : (key, value) ∈ entries) : find? key entries = some value := by
  induction entries with
  | nil => cases hmem
  | cons entry rest ih =>
      obtain ⟨hentry, hrest⟩ := List.nodup_cons.mp hkeys
      obtain rfl | hlater := List.mem_cons.mp hmem
      · exact List.lookup_cons_self
      · have hne : key ≠ entry.1 := by
          rintro rfl
          exact hentry (List.mem_map.mpr ⟨_, hlater, rfl⟩)
        exact (find?_cons_of_ne hne entry.2 rest).trans (ih hrest hlater)

/-- **Without repeated keys, a list and its map have the same values.** -/
theorem find?_ofList {entries : List (κ × α)} (hkeys : (entries.map Prod.fst).Nodup) (key : κ) :
    find? key (ofList entries) = find? key entries := by
  have hperm : (ofList entries).Perm entries := by
    rw [ofList_eq_mergeSort hkeys]
    exact List.mergeSort_perm entries keyLe
  ext value
  rw [find?_eq_some_iff_mem (ascending_ofList entries), hperm.mem_iff]
  exact ⟨find?_of_mem hkeys, mem_of_find?_eq_some⟩

end OrderedEntries

end PagedCache
