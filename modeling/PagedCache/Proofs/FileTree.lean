import PagedCache.FileTree
import PagedCache.Proofs.OrderedEntries

/-!
# What is written to a file is read from it

Writing puts one file into a directory and leaves all directories where they are.  So a
path leads the same way afterwards, and its last name leads to the new file.
-/

namespace PagedCache

namespace FileNode

/-- The node at a place. -/
def at? (node : FileNode) : List String → Option FileNode
  | [] => some node
  | name :: rest =>
    match node with
    | file _ => none
    | directory children =>
      match children.lookup name with
      | none => none
      | some child => child.at? rest

variable {children : List (String × FileNode)} {node value : FileNode}

theorem at?_cons {name : String} {child : FileNode} (hchild : children.lookup name = some child)
    (place : List String) : (directory children).at? (name :: place) = child.at? place := by
  simp only [at?, hchild]

theorem exists_child_of_at? {name : String} {place : List String} {found : FileNode}
    (hfound : node.at? (name :: place) = some found) :
    ∃ children child, node = directory children ∧ children.lookup name = some child ∧
      child.at? place = some found := by
  cases node with
  | file text => cases hfound
  | directory children =>
      cases hchild : children.lookup name with
      | none => simp [at?, hchild] at hfound
      | some child =>
          rw [at?_cons hchild] at hfound
          exact ⟨children, child, rfl, hchild, hfound⟩

/-- Only a directory has a directory below it. -/
theorem eq_directory_of_at? {place : List String} {inner : List (String × FileNode)}
    (hplace : node.at? place = some (directory inner)) :
    ∃ children, node = directory children := by
  cases place with
  | nil => exact ⟨inner, Option.some.inj hplace⟩
  | cons name rest =>
      obtain ⟨children, child, hnode, -, -⟩ := exists_child_of_at? hplace
      exact ⟨children, hnode⟩

theorem at?_append {front : List String} {found : FileNode} (hfound : node.at? front = some found)
    (back : List String) : node.at? (front ++ back) = found.at? back := by
  induction front generalizing node with
  | nil =>
      obtain rfl := Option.some.inj hfound
      rfl
  | cons name rest ih =>
      obtain ⟨children, child, rfl, hchild, hrest⟩ := exists_child_of_at? hfound
      rw [List.cons_append, at?_cons hchild]
      exact ih hrest

/-- What is in a directory is what the directory has under the last name of the place. -/
theorem at?_append_singleton {place : List String}
    (hplace : node.at? place = some (directory children)) (name : String) :
    node.at? (place ++ [name]) = children.lookup name := by
  rw [at?_append hplace, at?]
  cases children.lookup name <;> rfl

section Put

variable {name : String}

theorem lookup_put_self (children : List (String × FileNode)) (name : String)
    (child : FileNode) :
    ((name, child) :: children.filter fun entry => entry.1 != name).lookup name = some child :=
  List.lookup_cons_self

theorem lookup_put_of_ne {other : String} (hother : other ≠ name)
    (children : List (String × FileNode)) (child : FileNode) :
    ((name, child) :: children.filter fun entry => entry.1 != name).lookup other =
      children.lookup other := by
  rw [lookup_cons_of_ne child _ hother, lookup_filter_key (fun key => key != name)]
  simp [hother]

/-- What is put into a directory is there. -/
theorem at?_put_self {place : List String} (hplace : node.at? place = some (directory children))
    (name : String) (value : FileNode) :
    (node.put value (place ++ [name])).at? (place ++ [name]) = some value := by
  induction place generalizing node with
  | nil =>
      obtain rfl := Option.some.inj hplace
      exact at?_cons (lookup_put_self _ _ _) []
  | cons first rest ih =>
      obtain ⟨others, child, rfl, hchild, hrest⟩ := exists_child_of_at? hplace
      have hput := ih hrest
      rw [List.cons_append, put, hchild, Option.getD_some, at?_cons (lookup_put_self _ _ _)]
      exact hput

/-- A directory stays a directory when something else is put into a directory. -/
theorem exists_directory_at?_put {place : List String}
    (hplace : node.at? place = some (directory children))
    (hname : ∀ inner, children.lookup name ≠ some (directory inner)) {other : List String}
    {inner : List (String × FileNode)} (hother : node.at? other = some (directory inner)) :
    ∃ after, (node.put value (place ++ [name])).at? other = some (directory after) := by
  induction place generalizing node other with
  | nil =>
      obtain rfl := Option.some.inj hplace
      cases other with
      | nil => exact ⟨_, rfl⟩
      | cons first rest =>
          obtain ⟨_, child, hnode, hchild, hrest⟩ := exists_child_of_at? hother
          cases hnode
          by_cases hfirst : first = name
          · subst hfirst
            obtain ⟨below, rfl⟩ := eq_directory_of_at? hrest
            exact absurd hchild (hname below)
          · refine ⟨inner, ?_⟩
            rw [List.nil_append, put, at?_cons ((lookup_put_of_ne hfirst _ _).trans hchild)]
            exact hrest
  | cons step steps ih =>
      obtain ⟨others, below, rfl, hbelow, hsteps⟩ := exists_child_of_at? hplace
      cases other with
      | nil => exact ⟨_, rfl⟩
      | cons first rest =>
          obtain ⟨_, child, hnode, hchild, hrest⟩ := exists_child_of_at? hother
          cases hnode
          rw [List.cons_append, put, hbelow, Option.getD_some]
          by_cases hfirst : first = step
          · subst hfirst
            obtain rfl : child = below := Option.some.inj (hchild.symm.trans hbelow)
            rw [at?_cons (lookup_put_self _ _ _)]
            exact ih hsteps hrest
          · refine ⟨inner, ?_⟩
            rw [at?_cons ((lookup_put_of_ne hfirst _ _).trans hchild)]
            exact hrest

end Put

end FileNode

/-! ## Trails -/

namespace Trail

variable {root next : FileNode} {trail after : Trail} {name : String}
  {children : List (String × FileNode)}

/-- A name that leads downwards. -/
structure IsPlain (name : String) : Prop where
  ne_here : name ≠ "."
  ne_up : name ≠ ".."
  size_le : name.utf8ByteSize ≤ maxNameSize

theorem enter_of_isPlain (hname : IsPlain name) (hnode : trail.node = .directory children) :
    trail.enter name =
      match children.lookup name with
      | some child => .ok ⟨child, (name, .directory children) :: trail.above⟩
      | none => .error .missing := by
  have hsize : ¬maxNameSize < name.utf8ByteSize := Nat.not_lt.mpr hname.size_le
  cases hlookup : children.lookup name <;>
    simp [enter, hnode, hname.ne_here, hname.ne_up, hsize, hlookup]

/-- The three ways in which a name is followed, all of them in a directory. -/
theorem enter_cases (henter : trail.enter name = .ok after) :
    ∃ children, trail.node = .directory children ∧
      (name = "." ∧ after = trail ∨ name = ".." ∧ after = trail.up ∨
        IsPlain name ∧ ∃ child, children.lookup name = some child ∧
          after = ⟨child, (name, .directory children) :: trail.above⟩) := by
  unfold enter at henter
  split at henter
  next => cases henter
  next children hnode =>
    refine ⟨children, hnode, ?_⟩
    split_ifs at henter with hhere hup hsize
    · exact .inl ⟨hhere, (Except.ok.inj henter).symm⟩
    · exact .inr (.inl ⟨hup, (Except.ok.inj henter).symm⟩)
    · split at henter
      next child hchild =>
        rw [hnode] at henter
        exact .inr (.inr ⟨⟨hhere, hup, Nat.not_lt.mp hsize⟩, child, hchild,
          (Except.ok.inj henter).symm⟩)
      next => cases henter

/-- What a directory lacks is missed under a name that leads downwards. -/
theorem isPlain_of_missing (hmissing : trail.enter name = .error .missing) :
    IsPlain name ∧ ∃ children, trail.node = .directory children ∧
      children.lookup name = none := by
  unfold enter at hmissing
  split at hmissing
  next => cases hmissing
  next children hnode =>
    split_ifs at hmissing with hhere hup hsize
    · cases hmissing
    · split at hmissing
      next => cases hmissing
      next hnone => exact ⟨⟨hhere, hup, Nat.not_lt.mp hsize⟩, children, hnode, hnone⟩

/-- The directories above a trail hold what it leads through, down from the root. -/
inductive Leads (root : FileNode) : Trail → Prop where
  | start : Leads root ⟨root, []⟩
  | child {children : List (String × FileNode)} {above : List (String × FileNode)}
      {name : String} {child : FileNode} (hparent : Leads root ⟨.directory children, above⟩)
      (hchild : children.lookup name = some child) :
      Leads root ⟨child, (name, .directory children) :: above⟩

@[simp]
theorem place_cons (child parent : FileNode) (name : String) (above : List (String × FileNode)) :
    (Trail.mk child ((name, parent) :: above)).place =
      (Trail.mk parent above).place ++ [name] := by
  simp [place]

namespace Leads

/-- A trail leads to what is at its place. -/
theorem at?_place (hleads : Leads root trail) : root.at? trail.place = some trail.node := by
  induction hleads with
  | start => rfl
  | child _ hchild ih =>
      rw [place_cons, FileNode.at?_append ih, FileNode.at?_cons hchild]
      rfl

theorem up (hleads : Leads root trail) : Leads root trail.up := by
  cases hleads with
  | start => exact .start
  | child hparent _ => exact hparent

/-- What is above a directory is a directory. -/
theorem up_node (hleads : Leads root trail) (hnode : trail.node = .directory children) :
    ∃ above, trail.up.node = .directory above := by
  cases hleads with
  | start => exact ⟨children, hnode⟩
  | child => exact ⟨_, rfl⟩

theorem enter (hleads : Leads root trail) (henter : trail.enter name = .ok after) :
    Leads root after := by
  obtain ⟨children, hnode, ⟨-, rfl⟩ | ⟨-, rfl⟩ | ⟨-, child, hchild, rfl⟩⟩ :=
    enter_cases henter
  · exact hleads
  · exact hleads.up
  · have hparent : Leads root ⟨.directory children, trail.above⟩ := by
      rw [← hnode]
      exact hleads
    exact hparent.child hchild

end Leads

/-! ## Paths -/

theorem follow_cons_eq_ok_iff {rest : List String} :
    trail.follow (name :: rest) = .ok after ↔
      ∃ step, trail.enter name = .ok step ∧ step.follow rest = .ok after := by
  rw [follow]
  cases trail.enter name <;> simp

theorem follow_append {front : List String} (hfront : trail.follow front = .ok after)
    (back : List String) : trail.follow (front ++ back) = after.follow back := by
  induction front generalizing trail with
  | nil =>
      obtain rfl := Except.ok.inj hfront
      rfl
  | cons name rest ih =>
      obtain ⟨step, henter, hrest⟩ := follow_cons_eq_ok_iff.mp hfront
      rw [List.cons_append, follow, henter]
      exact ih hrest

theorem Leads.follow {names : List String} (hleads : Leads root trail)
    (hfollow : trail.follow names = .ok after) : Leads root after := by
  induction names generalizing trail with
  | nil =>
      obtain rfl := Except.ok.inj hfollow
      exact hleads
  | cons name rest ih =>
      obtain ⟨step, henter, hrest⟩ := follow_cons_eq_ok_iff.mp hfollow
      exact ih (hleads.enter henter) hrest

/-- A path that leads to a directory goes through directories. -/
theorem node_of_follow {names : List String} (hfollow : trail.follow names = .ok after)
    (hafter : ∃ inner, after.node = .directory inner) :
    ∃ children, trail.node = .directory children := by
  cases names with
  | nil =>
      obtain rfl := Except.ok.inj hfollow
      exact hafter
  | cons name rest =>
      obtain ⟨step, henter, -⟩ := follow_cons_eq_ok_iff.mp hfollow
      obtain ⟨children, hnode, -⟩ := enter_cases henter
      exact ⟨children, hnode⟩

/-! ## Two trees -/

section Beside

/-- The second trail leads to a directory at the same place as the first, in another tree. -/
structure Beside (root next : FileNode) (trail other : Trail) : Prop where
  leads : Leads root trail
  leads_other : Leads next other
  place_eq : other.place = trail.place
  node : ∃ children, trail.node = .directory children
  node_other : ∃ children, other.node = .directory children

variable {other : Trail}
  (hkeeps : ∀ place inner, root.at? place = some (.directory inner) →
    ∃ after, next.at? place = some (.directory after))

theorem place_up (trail : Trail) : trail.up.place = trail.place.dropLast := by
  obtain ⟨node, above⟩ := trail
  cases above with
  | nil => rfl
  | cons entry rest => simp [up, place]

include hkeeps in
/-- **A name leads to a directory in both trees**, if the second keeps the directories of the
first. -/
theorem Beside.enter (hbeside : Beside root next trail other)
    (henter : trail.enter name = .ok after) (hafter : ∃ inner, after.node = .directory inner) :
    ∃ beyond, other.enter name = .ok beyond ∧ Beside root next after beyond := by
  obtain ⟨others, hother⟩ := hbeside.node_other
  have hleads := hbeside.leads.enter henter
  obtain ⟨children, hnode, ⟨rfl, rfl⟩ | ⟨rfl, rfl⟩ | ⟨hname, child, hchild, rfl⟩⟩ :=
    enter_cases henter
  · refine ⟨other, ?_, hbeside⟩
    simp [Trail.enter, hother]
  · refine ⟨other.up, ?_, hleads, hbeside.leads_other.up, ?_, hafter,
      hbeside.leads_other.up_node hother⟩
    · simp [Trail.enter, hother]
    · rw [place_up, place_up, hbeside.place_eq]
  · obtain ⟨inner, rfl⟩ := hafter
    obtain ⟨kept, hkept⟩ := hkeeps _ inner hleads.at?_place
    have hnext : next.at? other.place = some (.directory others) := by
      rw [hbeside.leads_other.at?_place, hother]
    have hplace : others.lookup name = some (.directory kept) := by
      rw [← FileNode.at?_append_singleton hnext name, hbeside.place_eq, ← hkept, place_cons,
        ← hnode]
    have hparent : Leads next ⟨.directory others, other.above⟩ := by
      rw [← hother]
      exact hbeside.leads_other
    refine ⟨⟨.directory kept, (name, .directory others) :: other.above⟩, ?_, hleads,
      hparent.child hplace, ?_, ⟨inner, rfl⟩, ⟨kept, rfl⟩⟩
    · rw [enter_of_isPlain hname hother, hplace]
    · have hsame := hbeside.place_eq
      rw [place_cons, place_cons, ← hother, ← hnode]
      exact congrArg (· ++ [name]) hsame

include hkeeps in
/-- **A path leads to a directory in both trees.** -/
theorem Beside.follow (names : List String) (hbeside : Beside root next trail other)
    (hfollow : trail.follow names = .ok after) (hafter : ∃ inner, after.node = .directory inner) :
    ∃ beyond, other.follow names = .ok beyond ∧ Beside root next after beyond := by
  induction names generalizing trail other with
  | nil =>
      obtain rfl := Except.ok.inj hfollow
      exact ⟨other, rfl, hbeside⟩
  | cons name rest ih =>
      obtain ⟨step, henter, hrest⟩ := follow_cons_eq_ok_iff.mp hfollow
      obtain ⟨beyond, hother, hnext⟩ := hbeside.enter hkeeps henter (node_of_follow hrest hafter)
      obtain ⟨last, hlast, hbeyond⟩ := ih hnext hrest
      exact ⟨last, follow_cons_eq_ok_iff.mpr ⟨beyond, hother, hlast⟩, hbeyond⟩

end Beside

/-- **What is put where a path leads is found by the path.** -/
theorem follow_put {names : List String} (value : FileNode)
    (hfollow : (Trail.mk root []).follow names = .ok trail)
    (hnode : trail.node = .directory children)
    (hother : ∀ inner, children.lookup name ≠ some (.directory inner)) (hname : IsPlain name) :
    ∃ above, (Trail.mk (root.put value (trail.place ++ [name])) []).follow (names ++ [name]) =
      .ok ⟨value, above⟩ := by
  have hplace : root.at? trail.place = some (.directory children) := by
    rw [(Leads.start.follow hfollow).at?_place, hnode]
  have hput := FileNode.at?_put_self hplace name value
  have hkeeps : ∀ place inner, root.at? place = some (.directory inner) →
      ∃ after, (root.put value (trail.place ++ [name])).at? place = some (.directory after) :=
    fun place inner => FileNode.exists_directory_at?_put hplace hother
  generalize root.put value (trail.place ++ [name]) = next at hput hkeeps ⊢
  have hstart : Beside root next ⟨root, []⟩ ⟨next, []⟩ := by
    obtain ⟨inner, hroot⟩ := FileNode.eq_directory_of_at? hplace
    obtain ⟨kept, hkept⟩ := hkeeps [] inner (by rw [hroot]; rfl)
    exact ⟨.start, .start, rfl, ⟨inner, hroot⟩, ⟨kept, Option.some.inj hkept⟩⟩
  obtain ⟨beyond, hbeyond, hbeside⟩ := hstart.follow hkeeps names hfollow ⟨children, hnode⟩
  obtain ⟨others, hothers⟩ := hbeside.node_other
  -- the last name leads from the same directory to the new entry
  have hdirectory : next.at? trail.place = some (.directory others) := by
    rw [← hbeside.place_eq, hbeside.leads_other.at?_place, hothers]
  rw [FileNode.at?_append_singleton hdirectory] at hput
  refine ⟨(name, .directory others) :: beyond.above, ?_⟩
  rw [follow_append hbeyond, follow_cons_eq_ok_iff]
  exact ⟨_, by rw [enter_of_isPlain hname hothers, hput], rfl⟩

end Trail

/-! ## Writing -/

namespace FileTree

open Trail

variable {tree next : FileTree} {path text : String}

/-- The names from the root to where a path begins. -/
def origin (tree : FileTree) (path : String) : List String :=
  if Path.isAbsolute path then [] else tree.workingDirectory

theorem followFrom_eq (tree : FileTree) (path : String) (names : List String) :
    tree.followFrom path names = (Trail.mk tree.root []).follow (tree.origin path ++ names) := by
  unfold followFrom origin
  split <;> rfl

theorem resolveLast_eq_ok_iff {trail : Trail} {name : String} :
    tree.resolveLast path = .ok (trail, name) ↔
      pathFault? path = none ∧
        (Trail.mk tree.root []).follow (tree.origin path ++ (Path.names path).dropLast) =
          .ok trail ∧
        name = (Path.names path).getLastD "." := by
  rw [resolveLast]
  cases pathFault? path with
  | some fault => simp
  | none =>
      simp only [followFrom_eq]
      cases (Trail.mk tree.root []).follow (tree.origin path ++ (Path.names path).dropLast) <;>
        simp [eq_comm]

/-- A file is written into a directory, under a name that no directory has. -/
theorem writeText_cases (hwrite : tree.writeText path text = .ok next) :
    ∃ trail name children, tree.resolveLast path = .ok (trail, name) ∧ IsPlain name ∧
      trail.node = .directory children ∧
      (∀ inner, children.lookup name ≠ some (.directory inner)) ∧
      Path.endsInSlash path = false ∧
      next = tree.put (trail.place ++ [name]) (.file text) := by
  unfold writeText at hwrite
  cases hlast : tree.resolveLast path with
  | error error => simp [hlast] at hwrite
  | ok found =>
      obtain ⟨trail, name⟩ := found
      obtain ⟨-, hfollow, -⟩ := resolveLast_eq_ok_iff.mp hlast
      rw [hlast] at hwrite
      dsimp only at hwrite
      refine ⟨trail, name, ?_⟩
      split at hwrite
      next found henter =>
        split_ifs at hwrite with hdirectory
        rw [Bool.or_eq_true, not_or, Bool.not_eq_true, Bool.not_eq_true] at hdirectory
        obtain ⟨hfile, hslash⟩ := hdirectory
        have hleads : Leads tree.root trail := Leads.start.follow hfollow
        obtain ⟨children, hnode, ⟨-, rfl⟩ | ⟨-, rfl⟩ | ⟨hname, child, hchild, rfl⟩⟩ :=
          enter_cases henter
        · simp [hnode, FileNode.isDirectory] at hfile
        · obtain ⟨above, habove⟩ := hleads.up_node hnode
          simp [habove, FileNode.isDirectory] at hfile
        · refine ⟨children, rfl, hname, hnode, ?_, hslash, ?_⟩
          · rintro inner hinner
            obtain rfl := Option.some.inj (hchild.symm.trans hinner)
            cases hfile
          · rw [← Except.ok.inj hwrite, place_cons, ← hnode]
      next hmissing =>
        split_ifs at hwrite with hslash
        obtain ⟨hname, children, hnode, hnone⟩ := isPlain_of_missing hmissing
        exact ⟨children, rfl, hname, hnode, by simp [hnone], by simpa using hslash,
          (Except.ok.inj hwrite).symm⟩
      next => cases hwrite

/-- **What was written is read.** -/
theorem readText_of_writeText (hwrite : tree.writeText path text = .ok next) :
    next.readText path = .ok text := by
  obtain ⟨trail, name, children, hlast, hname, hnode, hother, hslash, rfl⟩ :=
    writeText_cases hwrite
  obtain ⟨hfault, hfollow, hlastName⟩ := resolveLast_eq_ok_iff.mp hlast
  have hnames : Path.names path = (Path.names path).dropLast ++ [name] := by
    have hnonempty : Path.names path ≠ [] := by
      intro hnil
      rw [hnil] at hlastName
      exact hname.ne_here hlastName
    rw [hlastName, List.getLastD_eq_getLast?, List.getLast?_eq_some_getLast hnonempty]
    exact (List.dropLast_append_getLast hnonempty).symm
  obtain ⟨above, hfile⟩ := follow_put (.file text) hfollow hnode hother hname
  rw [List.append_assoc, ← hnames] at hfile
  have hpath : (tree.put (trail.place ++ [name]) (.file text)).followFrom path (Path.names path) =
      .ok ⟨.file text, above⟩ :=
    (followFrom_eq _ _ _).trans hfile
  have hresolve : (tree.put (trail.place ++ [name]) (.file text)).resolve path =
      .ok ⟨.file text, above⟩ := by
    simp [resolve, hfault, hpath, hslash]
  rw [readText, hresolve]

end FileTree

end PagedCache
