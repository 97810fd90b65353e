import Mathlib.Data.List.Infix
import StackAsm.CommandLine.Directory

set_option autoImplicit false

/-!
# Writing a file leaves everything else alone

A file is written at the place that its path leads to, into a directory that is there already. So a
file that is written is read back, whichever way its path takes through the tree, and nothing at any
other place changes. Files whose paths end with different names are at different places.

## Main definitions

* `StackAsm.Directory.LeadsTo` — the place that a path leads to.
* `StackAsm.lastName?` — the name that a path ends with.

## Main results

* `StackAsm.Tree.node_put_of_ne` — nothing changes but at the place that is written.
* `StackAsm.Directory.read_eq_ok_iff`, `StackAsm.Directory.exists_of_write` — reading and writing
  are about the place that a path leads to.
* `StackAsm.Directory.read_of_write` — a file that is written is read back.
* `StackAsm.Directory.read_of_write_of_ne` — files of other names are read as before.
-/

namespace StackAsm

/-! ## The name of a file -/

/-- The last part of a path that goes down. -/
def lastName? (path : String) : Option String :=
  ((pathParts path).filter fun part => part ≠ "" ∧ part ≠ ".").getLast?

/-- Only the last name of a path matters to its extension. -/
lemma hasExtension_congr {a b : String} (same : lastName? a = lastName? b) (extension : String) :
    hasExtension extension a = hasExtension extension b := by
  unfold lastName? at same
  unfold hasExtension
  rw [same]

/-- Every path has a part, if only an empty one. -/
lemma pathParts_ne_nil (path : String) : pathParts path ≠ [] := by
  simp [pathParts, List.splitOn_ne_nil]

/-! ## Trees -/

/-- The first entry is found by its name, and the others by other names. -/
lemma lookup_entry (name other : String) (t : Tree) (entries : List (String × Tree)) :
    ((name, t) :: entries).lookup other =
      if other = name then some t else entries.lookup other := by
  rw [List.lookup_cons]
  by_cases same : other = name
  · simp [same]
  · rw [if_neg same, beq_false_of_ne same]

/-- By the name itself what is put there is found; by other names what was there before. -/
lemma lookup_setEntry (name other : String) (t : Tree) (entries : List (String × Tree)) :
    (setEntry name t entries).lookup other =
      if other = name then some t else entries.lookup other := by
  induction entries with
  | nil => rw [setEntry, lookup_entry]
  | cons entry entries ih =>
    obtain ⟨first, u⟩ := entry
    rw [setEntry, lookup_entry]
    by_cases same : first = name
    · subst same
      rw [if_pos rfl, lookup_entry]
      by_cases here : other = first <;> simp [here]
    · rw [if_neg same, lookup_entry, ih]
      by_cases here : other = first <;> simp [here, same]

namespace Tree

variable {t : Tree} {p q up down : Place} {name part : String} {parts : List String}

/-- At the root is the tree itself. -/
@[simp] lemma node_nil (t : Tree) : t.node [] = t.kind := rfl

/-- The first name leads to what is in the directory by that name. -/
lemma node_cons (t : Tree) (name : String) (way : Place) :
    t.node (name :: way) =
      match t.entries.lookup name with
      | some u => u.node way
      | none => .nothing := rfl

/-- Nothing is below a tree that is no directory. -/
lemma node_cons_of_kind_ne (other : t.kind ≠ .directory) (name : String) (way : Place) :
    t.node (name :: way) = .nothing := by
  cases t with
  | file bytes => simp [node_cons, entries]
  | directory entries => exact absurd rfl other

/-- **Whatever is there is in a directory**, and this directory in another one, up to the root. -/
theorem node_of_append (there : t.node (up ++ down) ≠ .nothing) (below : down ≠ []) :
    t.node up = .directory := by
  induction up generalizing t with
  | nil =>
    obtain ⟨name, way, rfl⟩ := List.exists_cons_of_ne_nil below
    by_contra other
    exact there (node_cons_of_kind_ne (node_nil t ▸ other) name way)
  | cons first up ih =>
    rw [List.cons_append, node_cons] at there
    rw [node_cons]
    split at there
    · exact ih there
    · exact absurd rfl there

/-! ### Writing -/

/-- A file that is put somewhere is there. -/
lemma node_put_self (bytes : Bytes) (p : Place) (t : Tree) :
    (t.put bytes p).node p = .file bytes := by
  induction p generalizing t with
  | nil => rfl
  | cons name way ih => simp [put, node_cons, entries, lookup_setEntry, ih]

/-- **Nothing else changes** when a file is put into a directory, in the place of a file or of
nothing.

**Proof sketch.** Induction on the way to the directory. Other names of the root lead where they
led before; behind the first name of the way the same is true of a smaller tree. In the directory
itself, nothing is or was behind the name of the file. -/
theorem node_put_of_ne (bytes : Bytes) (parent : t.node up = .directory)
    (free : t.node (up ++ [name]) ≠ .directory) (other : q ≠ up ++ [name]) :
    (t.put bytes (up ++ [name])).node q = t.node q := by
  induction up generalizing t q with
  | nil =>
    rw [List.nil_append] at *
    cases q with
    | nil => exact parent.symm
    | cons first way =>
      rw [put, node_cons, node_cons, entries, lookup_setEntry]
      by_cases same : first = name
      · subst same
        obtain ⟨next, way, rfl⟩ := List.exists_cons_of_ne_nil (l := way) (by simpa using other)
        rw [if_pos rfl]
        rw [node_cons] at free
        split at free
        · rename_i u found
          rw [found]
          exact (node_cons_of_kind_ne (by simp [put, kind]) ..).trans
            (node_cons_of_kind_ne (by simpa using free) ..).symm
        · rename_i found
          rw [found]
          exact node_cons_of_kind_ne (by simp [put, kind]) ..
      · rw [if_neg same]
  | cons next up ih =>
    rw [List.cons_append] at *
    cases q with
    | nil =>
      have there : t.node ([] ++ next :: up) ≠ .nothing := parent ▸ nofun
      exact (node_of_append there (List.cons_ne_nil next up)).symm
    | cons first way =>
      rw [node_cons] at parent
      rw [put, node_cons, node_cons, entries, lookup_setEntry]
      by_cases same : first = next
      · subst same
        rw [node_cons] at free
        split at parent
        · rename_i u found
          rw [found] at free ⊢
          rw [if_pos rfl]
          exact ih parent free fun equal => other (congrArg _ equal)
        · cases parent
      · rw [if_neg same]

/-! ### Following a path -/

/-- The last part of a path is followed from a directory, as every part is. -/
lemma walk_concat :
    t.walk p (parts ++ [part]) = .ok q ↔
      ∃ r, t.walk p parts = .ok r ∧ t.node r = .directory ∧ follow r part = q := by
  induction parts generalizing p with
  | nil =>
    rw [List.nil_append, walk]
    cases here : t.node p <;> simp [walk, here]
  | cons first parts ih =>
    rw [List.cons_append, walk, walk]
    cases t.node p with
    | directory => exact ih
    | file bytes => simp
    | nothing => simp

/-- A walk goes the same way wherever the same directories are there. -/
lemma walk_mono {t' : Tree} (more : ∀ r, t.node r = .directory → t'.node r = .directory)
    (walked : t.walk p parts = .ok q) : t'.walk p parts = .ok q := by
  induction parts generalizing p with
  | nil => exact walked
  | cons part parts ih =>
    rw [walk] at walked ⊢
    cases here : t.node p with
    | directory =>
      rw [here] at walked
      rw [more p here]
      exact ih walked
    | file bytes => simp [here] at walked
    | nothing => simp [here] at walked

/-- **What is no directory is entered by its own name**: a part of a path that stays in a directory
or goes up leads to a directory. -/
theorem follow_eq_of_ne (here : t.node p = .directory)
    (other : t.node (follow p part) ≠ .directory) :
    follow p part = p ++ [part] ∧ part ≠ "" ∧ part ≠ "." := by
  unfold follow at *
  split_ifs at * with stays up
  · exact absurd here other
  · rcases List.eq_nil_or_concat p with rfl | ⟨above, last, rfl⟩
    · exact absurd here other
    · rw [List.concat_eq_append] at *
      rw [List.dropLast_concat] at other
      exact absurd (node_of_append (here ▸ nofun) (List.cons_ne_nil last [])) other
  · exact ⟨rfl, not_or.1 stays⟩

end Tree

namespace Directory

variable {d d' : Directory} {p q : Place} {path part : String} {parts : List String}
  {bytes : Bytes}

/-! ## Where a path leads -/

/-- The place that a path leads to, through directories that are there. -/
def LeadsTo (d : Directory) (path : String) (p : Place) : Prop := d.find path = .ok p

instance (d : Directory) (path : String) (p : Place) : Decidable (d.LeadsTo path p) :=
  inferInstanceAs (Decidable (_ = _))

/-- A path leads to one place at most. -/
lemma LeadsTo.unique (one : d.LeadsTo path p) (other : d.LeadsTo path q) : p = q :=
  Except.ok.inj (one.symm.trans other)

/-- A path that starts somewhere has a part, and all of its parts that go down are behind the
start. -/
lemma parts_of_start {origin : Place} (starts : d.start path = .ok (origin, parts)) :
    parts ≠ [] ∧ lastName? path = (parts.filter fun part => part ≠ "" ∧ part ≠ ".").getLast? := by
  unfold start at starts
  unfold lastName?
  have nonempty := pathParts_ne_nil path
  split at starts
  · cases starts
  · rename_i others same
    cases starts
    rw [same]
    exact ⟨others, by simp⟩
  · cases starts
    exact ⟨nonempty, rfl⟩

/-- Where a path starts depends on nothing but the working directory. -/
lemma start_congr (same : d'.working = d.working) (path : String) :
    d'.start path = d.start path := by
  unfold start
  rw [same]

/-- **What is no directory bears the last name of every path to it**, and is in a directory. -/
theorem LeadsTo.exists_eq (leads : d.LeadsTo path p) (other : d.node p ≠ .directory) :
    ∃ up name, p = up ++ [name] ∧ d.node up = .directory ∧ lastName? path = some name := by
  unfold LeadsTo find at leads
  cases starts : d.start path with
  | error fault => simp [starts, bind, Except.bind] at leads
  | ok pair =>
    obtain ⟨origin, parts⟩ := pair
    rw [starts] at leads
    obtain ⟨nonempty, last⟩ := parts_of_start starts
    obtain ⟨before, part, rfl⟩ := (List.eq_nil_or_concat' parts).resolve_left nonempty
    obtain ⟨r, -, here, rfl⟩ := Tree.walk_concat.1 leads
    obtain ⟨entered, proper⟩ := Tree.follow_eq_of_ne here other
    exact ⟨r, part, entered, here, by simp [last, proper]⟩

/-! ## Reading and writing -/

/-- A file is read where its path leads. -/
theorem read_eq_ok_iff :
    d.read path = .ok bytes ↔ ∃ p, d.LeadsTo path p ∧ d.node p = .file bytes := by
  unfold read LeadsTo
  cases found : d.find path with
  | error fault => simp [bind, Except.bind]
  | ok p => cases here : d.node p <;> simp [bind, Except.bind, here]

/-- **A file is written where its path leads**, which is no directory. -/
theorem exists_of_write (written : d.write path bytes = .ok d') :
    ∃ p, d.LeadsTo path p ∧ d.node p ≠ .directory ∧ d' = d.put bytes p := by
  unfold write at written
  unfold LeadsTo find
  cases starts : d.start path with
  | error fault => simp [starts, bind, Except.bind] at written
  | ok pair =>
    obtain ⟨origin, parts⟩ := pair
    obtain ⟨before, name, rfl⟩ :=
      (List.eq_nil_or_concat' parts).resolve_left (parts_of_start starts).1
    rw [starts] at written
    dsimp only [bind, Except.bind] at written ⊢
    by_cases slash : name = ""
    · -- behind a slash at its end, a path may only name a directory
      subst slash
      simp only [List.getLast?_concat, true_or, if_true] at written
      split at written
      · cases written
      · split at written <;> cases written
    have last : (((before ++ [name]).filter (· ≠ "")).getLast?).getD "." = name := by simp [slash]
    have front : ((before ++ [name]).reverse.dropWhile (· = "")).tail.reverse = before := by
      simp [slash]
    rw [last, front] at written
    cases walked : d.root.walk origin before with
    | error fault => simp [walked] at written
    | ok parent =>
      cases here : d.node parent <;> simp only [walked, here, reduceCtorEq] at written
      split_ifs at written with ends
      exact ⟨_, Tree.walk_concat.2 ⟨parent, walked, here, rfl⟩,
        fun directory => ends (.inr directory), (Except.ok.inj written).symm⟩

section Written

variable (written : d.write path bytes = .ok d')
include written

/-- **A file that is written changes one place of the tree**, the one that its path leads to. It
holds the bytes afterwards, and everything else is as before. -/
theorem node_of_write :
    ∃ p, d.LeadsTo path p ∧ d.node p ≠ .directory ∧ d'.node p = .file bytes ∧
      (∀ q, q ≠ p → d'.node q = d.node q) ∧ d'.working = d.working := by
  obtain ⟨p, leads, free, rfl⟩ := exists_of_write written
  obtain ⟨up, name, rfl, parent, -⟩ := leads.exists_eq free
  exact ⟨_, leads, free, Tree.node_put_self .., fun q => Tree.node_put_of_ne bytes parent free, rfl⟩

/-- Every path leads where it led before. -/
lemma LeadsTo.of_write {other : String} (leads : d.LeadsTo other q) : d'.LeadsTo other q := by
  obtain ⟨p, -, free, -, same, working⟩ := node_of_write written
  have kept (r : Place) (directory : d.root.node r = .directory) : d'.root.node r = .directory := by
    refine (same r ?_).trans directory
    rintro rfl
    exact free directory
  unfold LeadsTo find at *
  rw [start_congr working]
  cases starts : d.start other with
  | error fault => simp [starts, bind, Except.bind] at leads
  | ok pair =>
    rw [starts] at leads
    exact Tree.walk_mono kept leads

/-- **A file that is written is read back.** -/
theorem read_of_write : d'.read path = .ok bytes := by
  obtain ⟨p, leads, -, here, -⟩ := node_of_write written
  exact read_eq_ok_iff.2 ⟨p, leads.of_write written, here⟩

/-- **Files of other names are read as before.** -/
theorem read_of_write_of_ne {path' : String} {bytes' : Bytes} (read : d.read path' = .ok bytes')
    (names : lastName? path' ≠ lastName? path) : d'.read path' = .ok bytes' := by
  obtain ⟨q, leads, here⟩ := read_eq_ok_iff.1 read
  obtain ⟨p, leads', free, -, same, -⟩ := node_of_write written
  refine read_eq_ok_iff.2 ⟨q, leads.of_write written, (same q ?_).trans here⟩
  rintro rfl
  obtain ⟨up, name, split, -, last⟩ := leads.exists_eq free
  obtain ⟨up', name', split', -, last'⟩ := leads'.exists_eq free
  obtain ⟨-, same⟩ := List.append_inj' (split.symm.trans split') rfl
  exact names (last.trans ((congrArg some (List.cons.inj same).1).trans last'.symm))

end Written

end Directory

end StackAsm
