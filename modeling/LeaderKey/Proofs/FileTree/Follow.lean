import LeaderKey.FileTree
import LeaderKey.Proofs.Path.Names

/-!
# Where paths lead

Following the names of a path takes it apart: `descend_append` for the names, `descend_of_find` for a
path that leads to a directory. A path is exact if it is not too long and nothing idle follows the
name of its entry; `target_of_exact` says that such a path leads to the entry that a whole file is
put into. `Within` relates a tree to one with more nodes, where every path that led somewhere leads to
the same thing (`Within.find`).
-/

namespace LeaderKey

/-- A path that is not longer than the system allows, and whose last name is that of the entry which
it names, if it names one: no slashes and dots follow. -/
structure Path.IsExact (path : String) : Prop where
  short : path.utf8ByteSize ≤ FileTree.pathLimit
  last : ∀ parent name, Path.entry? path = some (parent, name) →
    (Path.names path).getLast? = some name

namespace FileTree

variable {t : FileTree} {here place : Place}

/-- The place where a path starts. -/
def origin (t : FileTree) (path : String) : Place :=
  if Path.isAbsolute path then [] else t.workingDirectory

/-- The names of a path that are not empty. -/
def steps (path : String) : List String := (Path.names path).filter (· ≠ "")

/-! ## Names -/

/-- Names are followed one after the other. -/
theorem descend_append (first second : List String) :
    t.descend here (first ++ second) = (t.descend here first).bind (t.descend · second) := by
  induction first generalizing here with
  | nil => rfl
  | cons name rest ih =>
    rw [List.cons_append, descend, descend]
    split_ifs with hself habove
    · exact ih
    · exact ih
    · cases hnode : t.lookUp here name with
      | error e => rfl
      | ok node =>
        match node with
        | none => rfl
        | some (.file _) => rfl
        | some .directory => exact ih

/-- Following the name of a directory. -/
theorem descend_singleton {name : String} (hself : name ≠ ".") (habove : name ≠ "..")
    (h : t.lookUp here name = .ok (some .directory)) :
    t.descend here [name] = .ok (here ++ [name]) := by
  rw [descend, if_neg hself, if_neg habove, h]
  rfl

/-- Idle names lead nowhere. -/
theorem descend_idle {names : List String} (h : ∀ n ∈ names, Path.isIdle n = true) :
    t.descend here (names.filter (· ≠ "")) = .ok here := by
  induction names with
  | nil => rfl
  | cons name rest ih =>
    have hrest := ih fun n hn => h n (List.mem_cons_of_mem _ hn)
    have hname := h name List.mem_cons_self
    rw [Path.isIdle, Bool.or_eq_true, beq_iff_eq, beq_iff_eq] at hname
    rcases hname with rfl | rfl
    · rw [List.filter_cons_of_neg (by decide)]
      exact hrest
    · rw [List.filter_cons_of_pos (by decide), descend, if_pos rfl]
      exact hrest

/-! ## Paths -/

/-- What a path leads to, once it is known to be a path at all. -/
theorem target_eq {path : String} (hnull : Path.hasNull path = false) (hempty : path ≠ "")
    (hshort : path.utf8ByteSize ≤ pathLimit) :
    t.target path =
      match (steps path).getLast? with
      | none => .ok .root
      | some last => do
        let directory ← t.descend (t.origin path) (steps path).dropLast
        if last = "." then return .self directory
        else if last = ".." then return .above directory
        else return .entry directory last (Path.endsInSlash path) := by
  rw [target, hnull, if_neg Bool.false_ne_true, if_neg, if_neg (Nat.not_lt_of_le hshort)]
  · rfl
  · rw [String.isEmpty_iff]
    exact hempty

/-- What leads to something is a path. -/
theorem of_target_eq_ok {path : String} {x : Target} (h : t.target path = .ok x) :
    Path.hasNull path = false ∧ path ≠ "" ∧ path.utf8ByteSize ≤ pathLimit := by
  rw [target] at h
  by_cases hnull : Path.hasNull path = true
  · rw [if_pos hnull] at h
    cases h
  · rw [if_neg hnull] at h
    by_cases hempty : path.isEmpty = true
    · rw [if_pos hempty] at h
      cases h
    · rw [if_neg hempty] at h
      by_cases hlong : pathLimit < path.utf8ByteSize
      · rw [if_pos hlong] at h
        cases h
      · refine ⟨Bool.not_eq_true _ ▸ hnull, ?_, Nat.le_of_not_lt hlong⟩
        rintro rfl
        exact hempty rfl

/-- A path without steps is made of slashes, so it starts at the root. -/
theorem origin_of_steps_eq_nil {path : String} (hempty : path ≠ "") (h : steps path = []) :
    t.origin path = [] := by
  have hall : ∀ n ∈ Path.names path, n = "" := by
    intro n hn
    by_contra hne
    exact List.filter_eq_nil_iff.1 h n hn (decide_eq_true hne)
  have habsolute : Path.isAbsolute path = true := by
    rw [Path.isAbsolute_iff]
    match hnames : Path.names path with
    | [] => exact absurd hnames (Path.names_ne_nil path)
    | [n] =>
      rw [← Path.intercalate_names path, hnames, String.intercalate_singleton] at hempty
      exact absurd (hall n (hnames ▸ List.mem_cons_self)) hempty
    | first :: n :: ns =>
      have hfirst := hall first (hnames ▸ List.mem_cons_self)
      exact ⟨n, ns, by rw [hfirst]⟩
  rw [origin, if_pos habsolute]

/-- What the steps of a path have to be for it to lead to a target. -/
def Reaches (t : FileTree) (path : String) : Target → Prop
  | .root => steps path = []
  | .self directory => ∃ before, steps path = before ++ ["."] ∧
      t.descend (t.origin path) before = .ok directory
  | .above directory => ∃ before, steps path = before ++ [".."] ∧
      t.descend (t.origin path) before = .ok directory
  | .entry directory name slash => ∃ before, steps path = before ++ [name] ∧ name ≠ "." ∧
      name ≠ ".." ∧ t.descend (t.origin path) before = .ok directory ∧
      slash = Path.endsInSlash path

/-- A path leads to a target with its steps. -/
theorem reaches_of_target {path : String} {x : Target} (h : t.target path = .ok x) :
    t.Reaches path x := by
  obtain ⟨hnull, hempty, hshort⟩ := of_target_eq_ok h
  rw [target_eq hnull hempty hshort] at h
  -- The last step says what kind of target it is, and the steps before it where that is.
  match hlast : (steps path).getLast? with
  | none =>
    rw [hlast] at h
    cases h
    exact List.getLast?_eq_none_iff.1 hlast
  | some last =>
    obtain ⟨before, hsteps⟩ := List.getLast?_eq_some_iff.1 hlast
    rw [hlast, hsteps, List.dropLast_concat] at h
    cases hdescend : t.descend (t.origin path) before with
    | error e =>
      rw [hdescend] at h
      cases h
    | ok directory =>
      rw [hdescend] at h
      by_cases hself : last = "."
      · subst hself
        cases h
        exact ⟨before, hsteps, hdescend⟩
      · by_cases habove : last = ".."
        · subst habove
          cases h
          exact ⟨before, hsteps, hdescend⟩
        · change (if last = "." then Except.ok (Target.self directory)
            else if last = ".." then .ok (.above directory)
            else .ok (.entry directory last (Path.endsInSlash path))) = .ok x at h
          rw [if_neg hself, if_neg habove] at h
          cases h
          exact ⟨before, hsteps, hself, habove, hdescend, rfl⟩

/-- The steps of a path that leads to a directory lead there. -/
theorem descend_of_find {path : String} (h : t.find path = .ok (place, .directory)) :
    t.descend (t.origin path) (steps path) = .ok place := by
  rw [find] at h
  cases htarget : t.target path with
  | error e =>
    rw [htarget] at h
    cases h
  | ok x =>
    have hreaches := reaches_of_target htarget
    rw [htarget] at h
    -- The root and what dots name are directories as such; an entry has to be looked up.
    cases x with
    | root =>
      cases h
      have hempty := (of_target_eq_ok htarget).2.1
      rw [hreaches, origin_of_steps_eq_nil hempty hreaches]
      rfl
    | self directory =>
      cases h
      obtain ⟨before, hsteps, hdescend⟩ := hreaches
      rw [hsteps, descend_append, hdescend]
      rfl
    | above directory =>
      cases h
      obtain ⟨before, hsteps, hdescend⟩ := hreaches
      rw [hsteps, descend_append, hdescend]
      rfl
    | entry directory name slash =>
      obtain ⟨before, hsteps, hself, habove, hdescend, -⟩ := hreaches
      rw [hsteps, descend_append, hdescend]
      cases hnode : t.lookUp directory name with
      | error e =>
        simp only [bind, Except.bind, hnode] at h
        cases h
      | ok node =>
        simp only [bind, Except.bind, hnode] at h
        match node with
        | none => cases h
        | some (.file content) =>
          cases slash with
          | true => cases h
          | false => cases h
        | some .directory =>
          cases h
          exact descend_singleton hself habove hnode

/-! ## Exact paths -/

/-- The path of the directory of an entry starts where the path of the entry does, and the steps to
the directory are those before the entry, up to idle ones. -/
theorem descend_of_directory {path parent name : String} {before : List String}
    (hnames : Path.names path = before ++ [name]) (hdirectory : Path.Directory path before parent)
    (h : t.find parent = .ok (place, .directory)) :
    t.descend (t.origin path) (before.filter (· ≠ "")) = .ok place := by
  have hdescend := descend_of_find h
  cases hdirectory with
  | start hidle =>
    rw [descend_idle hidle]
    cases habsolute : Path.isAbsolute path with
    | true =>
      rw [habsolute] at hdescend
      have hroot : t.descend (t.origin "/") (steps "/") = .ok [] := rfl
      rw [if_pos rfl, hroot] at hdescend
      rw [origin, if_pos habsolute, hdescend]
    | false =>
      rw [habsolute] at hdescend
      have hhere : t.descend (t.origin ".") (steps ".") = .ok t.workingDirectory := rfl
      rw [if_neg Bool.false_ne_true, hhere] at hdescend
      rw [origin, if_neg (by rw [habsolute]; exact Bool.false_ne_true), hdescend]
  | @names kept idle last hbefore hidle hlast =>
    -- The parent is written with the names that are kept, so it has their steps and the same origin.
    have hslash : ∀ n ∈ kept ++ [last], '/' ∉ n.toList := fun n hn => by
      suffices hmem : n ∈ Path.names path from Path.slash_not_mem hmem
      rw [hnames, hbefore]
      exact List.mem_append_left _ (List.mem_append_left _ hn)
    have hparent : Path.names ("/".intercalate (kept ++ [last])) = kept ++ [last] :=
      Path.names_intercalate (List.concat_ne_nil last kept) hslash
    have hne : last ≠ "" := by
      rintro rfl
      cases hlast
    have horigin : t.origin ("/".intercalate (kept ++ [last])) = t.origin path := by
      rw [hbefore, List.append_assoc] at hnames
      rw [origin, origin, Path.isAbsolute_congr hparent hnames hne]
    rw [horigin, steps, hparent] at hdescend
    rw [hbefore, List.filter_append, descend_append, hdescend]
    exact descend_idle hidle

/-- A path without the null character in the name of its entry and in the directory of it has none
at all: the idle names between them cannot hold it. -/
theorem hasNull_eq_false {path parent name : String} {before : List String}
    (hnames : Path.names path = before ++ [name]) (hdirectory : Path.Directory path before parent)
    (hparent : Path.hasNull parent = false) (hname : Path.hasNull name = false) :
    Path.hasNull path = false := by
  have hidle : ∀ n, Path.isIdle n = true → '\x00' ∉ n.toList := by
    intro n hn
    rw [Path.isIdle, Bool.or_eq_true, beq_iff_eq, beq_iff_eq] at hn
    rcases hn with rfl | rfl <;> decide
  rw [Path.hasNull, ← Bool.not_eq_true, List.contains_iff_mem] at *
  intro hnull
  rcases Path.mem_path hnull with hslash | ⟨n, hn, hc⟩
  · exact absurd hslash (by decide)
  · rw [hnames, List.mem_append, List.mem_singleton] at hn
    rcases hn with hn | rfl
    · cases hdirectory with
      | start hall => exact hidle n (hall n hn) hc
      | @names kept idle last hbefore hall hlast =>
        rw [hbefore, List.mem_append] at hn
        rcases hn with hn | hn
        · exact hparent (Path.mem_intercalate hn hc)
        · exact hidle n (hall n hn) hc
    · exact hname hc

/-- An exact path leads to the entry that it names, in the directory to which the path of the
directory leads. -/
theorem target_of_exact {path parent name : String} (hexact : Path.IsExact path)
    (hentry : Path.entry? path = some (parent, name))
    (hparent : t.find parent = .ok (place, .directory))
    (hnull : Path.hasNull parent = false) (hname : Path.hasNull name = false) :
    t.target path = .ok (.entry place name false) := by
  obtain ⟨before, hnames, hidle, habove, hdirectory⟩ :=
    Path.entry?_exact hentry (hexact.last parent name hentry)
  rw [Path.isIdle, Bool.or_eq_false_iff, beq_eq_false_iff_ne, beq_eq_false_iff_ne] at hidle
  have hempty : path ≠ "" := by
    rintro rfl
    have hnone : Path.entry? "" = none := by decide
    rw [hnone] at hentry
    cases hentry
  have hsteps : steps path = before.filter (· ≠ "") ++ [name] := by
    have hkept : [name].filter (· ≠ "") = [name] := by simp [hidle.1]
    rw [steps, hnames, List.filter_append, hkept]
  have hslash : Path.endsInSlash path = false := Path.endsInSlash_eq_false hnames hidle.1
  rw [target_eq (hasNull_eq_false hnames hdirectory hnull hname) hempty hexact.short, hsteps,
    List.getLast?_concat, List.dropLast_concat, hslash]
  dsimp only
  rw [descend_of_directory hnames hdirectory hparent]
  change (if name = "." then Except.ok (Target.self place)
    else if name = ".." then .ok (.above place) else .ok (.entry place name false)) = _
  rw [if_neg hidle.2, if_neg habove]

/-! ## Trees with more nodes -/

/-- One tree is within another if this has every node of it, at the same place. -/
structure Within (before after : FileTree) : Prop where
  workingDirectory : after.workingDirectory = before.workingDirectory
  node : ∀ {p : Place} {n : Node}, before.node? p = some n → after.node? p = some n

/-- A tree is within itself. -/
theorem Within.refl (t : FileTree) : Within t t := ⟨rfl, fun h => h⟩

/-- Being within is transitive. -/
theorem Within.trans {a b c : FileTree} (hab : Within a b) (hbc : Within b c) : Within a c :=
  ⟨hbc.workingDirectory.trans hab.workingDirectory, fun h => hbc.node (hab.node h)⟩

/-- A tree is within what it becomes when something is put at a place where nothing was. -/
theorem Within.put {p : Place} (hp : p ≠ []) (hnone : t.node? p = none) (n : Node) :
    Within t (t.put p n) := by
  refine ⟨rfl, fun {q m} h => ?_⟩
  rw [node?_put t hp]
  by_cases hq : q = p
  · rw [hq, hnone] at h
    cases h
  · rw [if_neg hq, h]

variable {before after : FileTree}

/-- What a name leads to is still there in a tree with more nodes. -/
theorem Within.lookUp (h : Within before after) {name : String} {n : Node}
    (hn : before.lookUp here name = .ok (some n)) : after.lookUp here name = .ok (some n) := by
  rw [FileTree.lookUp] at hn ⊢
  split_ifs at hn ⊢ with hlong
  exact congrArg Except.ok (h.node (Except.ok.inj hn))

/-- Names lead where they led. -/
theorem Within.descend (h : Within before after) {names : List String}
    (hd : before.descend here names = .ok place) : after.descend here names = .ok place := by
  induction names generalizing here with
  | nil => exact hd
  | cons name rest ih =>
    rw [FileTree.descend] at hd ⊢
    by_cases hself : name = "."
    · rw [if_pos hself] at hd ⊢
      exact ih hd
    · rw [if_neg hself] at hd ⊢
      by_cases habove : name = ".."
      · rw [if_pos habove] at hd ⊢
        exact ih hd
      · rw [if_neg habove] at hd ⊢
        cases hnode : before.lookUp here name with
        | error e =>
          rw [hnode] at hd
          cases hd
        | ok node =>
          rw [hnode] at hd
          match node with
          | none => cases hd
          | some (.file _) => cases hd
          | some .directory =>
            rw [h.lookUp hnode]
            exact ih hd

/-- A path has the target that it had. -/
theorem Within.target (h : Within before after) {path : String} {x : Target}
    (hx : before.target path = .ok x) : after.target path = .ok x := by
  obtain ⟨hnull, hempty, hshort⟩ := of_target_eq_ok hx
  have horigin : after.origin path = before.origin path := by
    rw [origin, origin, h.workingDirectory]
  rw [target_eq hnull hempty hshort] at hx ⊢
  rw [horigin]
  match hlast : (steps path).getLast? with
  | none =>
    rw [hlast] at hx
    exact hx
  | some last =>
    rw [hlast] at hx
    dsimp only at hx ⊢
    cases hdescend : before.descend (before.origin path) (steps path).dropLast with
    | error e =>
      rw [hdescend] at hx
      cases hx
    | ok directory =>
      rw [hdescend] at hx
      rw [h.descend hdescend]
      exact hx

/-- A path that led to something leads to the same. -/
theorem Within.find (h : Within before after) {path : String} {found : Place × Node}
    (hf : before.find path = .ok found) : after.find path = .ok found := by
  rw [FileTree.find] at hf ⊢
  cases htarget : before.target path with
  | error e =>
    rw [htarget] at hf
    cases hf
  | ok x =>
    rw [htarget] at hf
    rw [h.target htarget]
    cases x with
    | root => exact hf
    | self directory => exact hf
    | above directory => exact hf
    | entry directory name slash =>
      cases hnode : before.lookUp directory name with
      | error e =>
        simp only [bind, Except.bind, hnode] at hf
        cases hf
      | ok node =>
        match node with
        | none =>
          simp only [bind, Except.bind, hnode] at hf
          cases hf
        | some n =>
          have hafter := h.lookUp hnode
          simp only [bind, Except.bind, hnode] at hf
          simp only [bind, Except.bind, hafter]
          exact hf

end FileTree

end LeaderKey
