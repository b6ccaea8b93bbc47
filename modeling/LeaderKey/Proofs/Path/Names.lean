import LeaderKey.Path
import Mathlib.Data.List.DropRight
import Mathlib.Data.List.TakeWhile

/-!
# The names of a path

The names of a path, joined with slashes, are the path (`intercalate_names`), and slashes join every
list of names without slashes to a path with these names (`names_intercalate`). `entry?_exact` says
what `entry?` makes of a path whose last name is the name of its entry: the directory is the path of
the names before it, without the idle ones at their end.
-/

namespace LeaderKey.Path

/-! ## Names and slashes -/

/-- A piece that holds no separator goes as far as the first one. -/
theorem split_append_cons {separator : Char} {piece : List Char} (h : separator ∉ piece)
    (rest : List Char) :
    Text.split separator (piece ++ separator :: rest) =
      (piece, (Text.split separator rest).1 :: (Text.split separator rest).2) := by
  induction piece with
  | nil => rw [List.nil_append, Text.split, if_pos rfl]
  | cons c piece ih =>
    obtain ⟨hne, hpiece⟩ := List.ne_and_not_mem_of_not_mem_cons h
    rw [List.cons_append, Text.split, if_neg (Ne.symm hne), ih hpiece]

/-- A text that holds no separator is its only piece. -/
theorem split_of_not_mem {separator : Char} {text : List Char} (h : separator ∉ text) :
    Text.split separator text = (text, []) := by
  induction text with
  | nil => rfl
  | cons c rest ih =>
    obtain ⟨hne, hrest⟩ := List.ne_and_not_mem_of_not_mem_cons h
    rw [Text.split, if_neg (Ne.symm hne), ih hrest]

/-- No piece holds the separator. -/
theorem separator_not_mem {separator : Char} (text : List Char) :
    ∀ piece ∈ (Text.split separator text).1 :: (Text.split separator text).2,
      separator ∉ piece := by
  induction text with
  | nil =>
    intro piece hpiece
    rw [List.mem_singleton.1 hpiece]
    exact List.not_mem_nil
  | cons c rest ih =>
    intro piece hpiece
    rw [Text.split] at hpiece
    by_cases hc : c = separator
    · rw [if_pos hc] at hpiece
      rcases List.mem_cons.1 hpiece with rfl | hpiece
      · exact List.not_mem_nil
      · exact ih piece hpiece
    · rw [if_neg hc] at hpiece
      rcases List.mem_cons.1 hpiece with rfl | hpiece
      · exact List.not_mem_cons_of_ne_of_not_mem (Ne.symm hc) (ih _ List.mem_cons_self)
      · exact ih piece (List.mem_cons_of_mem _ hpiece)

/-- No name of a path holds a slash. -/
theorem slash_not_mem {path name : String} (h : name ∈ names path) : '/' ∉ name.toList := by
  obtain ⟨piece, hpiece, rfl⟩ := List.mem_map.1 h
  rw [String.toList_ofList]
  exact separator_not_mem _ piece hpiece

/-- A path has a name, which may be empty. -/
theorem names_ne_nil (path : String) : names path ≠ [] := List.cons_ne_nil _ _

/-- Names without slashes are the names of the path that slashes make of them. -/
theorem names_intercalate {ns : List String} (hne : ns ≠ []) (h : ∀ n ∈ ns, '/' ∉ n.toList) :
    names ("/".intercalate ns) = ns := by
  induction ns with
  | nil => contradiction
  | cons n rest ih =>
    have hn : '/' ∉ n.toList := h n List.mem_cons_self
    by_cases hrest : rest = []
    · rw [hrest, String.intercalate_singleton, names, Text.pieces, split_of_not_mem hn,
        List.map_singleton, String.ofList_toList]
    · have htail := ih hrest fun m hm => h m (List.mem_cons_of_mem _ hm)
      have htext : ("/".intercalate (n :: rest)).toList =
          n.toList ++ '/' :: ("/".intercalate rest).toList := by
        rw [String.intercalate_cons_of_ne_nil hrest, String.append_assoc, String.toList_append,
          String.toList_append]
        rfl
      rw [names, Text.pieces, htext, split_append_cons hn, List.map_cons, String.ofList_toList]
      exact congrArg (n :: ·) htail

/-- Slashes make the path of its names. -/
theorem intercalate_names (path : String) : "/".intercalate (names path) = path := by
  refine String.toList_inj.1 ?_
  have hjoin := Text.join_split '/' path.toList
  generalize hsplit : Text.split '/' path.toList = parts at hjoin
  obtain ⟨first, rest⟩ := parts
  have hnames : names path = String.ofList first :: rest.map String.ofList := by
    rw [names, Text.pieces, hsplit, List.map_cons]
  rw [hnames, ← hjoin]
  clear hnames hsplit hjoin
  -- The text is the first name and then, for each further one, a slash and the name.
  induction rest generalizing first with
  | nil => rw [List.map_nil, String.intercalate_singleton, String.toList_ofList]; simp
  | cons second rest ih =>
    rw [List.map_cons, String.intercalate_cons_cons, String.toList_append, String.toList_append,
      String.toList_ofList, ih second, List.flatMap_cons]
    simp

/-- The text of a path is made of its names and slashes. -/
theorem mem_path {path : String} {c : Char} (h : c ∈ path.toList) :
    c = '/' ∨ ∃ n ∈ names path, c ∈ n.toList := by
  rw [← intercalate_names path] at h
  generalize names path = ns at h
  induction ns with
  | nil => exact absurd h List.not_mem_nil
  | cons n rest ih =>
    by_cases hrest : rest = []
    · rw [hrest, String.intercalate_singleton] at h
      exact Or.inr ⟨n, List.mem_cons_self, h⟩
    · rw [String.intercalate_cons_of_ne_nil hrest, String.toList_append, String.toList_append,
        List.mem_append, List.mem_append] at h
      rcases h with (hn | hslash) | htail
      · exact Or.inr ⟨n, List.mem_cons_self, hn⟩
      · exact Or.inl (List.mem_singleton.1 hslash)
      · rcases ih htail with hslash | ⟨m, hm, hc⟩
        · exact Or.inl hslash
        · exact Or.inr ⟨m, List.mem_cons_of_mem _ hm, hc⟩

/-- The text of each of some names is part of the path that slashes make of them. -/
theorem mem_intercalate {ns : List String} {n : String} {c : Char} (hn : n ∈ ns)
    (hc : c ∈ n.toList) : c ∈ ("/".intercalate ns).toList := by
  induction ns with
  | nil => cases hn
  | cons first rest ih =>
    by_cases hrest : rest = []
    · subst hrest
      rw [List.mem_singleton] at hn
      rwa [String.intercalate_singleton, ← hn]
    · rw [String.intercalate_cons_of_ne_nil hrest, String.toList_append, String.toList_append]
      rcases List.mem_cons.1 hn with rfl | hn
      · exact List.mem_append_left _ (List.mem_append_left _ hc)
      · exact List.mem_append_right _ (ih hn)

/-- A path starts at the root if its first name is empty and another one follows. -/
theorem isAbsolute_iff {path : String} :
    isAbsolute path = true ↔ ∃ n ns, names path = "" :: n :: ns := by
  rw [isAbsolute, beq_iff_eq, names, Text.pieces]
  cases path.toList with
  | nil => simp [Text.split]
  | cons c rest =>
    rw [List.head?_cons, Option.some.injEq, Text.split]
    by_cases hc : c = '/'
    · rw [if_pos hc]
      exact iff_of_true hc ⟨_, _, rfl⟩
    · rw [if_neg hc]
      refine iff_of_false hc ?_
      rintro ⟨n, ns, heq⟩
      have hfirst := (List.cons.inj heq).1
      have hempty := congrArg String.toList hfirst
      rw [String.toList_ofList] at hempty
      exact List.cons_ne_nil _ _ hempty

/-- Whether a path starts at the root shows in its names up to one that is not empty. -/
theorem isAbsolute_congr {p q last : String} {kept after : List String}
    (hp : names p = kept ++ [last]) (hq : names q = kept ++ [last] ++ after) (hlast : last ≠ "") :
    isAbsolute p = isAbsolute q := by
  rw [Bool.eq_iff_iff, isAbsolute_iff, isAbsolute_iff, hp, hq]
  match kept with
  | [] =>
    refine iff_of_false ?_ ?_
    · rintro ⟨n, ns, heq⟩
      exact hlast (List.cons.inj heq).1
    · rintro ⟨n, ns, heq⟩
      exact hlast (List.cons.inj heq).1
  | first :: kept =>
    have hcons (rest : List String) : (∃ n ns, first :: (kept ++ [last] ++ rest) = "" :: n :: ns) ↔
        first = "" := by
      cases kept <;> simp
    have hnil := hcons []
    rw [List.append_nil] at hnil
    exact hnil.trans (hcons after).symm

/-- No slashes follow a last name that is not empty. -/
theorem endsInSlash_eq_false {path name : String} {before : List String}
    (h : names path = before ++ [name]) (hname : name ≠ "") : endsInSlash path = false := by
  have hmem : name ∈ names path := h ▸ List.mem_append_right before List.mem_cons_self
  have hlist : name.toList ≠ [] := fun hnil => hname (String.toList_inj.1 hnil)
  have hend : path.toList.getLast? = name.toList.getLast? := by
    rw [← intercalate_names path, h]
    by_cases hbefore : before = []
    · rw [hbefore, List.nil_append, String.intercalate_singleton]
    · rw [String.intercalate_append_of_ne_nil hbefore (List.cons_ne_nil _ _),
        String.intercalate_singleton, String.toList_append, List.getLast?_append_of_ne_nil _ hlist]
  have hslash : path.toList.getLast? ≠ some '/' := by
    rw [hend]
    exact fun hlast => slash_not_mem hmem (List.mem_of_getLast? hlast)
  exact beq_eq_false_iff_ne.2 hslash

/-! ## The entry of a path -/

/-- The first item that is not dropped fails the test. -/
theorem not_of_dropWhile_eq_cons {α : Type} {p : α → Bool} {l rest : List α} {a : α}
    (h : l.dropWhile p = a :: rest) : p a = false := by
  have hne : l.dropWhile p ≠ [] := by rw [h]; exact List.cons_ne_nil a rest
  have hhead := List.head_dropWhile_not p hne
  simpa only [h, List.head_cons] using hhead

/-- Dropped from the end of a list are items that pass the test. -/
theorem reverse_dropWhile_reverse {α : Type} (p : α → Bool) (l : List α) :
    ∃ idle, l = (l.reverse.dropWhile p).reverse ++ idle ∧ ∀ a ∈ idle, p a = true := by
  refine ⟨(l.reverse.takeWhile p).reverse, ?_, fun a ha => ?_⟩
  · rw [← List.reverse_append, List.takeWhile_append_dropWhile, List.reverse_reverse]
  · exact List.mem_takeWhile_imp (List.mem_reverse.1 ha)

/-- How the directory of an entry is written: as the names before the entry up to the last one that
is not idle, or as the place where the path starts if all are idle. -/
inductive Directory (path : String) (before : List String) : String → Prop
  | start (hidle : ∀ n ∈ before, isIdle n = true) :
      Directory path before (if isAbsolute path then "/" else ".")
  | names {kept idle : List String} {last : String} (hbefore : before = kept ++ [last] ++ idle)
      (hidle : ∀ n ∈ idle, isIdle n = true) (hlast : isIdle last = false) :
      Directory path before ("/".intercalate (kept ++ [last]))

/-- The directory that `entry?` writes down for the names before an entry. -/
theorem directory_of_before (path : String) (before : List String) :
    Directory path before (match before.reverse.dropWhile isIdle with
      | [] => if isAbsolute path then "/" else "."
      | last :: rest => "/".intercalate (last :: rest).reverse) := by
  obtain ⟨idle, hbefore, hidle⟩ := reverse_dropWhile_reverse isIdle before
  match hdrop : before.reverse.dropWhile isIdle with
  | [] =>
    rw [hdrop, List.reverse_nil, List.nil_append] at hbefore
    exact .start (hbefore ▸ hidle)
  | last :: rest =>
    rw [hdrop, List.reverse_cons] at hbefore
    dsimp only
    rw [List.reverse_cons]
    exact .names hbefore hidle (not_of_dropWhile_eq_cons hdrop)

/-- The entry of a path whose last name is the name of the entry. -/
theorem entry?_exact {path parent name : String} (hentry : entry? path = some (parent, name))
    (hlast : (names path).getLast? = some name) :
    ∃ before, names path = before ++ [name] ∧ isIdle name = false ∧ name ≠ ".." ∧
      Directory path before parent := by
  obtain ⟨before, hnames⟩ : ∃ before, names path = before ++ [name] :=
    List.getLast?_eq_some_iff.1 hlast
  unfold entry? at hentry
  rw [hnames, List.reverse_append, List.reverse_singleton, List.singleton_append] at hentry
  -- The name of an entry is not idle, so no name at the end was dropped.
  have hname : isIdle name = false := by
    by_contra hidle
    rw [Bool.not_eq_false] at hidle
    match hdrop : (name :: before.reverse).dropWhile isIdle with
    | [] =>
      rw [hdrop] at hentry
      cases hentry
    | found :: rest =>
      rw [hdrop] at hentry
      obtain ⟨-, hfound⟩ := Option.ite_none_left_eq_some.1 hentry
      obtain ⟨-, rfl⟩ := Prod.mk.inj (Option.some.inj hfound)
      rw [not_of_dropWhile_eq_cons hdrop] at hidle
      cases hidle
  rw [List.dropWhile_cons_of_neg (by rw [hname]; exact Bool.false_ne_true)] at hentry
  obtain ⟨hup, hparent⟩ := Option.ite_none_left_eq_some.1 hentry
  obtain ⟨rfl, -⟩ := Prod.mk.inj (Option.some.inj hparent)
  exact ⟨before, hnames, hname, hup, directory_of_before path before⟩

end LeaderKey.Path
