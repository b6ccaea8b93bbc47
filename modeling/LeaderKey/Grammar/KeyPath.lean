import LeaderKey.Grammar.Scalar

/-!
# Key paths

The name of a field is a path of keys with dots between them: `a`, `"a b"`, `a.b.c`. A key is a
quoted text or a run of key characters; a dot inside quotes separates nothing. A dot that no key
follows does not belong to the path.
-/

namespace LeaderKey.Grammar

/-- Reads one key, if one begins here. -/
def key : List Char → Attempt (List Char)
  | '"' :: rest => (quotedBody rest).map some
  | s =>
    match s.takeWhile isKeyChar with
    | [] => .ok none
    | name => .ok (some (name, s.dropWhile isKeyChar))

/-- The text after a key is a suffix of the text with it, and shorter. -/
theorem key_suffix {s rest name : List Char} (h : key s = .ok (some (name, rest))) :
    rest <:+ s ∧ rest.length < s.length := by
  unfold key at h
  split at h
  · rename_i r
    cases hb : quotedBody r with
    | error f => simp [hb, Except.map] at h
    | ok p =>
      simp only [hb, Except.map, Except.ok.injEq, Option.some.injEq] at h
      subst h
      have := quotedBody_suffix hb
      exact ⟨this.1.trans (List.suffix_cons _ _), by simp; omega⟩
  · split at h
    · simp at h
    · rename_i hne
      cases h
      have happ := List.takeWhile_append_dropWhile (p := isKeyChar) (l := s)
      have hpos := List.length_pos_iff.2 (show s.takeWhile isKeyChar ≠ [] from hne)
      have hlen := congrArg List.length happ
      rw [List.length_append] at hlen
      exact ⟨List.dropWhile_suffix _, by omega⟩

/-- Reads the keys that follow the first one of a path, each with the dot before it. -/
def moreKeys : (s : List Char) → Result (List String)
  | '.' :: s =>
    match _ : key s with
    | .error fault => .error fault
    | .ok none => .ok ([], '.' :: s)
    | .ok (some (name, rest)) =>
      (moreKeys rest).map fun (names, after) => (String.ofList name :: names, after)
  | s => .ok ([], s)
termination_by s => s.length
decreasing_by
  have := (key_suffix ‹key _ = _›).2
  simp only [List.length_cons]
  omega

/-- The text after further keys is a suffix of the text with them. -/
theorem moreKeys_suffix {s rest : List Char} {names : List String}
    (h : moreKeys s = .ok (names, rest)) : rest <:+ s := by
  fun_induction moreKeys s generalizing names with
  | case1 => simp at h
  | case2 => cases h; exact List.suffix_refl _
  | case3 s name r hk ih =>
    cases hm : moreKeys r with
    | error f => simp [hm, Except.map] at h
    | ok p =>
      simp only [hm, Except.map, Except.ok.injEq, Prod.mk.injEq] at h
      obtain ⟨-, rfl⟩ := h
      exact ((ih hm).trans (key_suffix hk).1).trans (List.suffix_cons _ _)
  | case4 => cases h; exact List.suffix_refl _

/-- Reads a key path, if one begins here. -/
def keyPath (s : List Char) : Attempt (List String) :=
  match key s with
  | .error fault => .error fault
  | .ok none => .ok none
  | .ok (some (name, rest)) =>
    (moreKeys rest).map fun (names, after) => some (String.ofList name :: names, after)

/-- The text after a key path is a suffix of the text with it, and shorter. -/
theorem keyPath_suffix {s rest : List Char} {path : List String}
    (h : keyPath s = .ok (some (path, rest))) : rest <:+ s ∧ rest.length < s.length := by
  unfold keyPath at h
  split at h
  · simp at h
  · simp at h
  · rename_i name r hk
    cases hm : moreKeys r with
    | error f => simp [hm, Except.map] at h
    | ok p =>
      simp only [hm, Except.map, Except.ok.injEq, Option.some.injEq, Prod.mk.injEq] at h
      obtain ⟨-, rfl⟩ := h
      have h1 := key_suffix hk
      have h2 := moreKeys_suffix hm
      exact ⟨h2.trans h1.1, Nat.lt_of_le_of_lt h2.length_le h1.2⟩

end LeaderKey.Grammar
