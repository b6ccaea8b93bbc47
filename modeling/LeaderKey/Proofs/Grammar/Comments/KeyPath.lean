import LeaderKey.Proofs.Grammar.Comments.Token

/-!
# Key paths without comments

A bare key may hold two slashes, and then the scan for comments takes the end of the line away and
the key with it. These are all the key paths that go wrong: one that `strip` leaves as it is stays
where it stood (`keyPath_strip`), and a key path that stands in a text without comments, with a
value behind it, stood in the text before (`keyPath_of_strip`).
-/

namespace LeaderKey.Grammar

open LeaderKey.Text

/-- A text does not grow when its comments are taken out. -/
theorem length_strip_le (context : Context) (s : List Char) :
    (strip context s).length ≤ s.length := by
  fun_induction strip context s <;> simp only [List.length_cons, List.length_nil] <;> omega

/-! ## Pieces that stay as they are -/

/-- The scan for comments leaves this piece of a text as it is and is outside of quotes behind it,
whatever follows, unless that joins its end to a comment mark or to triple quotes. -/
def Passes (piece : List Char) : Prop :=
  ∀ rest, rest.head? ≠ some '/' → rest.head? ≠ some '"' →
    strip .plain (piece ++ rest) = piece ++ strip .plain rest

/-- The empty piece stays. -/
theorem Passes.nil : Passes [] := fun _ _ _ => rfl

/-- A piece that stays, stays alone. -/
theorem Passes.strip_eq {piece : List Char} (h : Passes piece) : strip .plain piece = piece := by
  have halone := h [] nofun nofun
  rwa [List.append_nil, strip, List.append_nil] at halone

/-- Two pieces that stay, one behind the other, stay. -/
theorem Passes.append {piece more : List Char} (h : Passes piece) (hmore : Passes more)
    (hslash : more.head? ≠ some '/') (hquote : more.head? ≠ some '"') :
    Passes (piece ++ more) := by
  intro rest hrest hrest'
  have hhead {d : Char} (hm : more.head? ≠ some d) (hr : rest.head? ≠ some d) :
      (more ++ rest).head? ≠ some d := by
    cases more with
    | nil => exact hr
    | cons c more => exact hm
  rw [List.append_assoc, h _ (hhead hslash hrest) (hhead hquote hrest'), hmore rest hrest hrest',
    List.append_assoc]

/-- A piece with a dot before it stays. -/
theorem Passes.dot {piece : List Char} (h : Passes piece) : Passes ('.' :: piece) := by
  intro rest hrest hrest'
  rw [List.cons_append, strip_solid (by decide) (by decide) (by decide), h rest hrest hrest']
  rfl

/-- The places of an escape hold no quote and no backslash. -/
theorem exists_places_of_escape {e x : Char} {s rest : List Char}
    (h : escape (e :: s) = .ok (x, rest)) :
    ∃ places, s = places ++ rest ∧ ∀ c ∈ places, c ≠ '"' ∧ c ≠ '\\' := by
  by_cases hu : e = 'u'
  · subst hu
    obtain ⟨a, b, c, d, rfl, hscalar⟩ := escape_u_eq_ok.1 h
    exact ⟨_, rfl, fun y hy => ne_of_escapedScalar? hscalar hy⟩
  · unfold escape at h
    dsimp only at h
    rw [if_neg hu] at h
    split at h
    · cases h
      exact ⟨[], rfl, nofun⟩
    · cases h

/-- A quoted text stays, and is over behind its closing quote. -/
theorem strip_quoted_append {b rest text : List Char}
    (h : quotedBody (b ++ rest) = .ok (text, rest)) (rest' : List Char) :
    strip .quoted (b ++ rest') = b ++ strip .plain rest' := by
  -- What the reader leaves stays fixed along the induction, so `b` is what is still to be read.
  generalize hs : b ++ rest = s at h
  fun_induction quotedBody s generalizing b text with
  | case1 => cases h
  | case2 r =>
    cases h
    obtain rfl : b = ['"'] := List.append_cancel_right (hs.trans rfl)
    exact strip_quoted_quote rest'
  | case3 => cases h
  | case4 r scalar after he _ _ ih =>
    obtain ⟨t, rfl, ht⟩ := Result.cons_eq_ok.1 h
    obtain ⟨u, rfl⟩ := (quotedBody_suffix ht).1
    obtain ⟨e, w, rfl⟩ : ∃ e w, r = e :: w := by
      cases r with
      | nil => cases he
      | cons e w => exact ⟨e, w, rfl⟩
    obtain ⟨places, rfl, hplaces⟩ := exists_places_of_escape he
    obtain rfl : b = '\\' :: e :: (places ++ u) := by
      apply List.append_cancel_right (hs.trans _)
      simp
    -- The scan takes the places of the escape one by one and is inside of the quotes behind them.
    have hpast : strip .quoted (places ++ (u ++ rest')) = places ++ (u ++ strip .plain rest') :=
      (strip_quoted_eq_append hplaces).2 ⟨u ++ rest', rfl, ih rfl ht⟩
    simp only [List.cons_append, List.append_assoc]
    rw [strip_quoted_escape, hpast]
  | case5 => cases h
  | case6 c r hquote hline hescape ih =>
    obtain ⟨t, rfl, ht⟩ := Result.cons_eq_ok.1 h
    obtain ⟨u, rfl⟩ := (quotedBody_suffix ht).1
    obtain rfl : b = c :: u := List.append_cancel_right (hs.trans rfl)
    rw [List.cons_append, strip_quoted_cons hquote hescape, ih rfl ht]
    rfl

/-- A quoted key stays. -/
theorem passes_of_quotedBody {b rest text : List Char}
    (h : quotedBody (b ++ rest) = .ok (text, rest)) : Passes ('"' :: b) := by
  intro rest' _ hquote
  rw [List.cons_append, strip_quote, strip_quoted_append h]
  · rfl
  · -- An empty key has no quote behind it, and any other one has none at its front.
    intro t ht
    cases b with
    | nil =>
      have hlt := (quotedBody_suffix h).2
      exact Nat.lt_irrefl _ hlt
    | cons c b =>
      obtain ⟨rfl, hb⟩ := List.cons.inj ht
      rw [List.cons_append, quotedBody, if_pos rfl] at h
      obtain rfl : b = [] := List.append_left_eq_self.1 (congrArg Prod.snd (Except.ok.inj h))
      change rest' = '"' :: t at hb
      exact hquote (by rw [hb]; rfl)

/-- A character before a piece that stays, where no comment begins. -/
theorem Passes.cons {c : Char} {piece : List Char} (h : Passes piece) (hquote : c ≠ '"')
    (hcomment : startsComment (c :: piece) = false) : Passes (c :: piece) := by
  intro rest hrest hrest'
  have hstart : startsComment (c :: (piece ++ rest)) = false := by
    rw [startsComment_cons, Bool.or_eq_false_iff] at hcomment ⊢
    refine ⟨hcomment.1, ?_⟩
    cases piece with
    | nil => rw [List.nil_append, beq_eq_false_iff_ne.2 hrest, Bool.and_false]
    | cons d piece => exact hcomment.2
  rw [List.cons_append, strip_cons hquote, hstart, if_neg Bool.false_ne_true, h rest hrest hrest']
  rfl

/-- A bare key stays, or it holds a comment mark and some of it is lost. That shows in the length,
whatever follows. -/
theorem passes_or_shorter {piece : List Char} (h : ∀ c ∈ piece, isKeyChar c = true) :
    Passes piece ∨
      ∀ rest, (strip .plain (piece ++ rest)).length < (piece ++ rest).length := by
  induction piece with
  | nil => exact Or.inl .nil
  | cons c piece ih =>
    rw [List.forall_mem_cons] at h
    have hquote : c ≠ '"' := by
      rintro rfl
      exact absurd h.1 (by decide)
    cases hcomment : startsComment (c :: piece) with
    | true =>
      -- The comment begins here and takes one character at least.
      refine Or.inr fun rest => ?_
      have hle := length_strip_le .comment (piece ++ rest)
      have hstart : startsComment (c :: (piece ++ rest)) = true := by
        by_contra hnot
        rw [Bool.not_eq_true, ← List.cons_append] at hnot
        rw [startsComment_of_append hnot] at hcomment
        cases hcomment
      rw [List.cons_append, strip_of_startsComment hstart]
      exact Nat.lt_succ_of_le hle
    | false =>
      rcases ih h.2 with hpasses | hshorter
      · exact Or.inl (hpasses.cons hquote hcomment)
      · refine Or.inr fun rest => ?_
        rw [List.cons_append, strip_cons hquote]
        split
        · exact Nat.lt_succ_of_le (length_strip_le .comment _)
        · exact Nat.succ_lt_succ (hshorter rest)

/-! ## Key paths that stay -/

/-- A key stays, or it holds a comment mark and some of it is lost. -/
theorem passes_or_shorter_of_key {k rest name : List Char}
    (h : key (k ++ rest) = .ok (some (name, rest))) :
    Passes k ∨ ∀ rest, (strip .plain (k ++ rest)).length < (k ++ rest).length := by
  generalize hs : k ++ rest = s at h
  unfold key at h
  split at h
  · obtain ⟨⟨text, after⟩, hbody, heq⟩ := of_map_eq_ok h
    cases heq
    obtain ⟨u, rfl⟩ := (quotedBody_suffix hbody).1
    obtain rfl : k = '"' :: u := List.append_cancel_right (hs.trans rfl)
    exact Or.inl (passes_of_quotedBody hbody)
  · split at h
    · cases h
    · cases h
      have hk : k = s.takeWhile isKeyChar :=
        List.append_cancel_right (hs.trans List.takeWhile_append_dropWhile.symm)
      exact passes_or_shorter fun c hc => List.mem_takeWhile_imp (hk ▸ hc)

/-- Further keys begin with a dot, if there are any. -/
theorem head?_ne_of_moreKeys {m rest : List Char} {names : List String}
    (h : moreKeys (m ++ rest) = .ok (names, rest)) {c : Char} (hc : c ≠ '.') :
    m.head? ≠ some c := by
  cases m with
  | nil => nofun
  | cons d m =>
    rw [head?_of_moreKeys h]
    exact fun hd => hc (Option.some.inj hd).symm

/-- A key and the keys behind it stay if the scan for comments leaves them as they are. -/
theorem passes_of_key {k m rest name : List Char} {names : List String}
    (hk : key (k ++ (m ++ rest)) = .ok (some (name, m ++ rest)))
    (hmore : moreKeys (m ++ rest) = .ok (names, rest))
    (hm : strip .plain m = m → Passes m) (hself : strip .plain (k ++ m) = k ++ m) :
    Passes (k ++ m) := by
  have hslash : m.head? ≠ some '/' := head?_ne_of_moreKeys hmore (by decide)
  have hquote : m.head? ≠ some '"' := head?_ne_of_moreKeys hmore (by decide)
  rcases passes_or_shorter_of_key hk with hpasses | hshorter
  · rw [hpasses m hslash hquote] at hself
    exact hpasses.append (hm (List.append_cancel_left hself)) hslash hquote
  · -- A key that loses characters makes the whole shorter, which it is not.
    have hlt := hshorter m
    rw [hself] at hlt
    exact absurd hlt (Nat.lt_irrefl _)

/-- Further keys stay if the scan for comments leaves them as they are. -/
theorem passes_of_moreKeys {m rest : List Char} {names : List String}
    (h : moreKeys (m ++ rest) = .ok (names, rest)) (hself : strip .plain m = m) : Passes m := by
  generalize hs : m ++ rest = s at h
  fun_induction moreKeys s generalizing m names with
  | case1 => cases h
  | case2 s hk =>
    cases h
    obtain rfl : m = [] := List.append_left_eq_self.1 hs
    exact .nil
  | case3 s name r hk ih =>
    obtain ⟨⟨more, after⟩, hmore, heq⟩ := of_map_eq_ok h
    cases heq
    obtain ⟨u, rfl⟩ := moreKeys_suffix hmore
    obtain ⟨k, rfl⟩ := (key_suffix hk).1
    obtain rfl : m = '.' :: (k ++ u) := by
      apply List.append_cancel_right (hs.trans _)
      simp
    rw [strip_solid (by decide) (by decide) (by decide)] at hself
    have hpasses : Passes (k ++ u) :=
      passes_of_key hk hmore (fun hu => ih hu rfl hmore) (List.cons.inj hself).2
    exact hpasses.dot
  | case4 s hdot =>
    cases h
    obtain rfl : m = [] := List.append_left_eq_self.1 hs
    exact .nil

/-- A key path stays if the scan for comments leaves it as it is. -/
theorem passes_of_keyPath {k rest : List Char} {path : List String}
    (h : keyPath (k ++ rest) = .ok (some (path, rest))) (hself : strip .plain k = k) :
    Passes k := by
  obtain ⟨first, more, name, names, rfl, -, hk, hmore⟩ := exists_key_of_keyPath h
  exact passes_of_key hk hmore (passes_of_moreKeys hmore) hself

/-! ## What leads to a value -/

/-- What leads from a key to its value does so without comments, and to the same value. -/
theorem fieldValue?_strip (s : List Char) :
    fieldValue? (strip .plain s) = (fieldValue? s).map (strip .plain) := by
  unfold fieldValue?
  rw [(blanks_strip s).2]
  generalize afterBlanks s = u
  split
  · rename_i r hr
    obtain ⟨t, rfl, rfl⟩ := strip_eq_cons (by decide) (by decide) hr
    exact congrArg some hr.symm
  · rename_i r hr
    obtain ⟨t, rfl, rfl⟩ := strip_eq_cons (by decide) (by decide) hr
    exact congrArg some (blanks_strip t).2
  · rename_i r hr
    obtain ⟨t, rfl, rfl⟩ := strip_eq_cons (by decide) (by decide) hr
    exact congrArg some (blanks_strip t).2
  · rename_i hbrace hcolon hequals
    split
    · rename_i r
      exact absurd (strip_solid (by decide) (by decide) (by decide) r) (hbrace _)
    · rename_i r
      exact absurd (strip_solid (by decide) (by decide) (by decide) r) (hcolon _)
    · rename_i r
      exact absurd (strip_solid (by decide) (by decide) (by decide) r) (hequals _)
    · rfl

/-- Behind a line's end or a quote there is neither a further key nor a value. -/
def Blocked (rest : List Char) : Prop := ∀ c, rest.head? = some c → c = '\n' ∨ c = '"'

/-- No further key follows there. -/
theorem Blocked.moreKeys {rest : List Char} (h : Blocked rest) :
    moreKeys rest = .ok ([], rest) := by
  refine moreKeys_of_not_dot fun hdot => ?_
  rcases h '.' hdot with hline | hquote
  · cases hline
  · cases hquote

/-- No value follows there. -/
theorem Blocked.fieldValue? {rest : List Char} (h : Blocked rest) : fieldValue? rest = none := by
  cases rest with
  | nil => rfl
  | cons c t =>
    rcases h c rfl with rfl | rfl
    · rfl
    · rfl

/-- Where a value follows a key, neither a slash nor a quote does. -/
theorem head?_ne_of_fieldValue? {s start : List Char} (h : fieldValue? s = some start) :
    s.head? ≠ some '/' ∧ s.head? ≠ some '"' := by
  refine ⟨fun hslash => ?_, fun hquote => ?_⟩
  · exact absurd (not_isBareChar_of_fieldValue? h '/' hslash) (by decide)
  · have hblocked : Blocked s := fun c hc => Or.inr (Option.some.inj (hc.symm.trans hquote))
    rw [hblocked.fieldValue?] at h
    cases h

/-- A key path without a comment mark stands where it stood, with the value behind it. -/
theorem keyPath_strip {k after start : List Char} {path : List String}
    (h : keyPath (k ++ after) = .ok (some (path, after))) (hself : strip .plain k = k)
    (hstart : fieldValue? after = some start) :
    keyPath (strip .plain (k ++ after)) = .ok (some (path, strip .plain after)) := by
  obtain ⟨hslash, hquote⟩ := head?_ne_of_fieldValue? hstart
  have hstart' : fieldValue? (strip .plain after) = some (strip .plain start) := by
    rw [fieldValue?_strip, hstart]
    rfl
  rw [passes_of_keyPath h hself after hslash hquote]
  exact keyPath_replace h (not_isBareChar_of_fieldValue? hstart')

/-! ## Key paths of a text without comments -/

/-- The key characters at the front of a text without comments were there, unless they end where a
comment began. -/
theorem takeWhile_strip (s : List Char) :
    ((strip .plain s).takeWhile isKeyChar = s.takeWhile isKeyChar ∧
      (strip .plain s).dropWhile isKeyChar = strip .plain (s.dropWhile isKeyChar) ∧
      Passes (s.takeWhile isKeyChar)) ∨
    Blocked ((strip .plain s).dropWhile isKeyChar) := by
  induction s with
  | nil => exact Or.inl ⟨rfl, rfl, .nil⟩
  | cons c rest ih =>
    cases hkey : isKeyChar c with
    | true =>
      have hquote : c ≠ '"' := by
        rintro rfl
        exact absurd hkey (by decide)
      cases hcomment : startsComment (c :: rest) with
      | true =>
        -- The comment begins here, so no key character is left of it.
        right
        rw [strip_of_startsComment hcomment]
        have hline := not_of_head?_strip (p := isKeyChar) (s := c :: rest) (by decide)
          fun _ _ _ => hcomment
        rw [strip_of_startsComment hcomment] at hline
        rw [(takeWhile_of_head? hline).2]
        exact fun d hd => Or.inl (head?_strip_comment hd)
      | false =>
        rw [strip_cons hquote, hcomment, if_neg Bool.false_ne_true,
          List.takeWhile_cons_of_pos hkey, List.takeWhile_cons_of_pos hkey,
          List.dropWhile_cons_of_pos hkey, List.dropWhile_cons_of_pos hkey]
        refine ih.imp (fun hsame => ?_) id
        obtain ⟨htake, hdrop, hpasses⟩ := hsame
        refine ⟨by rw [htake], hdrop, hpasses.cons hquote ?_⟩
        -- No comment begins in the text here, and so none in its key characters alone.
        rw [← List.takeWhile_append_dropWhile (p := isKeyChar) (l := rest),
          ← List.cons_append] at hcomment
        exact startsComment_of_append hcomment
    | false =>
      obtain ⟨htake, hdrop⟩ := takeWhile_strip_of_neg (p := isKeyChar) (by decide) hkey rest
      rw [htake, hdrop, List.takeWhile_cons_of_neg (by simp [hkey]),
        List.dropWhile_cons_of_neg (by simp [hkey])]
      exact Or.inl ⟨rfl, rfl, .nil⟩

/-- A quoted key that begins a text without comments began the text before, unless the scan took its
quotes for triple quotes. -/
theorem key_of_strip_quote {t r name : List Char}
    (h : key (strip .plain ('"' :: t)) = .ok (some (name, r))) :
    Blocked r ∨ ∃ k rest, '"' :: t = k ++ rest ∧ r = strip .plain rest ∧
      key ('"' :: t) = .ok (some (name, rest)) ∧ Passes k := by
  by_cases htriple : ∃ u, t = '"' :: '"' :: u
  · -- The reader takes an empty key, and the third quote is behind it.
    obtain ⟨u, rfl⟩ := htriple
    rw [strip_tripleQuote, key, quotedBody, if_pos rfl] at h
    cases h
    exact Or.inl fun c hc => Or.inr (Option.some.inj hc).symm
  · rw [strip_quote fun u hu => htriple ⟨u, hu⟩, key] at h
    obtain ⟨⟨text, after⟩, hstripped, heq⟩ := of_map_eq_ok h
    cases heq
    have hread := toOption_eq_some.2 hstripped
    rw [quotedBody_strip] at hread
    obtain ⟨⟨text, rest⟩, hok, heq⟩ := Option.map_eq_some_iff.1 hread
    cases heq
    have hbody := toOption_eq_some.1 hok
    obtain ⟨b, rfl⟩ := (quotedBody_suffix hbody).1
    refine Or.inr ⟨'"' :: b, rest, rfl, rfl, ?_, passes_of_quotedBody hbody⟩
    rw [key, hbody]
    rfl

/-- A bare key that begins a text without comments began the text before, unless a comment cut it
off. -/
theorem key_of_strip_bare {s r name : List Char} (hquote : s.head? ≠ some '"')
    (h : key (strip .plain s) = .ok (some (name, r))) :
    Blocked r ∨ ∃ k rest, s = k ++ rest ∧ r = strip .plain rest ∧
      key s = .ok (some (name, rest)) ∧ Passes k := by
  have hquote' : (strip .plain s).head? ≠ some '"' :=
    fun hhead => hquote ((head?_strip_eq_some (by decide)).1 hhead).1
  rw [key_of_not_quote hquote'] at h
  rcases takeWhile_strip s with ⟨htake, hdrop, hpasses⟩ | hblocked
  · right
    rw [htake] at h
    split at h
    · cases h
    · rename_i hne
      cases h
      refine ⟨s.takeWhile isKeyChar, s.dropWhile isKeyChar,
        List.takeWhile_append_dropWhile.symm, hdrop, ?_, hpasses⟩
      rw [key_of_not_quote hquote]
      split
      · rename_i hnil
        exact absurd hnil hne
      · rfl
  · left
    split at h
    · cases h
    · cases h
      exact hblocked

/-- A key that begins a text without comments began the text before, unless it is cut off. -/
theorem key_of_strip {s r name : List Char} (h : key (strip .plain s) = .ok (some (name, r))) :
    Blocked r ∨ ∃ k rest, s = k ++ rest ∧ r = strip .plain rest ∧
      key s = .ok (some (name, rest)) ∧ Passes k := by
  by_cases hquote : s.head? = some '"'
  · obtain ⟨t, rfl⟩ := List.head?_eq_some_iff.1 hquote
    exact key_of_strip_quote h
  · exact key_of_strip_bare hquote h

/-- A key of a text without comments and the keys behind it stood in the text before, if a value
follows them, as the keys behind it did. -/
theorem keys_of_strip {s r' r start name : List Char} {names : List String}
    (hk : key (strip .plain s) = .ok (some (name, r'))) (hmore : moreKeys r' = .ok (names, r))
    (hstart : fieldValue? r = some start)
    (hrest : ∀ rest, strip .plain rest = r' → ∃ m after, rest = m ++ after ∧
      r = strip .plain after ∧ moreKeys rest = .ok (names, after) ∧ Passes m) :
    ∃ k m after, s = k ++ (m ++ after) ∧ r = strip .plain after ∧
      key s = .ok (some (name, m ++ after)) ∧ moreKeys (m ++ after) = .ok (names, after) ∧
      Passes (k ++ m) := by
  rcases key_of_strip hk with hblocked | ⟨k, rest, rfl, rfl, hkey, hpasses⟩
  · -- A key that was cut off is the last one, and no value follows it.
    rw [hblocked.moreKeys] at hmore
    cases hmore
    rw [hblocked.fieldValue?] at hstart
    cases hstart
  · obtain ⟨m, after, rfl, rfl, hmore, hm⟩ := hrest rest rfl
    exact ⟨k, m, after, rfl, rfl, hkey, hmore, hpasses.append hm
      (head?_ne_of_moreKeys hmore (by decide)) (head?_ne_of_moreKeys hmore (by decide))⟩

/-- Further keys of a text without comments stood in the text before, if a value follows them. -/
theorem moreKeys_of_strip {s r start : List Char} {names : List String}
    (h : moreKeys (strip .plain s) = .ok (names, r)) (hstart : fieldValue? r = some start) :
    ∃ m after, s = m ++ after ∧ r = strip .plain after ∧ moreKeys s = .ok (names, after) ∧
      Passes m := by
  generalize ht : strip .plain s = t at h
  -- The keys are those of the text without comments, so the induction is on their reading.
  fun_induction moreKeys t generalizing s names with
  | case1 => cases h
  | case2 t hk =>
    -- A dot that no key follows is in the way of the value.
    cases h
    cases hstart
  | case3 t name r' hk ih =>
    obtain ⟨⟨more, after⟩, hmore, heq⟩ := of_map_eq_ok h
    cases heq
    obtain ⟨u, rfl, rfl⟩ := strip_eq_cons (by decide) (by decide) ht
    obtain ⟨k, m, after, rfl, rfl, hkey, hmore, hpasses⟩ :=
      keys_of_strip hk hmore hstart fun rest hrest => ih hrest hmore
    exact ⟨'.' :: (k ++ m), after, by simp, rfl, moreKeys_cons hkey hmore, hpasses.dot⟩
  | case4 t hdot =>
    cases h
    have hnot : s.head? ≠ some '.' := by
      intro hs
      obtain ⟨u, rfl⟩ := List.head?_eq_some_iff.1 hs
      rw [strip_solid (by decide) (by decide) (by decide)] at ht
      exact hdot _ ht.symm
    exact ⟨[], s, rfl, ht.symm, moreKeys_of_not_dot hnot, .nil⟩

/-- A key path of a text without comments stood in the text before, if a value follows it. -/
theorem keyPath_of_strip {s r start : List Char} {path : List String}
    (h : keyPath (strip .plain s) = .ok (some (path, r)))
    (hstart : fieldValue? r = some start) :
    ∃ k after, s = k ++ after ∧ r = strip .plain after ∧
      keyPath s = .ok (some (path, after)) ∧ strip .plain k = k := by
  unfold keyPath at h
  split at h
  · cases h
  · cases h
  · rename_i name r' hk
    obtain ⟨⟨names, after⟩, hmore, heq⟩ := of_map_eq_ok h
    cases heq
    have hrest (rest : List Char) (hr : strip .plain rest = r') : ∃ m after, rest = m ++ after ∧
        r = strip .plain after ∧ moreKeys rest = .ok (names, after) ∧ Passes m := by
      rw [← hr] at hmore
      exact moreKeys_of_strip hmore hstart
    obtain ⟨k, m, after, rfl, rfl, hkey, hmore, hpasses⟩ := keys_of_strip hk hmore hstart hrest
    exact ⟨k ++ m, after, by simp, rfl, keyPath_eq_some hkey hmore, hpasses.strip_eq⟩

end LeaderKey.Grammar
