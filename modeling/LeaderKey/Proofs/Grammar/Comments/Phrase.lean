import LeaderKey.Proofs.Grammar.Comments.KeyPath
import LeaderKey.Proofs.Grammar.Tail.Phrase

/-!
# Phrases without comments

A phrase is read from a text without comments exactly as it is read from the text, provided that no
name of a field in it holds a comment mark: `Reads.stripped` and `Reads.of_stripped` are the two
directions, and `NameIn` says what the names are.
-/

namespace LeaderKey.Grammar

open LeaderKey.Text

/-! ## Names of fields -/

/-- The readers of the nested part of the grammar. -/
inductive Reader where
  /-- The reader of a value. -/
  | value
  /-- The reader of a field. -/
  | field
  /-- The reader of the items of a list. -/
  | items
  /-- The reader of the fields of an object, up to a closing. -/
  | fields (closing : Closing)

/-- The reader that gives a phrase. -/
def Phrase.reader : Phrase → Reader
  | .value _ => .value
  | .field _ => .field
  | .items _ => .items
  | .fields closing _ => .fields closing

/-- A reader that starts at the front of a text comes to a field whose name is written like this. -/
inductive NameIn (name : List Char) : Reader → List Char → Prop
  | object {rest : List Char} (h : NameIn name (.fields .brace) rest) :
      NameIn name .value ('{' :: rest)
  | list {rest : List Char} (h : NameIn name .items rest) : NameIn name .value ('[' :: rest)
  | here {path : List String} {after : List Char}
      (hpath : keyPath (name ++ after) = .ok (some (path, after))) :
      NameIn name .field (name ++ after)
  | fieldValue {path : List String} {s after start : List Char}
      (hpath : keyPath s = .ok (some (path, after))) (hstart : fieldValue? after = some start)
      (h : NameIn name .value start) : NameIn name .field s
  | firstItem {s : List Char} (h : NameIn name .value (afterGap s)) : NameIn name .items s
  | laterItem {v : Value} {s rest next : List Char} (hvalue : value (afterGap s) = .ok (v, rest))
      (hnext : nextElement .bracket rest = some next) (h : NameIn name .items next) :
      NameIn name .items s
  | firstField {closing : Closing} {s : List Char} (h : NameIn name .field (afterGap s)) :
      NameIn name (.fields closing) s
  | laterField {closing : Closing} {f : Field} {s rest next : List Char}
      (hfield : field (afterGap s) = .ok (f, rest)) (hnext : nextElement closing rest = some next)
      (h : NameIn name (.fields closing) next) : NameIn name (.fields closing) s

variable {name : List Char}

/-- No name is read in a scalar. -/
theorem NameIn.not_scalar {v : Value} {s rest : List Char} (h : NameIn name .value s) :
    scalar s ≠ .ok (some (v, rest)) := by
  intro hscalar
  cases h with
  | object _ =>
    rw [scalar_eq_none (by decide) (by decide)] at hscalar
    cases hscalar
  | list _ =>
    rw [scalar_eq_none (by decide) (by decide)] at hscalar
    cases hscalar

/-- The name of a field begins it, whatever is behind. -/
theorem NameIn.exists_keyPath {s : List Char} (h : NameIn name .field s) :
    ∃ path after, keyPath s = .ok (some (path, after)) := by
  cases h with
  | here hpath => exact ⟨_, _, hpath⟩
  | fieldValue hpath _ _ => exact ⟨_, _, hpath⟩

/-- A name in a field is the name of the field, or a name in its value. -/
theorem NameIn.of_field {path : List String} {k after start : List Char}
    (h : NameIn name .field (k ++ after)) (hpath : keyPath (k ++ after) = .ok (some (path, after)))
    (hstart : fieldValue? after = some start) :
    name = k ∨ NameIn name .value start := by
  generalize hs : k ++ after = s at h hpath
  cases h with
  | here hpath' =>
    rw [hpath'] at hpath
    cases hpath
    exact Or.inl (List.append_cancel_right hs).symm
  | fieldValue hpath' hstart' hvalue =>
    rw [hpath'] at hpath
    cases hpath
    rw [hstart'] at hstart
    cases hstart
    exact Or.inr hvalue

/-- No name is read where a list ends. -/
theorem NameIn.not_items_end {s : List Char} (h : NameIn name .items s) :
    ¬ Closing.bracket.reached (afterGap s) = true := by
  intro hreached
  obtain ⟨t, ht⟩ : ∃ t, afterGap s = ']' :: t :=
    List.head?_eq_some_iff.1 (by simpa [Closing.reached] using hreached)
  cases h with
  | firstItem hname =>
    rw [ht] at hname
    cases hname
  | laterItem hvalue _ _ => exact not_reached_of_value hvalue hreached

/-- A name in some items is a name in the first one or in the others. -/
theorem NameIn.of_items {v : Value} {s rest next : List Char} (h : NameIn name .items s)
    (hvalue : value (afterGap s) = .ok (v, rest)) (hnext : nextElement .bracket rest = some next) :
    NameIn name .value (afterGap s) ∨ NameIn name .items next := by
  cases h with
  | firstItem hname => exact Or.inl hname
  | laterItem hvalue' hnext' hname =>
    rw [hvalue'] at hvalue
    cases hvalue
    rw [hnext'] at hnext
    cases hnext
    exact Or.inr hname

/-- No name is read where some fields end. -/
theorem NameIn.not_fields_end {closing : Closing} {s : List Char}
    (h : NameIn name (.fields closing) s) : ¬ closing.reached (afterGap s) = true := by
  cases h with
  | firstField hname =>
    obtain ⟨path, after, hpath⟩ := hname.exists_keyPath
    exact not_reached_of_keyPath hpath closing
  | laterField hfield _ _ => exact not_reached_of_field hfield closing

/-- A name in some fields is a name in the first one or in the others. -/
theorem NameIn.of_fields {closing : Closing} {f : Field} {s rest next : List Char}
    (h : NameIn name (.fields closing) s) (hfield : field (afterGap s) = .ok (f, rest))
    (hnext : nextElement closing rest = some next) :
    NameIn name .field (afterGap s) ∨ NameIn name (.fields closing) next := by
  cases h with
  | firstField hname => exact Or.inl hname
  | laterField hfield' hnext' hname =>
    rw [hfield'] at hfield
    cases hfield
    rw [hnext'] at hnext
    cases hnext
    exact Or.inr hname

/-! ## Between elements -/

/-- No comment begins right after a gap. -/
theorem startsComment_of_afterGap {s : List Char} (h : afterGap s = s) :
    startsComment s = false := by
  cases s with
  | nil => rfl
  | cons c t => exact (afterGap_eq_self_iff.1 h).2

/-- Whether a closing stands here shows in the first character. -/
theorem reached_of_head? {s t : List Char} (h : s.head? = t.head?) (closing : Closing) :
    closing.reached s = closing.reached t := by
  cases closing with
  | brace => rw [Closing.reached, Closing.reached, h]
  | bracket => rw [Closing.reached, Closing.reached, h]
  | endOfText =>
    cases s with
    | nil => exact (congrArg List.isEmpty (List.head?_eq_none_iff.1 h.symm)).symm
    | cons c s =>
      obtain ⟨u, rfl⟩ := List.head?_eq_some_iff.1 h.symm
      rfl

/-- A closing behind a gap stands there without comments. -/
theorem reached_strip (closing : Closing) (s : List Char) :
    closing.reached (afterGap (strip .plain s)) = closing.reached (afterGap s) := by
  rw [afterGap_strip]
  exact reached_of_head? (head?_strip (startsComment_of_afterGap (afterGap_afterGap s))) closing

/-- The text behind a closing. -/
theorem skip_strip {closing : Closing} {s : List Char}
    (h : closing.reached (afterGap s) = true) :
    closing.skip (afterGap (strip .plain s)) = strip .plain (closing.skip (afterGap s)) := by
  rw [afterGap_strip]
  obtain hnil | ⟨c, t, hc, hclosing⟩ := reached_cases h
  · rw [hnil]
    cases closing <;> rfl
  · have hsolid : strip .plain (c :: t) = c :: strip .plain t := by
      rcases hclosing with rfl | rfl
      · exact strip_solid (by decide) (by decide) (by decide) t
      · exact strip_solid (by decide) (by decide) (by decide) t
    rw [hc, hsolid]
    cases closing with
    | brace => rfl
    | bracket => rfl
    | endOfText => exact hsolid.symm

/-- The next element may stand where it might with comments. -/
theorem nextElement_strip (closing : Closing) (s : List Char) :
    nextElement closing (strip .plain s) = (nextElement closing s).map (strip .plain) := by
  by_cases hcomma : (afterGap s).head? = some ','
  · obtain ⟨r, hr⟩ := List.head?_eq_some_iff.1 hcomma
    have hr' : afterGap (strip .plain s) = ',' :: strip .plain r := by
      rw [afterGap_strip, hr, strip_solid (by decide) (by decide) (by decide)]
    rw [nextElement_of_comma hr, nextElement_of_comma hr']
    rfl
  · have hcomma' : (afterGap (strip .plain s)).head? ≠ some ',' := by
      rw [afterGap_strip]
      exact fun hhead => hcomma ((head?_strip_eq_some (by decide)).1 hhead).1
    rw [nextElement_of_not_comma hcomma, nextElement_of_not_comma hcomma', crossesLine_strip,
      reached_strip]
    split
    · rw [afterGap_strip]
      rfl
    · rfl

/-! ## Both directions -/

/-- A phrase all of whose names stay is read from the text without comments. -/
theorem Reads.stripped {p : Phrase} {s rest : List Char} (h : Reads p s rest)
    (hnames : ∀ name, NameIn name p.reader s → strip .plain name = name) :
    Reads p (strip .plain s) (strip .plain rest) := by
  -- A name in a part of the phrase is a name in the phrase, so every part satisfies `hnames`.
  induction h with
  | object _ ih =>
    rw [strip_solid (by decide) (by decide) (by decide)]
    exact .object (ih fun name hname => hnames name (.object hname))
  | list _ ih =>
    rw [strip_solid (by decide) (by decide) (by decide)]
    exact .list (ih fun name hname => hnames name (.list hname))
  | @scalar v s rest hscalar =>
    refine .scalar (toOption_eq_some.1 ?_)
    rw [scalar_strip, hscalar]
    rfl
  | @field path v s after start rest hpath hstart _ ih =>
    obtain ⟨k, rfl⟩ := (keyPath_suffix hpath).1
    have hself : strip .plain k = k := hnames k (.here hpath)
    have hstart' : fieldValue? (strip .plain after) = some (strip .plain start) := by
      rw [fieldValue?_strip, hstart]
      rfl
    exact .field (keyPath_strip hpath hself hstart) hstart'
      (ih fun name hname => hnames name (.fieldValue hpath hstart hname))
  | @itemsEnd s hreached =>
    rw [← skip_strip hreached]
    exact .itemsEnd (by rw [reached_strip, hreached])
  | @itemsCons v vs s rest next after hvalue hnext _ ihvalue ihitems =>
    have hnext' : nextElement .bracket (strip .plain rest) = some (strip .plain next) := by
      rw [nextElement_strip, hnext]
      rfl
    have hfirst := ihvalue fun name hname => hnames name (.firstItem hname)
    rw [← afterGap_strip] at hfirst
    exact .itemsCons hfirst hnext'
      (ihitems fun name hname => hnames name (.laterItem hvalue.isRead hnext hname))
  | @fieldsEnd closing s hreached =>
    rw [← skip_strip hreached]
    exact .fieldsEnd (by rw [reached_strip, hreached])
  | @fieldsCons closing f fs s rest next after hfield hnext _ ihfield ihfields =>
    have hnext' : nextElement closing (strip .plain rest) = some (strip .plain next) := by
      rw [nextElement_strip, hnext]
      rfl
    have hfirst := ihfield fun name hname => hnames name (.firstField hname)
    rw [← afterGap_strip] at hfirst
    exact .fieldsCons hfirst hnext'
      (ihfields fun name hname => hnames name (.laterField hfield.isRead hnext hname))

/-- A phrase that is read from a text without comments is read from the text, and all its names
stay. -/
theorem Reads.of_stripped {p : Phrase} {s r : List Char} (h : Reads p (strip .plain s) r) :
    ∃ rest, r = strip .plain rest ∧ Reads p s rest ∧
      ∀ name, NameIn name p.reader s → strip .plain name = name := by
  -- The induction is on how the text without comments is read. Each case finds in `s` what was left
  -- there, and the names in `s` are then those of the parts that have been found.
  generalize ht : strip .plain s = t at h
  induction h generalizing s with
  | object _ ih =>
    obtain ⟨u, rfl, hu⟩ := strip_eq_cons (by decide) (by decide) ht
    obtain ⟨rest, rfl, hfields, hnames⟩ := ih hu.symm
    refine ⟨rest, rfl, .object hfields, fun name hname => ?_⟩
    cases hname with
    | object hname => exact hnames name hname
  | list _ ih =>
    obtain ⟨u, rfl, hu⟩ := strip_eq_cons (by decide) (by decide) ht
    obtain ⟨rest, rfl, hitems, hnames⟩ := ih hu.symm
    refine ⟨rest, rfl, .list hitems, fun name hname => ?_⟩
    cases hname with
    | list hname => exact hnames name hname
  | @scalar v t r hscalar =>
    have hread := toOption_eq_some.2 hscalar
    rw [← ht, scalar_strip] at hread
    obtain ⟨read, hok, hmap⟩ := Option.map_eq_some_iff.1 hread
    obtain ⟨⟨w, rest⟩, rfl, heq⟩ := Option.map_eq_some_iff.1 hmap
    cases heq
    have hscalar' := toOption_eq_some.1 hok
    exact ⟨rest, rfl, .scalar hscalar', fun name hname => absurd hscalar' hname.not_scalar⟩
  | @field path v t after start r hpath hstart _ ih =>
    rw [← ht] at hpath
    obtain ⟨k, after', rfl, rfl, hpath', hself⟩ := keyPath_of_strip hpath hstart
    rw [fieldValue?_strip] at hstart
    obtain ⟨start', hstart', rfl⟩ := Option.map_eq_some_iff.1 hstart
    obtain ⟨rest, rfl, hvalue, hnames⟩ := ih rfl
    refine ⟨rest, rfl, .field hpath' hstart' hvalue, fun name hname => ?_⟩
    rcases hname.of_field hpath' hstart' with rfl | hname
    · exact hself
    · exact hnames name hname
  | @itemsEnd t hreached =>
    rw [← ht, reached_strip] at hreached
    refine ⟨_, ?_, .itemsEnd hreached, fun name hname => absurd hreached hname.not_items_end⟩
    rw [← ht, skip_strip hreached]
  | @itemsCons v vs t r next after _ hnext _ ihvalue ihitems =>
    subst ht
    obtain ⟨rest, rfl, hvalue, hfirst⟩ := ihvalue (afterGap_strip s).symm
    rw [nextElement_strip] at hnext
    obtain ⟨next', hnext', rfl⟩ := Option.map_eq_some_iff.1 hnext
    obtain ⟨after', rfl, hitems, hlater⟩ := ihitems rfl
    refine ⟨after', rfl, .itemsCons hvalue hnext' hitems, fun name hname => ?_⟩
    rcases hname.of_items hvalue.isRead hnext' with hname | hname
    · exact hfirst name hname
    · exact hlater name hname
  | @fieldsEnd closing t hreached =>
    rw [← ht, reached_strip] at hreached
    refine ⟨_, ?_, .fieldsEnd hreached, fun name hname => absurd hreached hname.not_fields_end⟩
    rw [← ht, skip_strip hreached]
  | @fieldsCons closing f fs t r next after _ hnext _ ihfield ihfields =>
    subst ht
    obtain ⟨rest, rfl, hfield, hfirst⟩ := ihfield (afterGap_strip s).symm
    rw [nextElement_strip] at hnext
    obtain ⟨next', hnext', rfl⟩ := Option.map_eq_some_iff.1 hnext
    obtain ⟨after', rfl, hfields, hlater⟩ := ihfields rfl
    refine ⟨after', rfl, .fieldsCons hfield hnext' hfields, fun name hname => ?_⟩
    rcases hname.of_fields hfield.isRead hnext' with hname | hname
    · exact hfirst name hname
    · exact hlater name hname

end LeaderKey.Grammar
