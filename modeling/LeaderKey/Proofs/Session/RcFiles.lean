import LeaderKey.Proofs.FileTree.Follow
import LeaderKey.Session

/-!
# What calls do to files

Five of the requests of a session are calls of the program on an rc file. `CallLaw` says how a call on
an exact path ends: the path is found and no file changes; or it is missing, is made from the template,
and the call goes on from there; or it is missing and the call ends with the word that there is no rc
file. `perform_callLaw` proves it for each call, `run_extends` what a run of calls does, and
`calls_keep_files` is the theorem about every point of a session. A path that is not exact can be
missing while its entry is there: `find_overwrites` is a call that puts the template over a file.
-/

namespace LeaderKey

/-- Everything that a tree has is in another one, and what is new there are templates to which some
paths lead. -/
structure FileTree.Extends (before after : FileTree) (paths : List String) : Prop where
  within : Within before after
  new : ∀ place node, after.node? place = some node → before.node? place = some node ∨
    before.node? place = none ∧ node = .file RcFile.template.toUTF8 ∧
      ∃ path ∈ paths, after.find path = .ok (place, node)

/-- More files are new after further changes. -/
theorem FileTree.Extends.trans {a b c : FileTree} {first second : List String}
    (hab : Extends a b first) (hbc : Extends b c second) : Extends a c (first ++ second) := by
  refine ⟨hab.within.trans hbc.within, fun place node hc => ?_⟩
  rcases hbc.new place node hc with hb | ⟨hnone, htemplate, path, hpath, hfind⟩
  · -- A template that is new in the middle is still what its path leads to at the end.
    rcases hab.new place node hb with ha | ⟨hnone, htemplate, path, hpath, hfind⟩
    · exact Or.inl ha
    · exact Or.inr ⟨hnone, htemplate, path, List.mem_append_left _ hpath, hbc.within.find hfind⟩
  · refine Or.inr ⟨?_, htemplate, path, List.mem_append_right _ hpath, hfind⟩
    by_contra hsome
    obtain ⟨n, hn⟩ := Option.ne_none_iff_exists'.1 hsome
    rw [hab.within.node hn] at hnone
    cases hnone

/-- A file with a text reads as this text. -/
theorem FileTree.read_of_find {t : FileTree} {path text : String} {place : Place}
    (h : t.find path = .ok (place, .file text.toUTF8)) : t.read path = .ok text := by
  have htext : String.fromUTF8? text.toUTF8 = some text := dif_pos text.isValidUTF8
  simp only [FileTree.read, h, bind, Except.bind, htext]

namespace RcFile

/-! ## Finding and making an rc file -/

/-- A missing rc file has been made: its path leads to a place where nothing was, there is a file with
exactly the template now, and nothing else has changed. -/
inductive Created (before : FileTree) (path : String) : FileTree → Prop
  | intro {place : Place} (hplace : place ≠ []) (hnone : before.node? place = none)
      (hfind : (before.put place (.file template.toUTF8)).find path =
        .ok (place, .file template.toUTF8)) :
      Created before path (before.put place (.file template.toUTF8))

/-- The rc file that has been made is there. -/
theorem Created.has {before after : FileTree} {path : String} (h : Created before path after) :
    after.has path = true := by
  cases h with
  | intro _ _ hfind =>
    rw [FileTree.has, hfind]
    rfl

/-- Making it only adds it. -/
theorem Created.extends {before after : FileTree} {path : String} (h : Created before path after) :
    before.Extends after [path] := by
  cases h with
  | @intro place hplace hnone hfind =>
    refine ⟨.put hplace hnone _, fun p node hnode => ?_⟩
    rw [FileTree.node?_put before hplace] at hnode
    by_cases hp : p = place
    · subst hp
      rw [if_pos rfl, Option.some.injEq] at hnode
      subst hnode
      exact Or.inr ⟨hnone, rfl, path, List.mem_singleton_self path, hfind⟩
    · rw [if_neg hp] at hnode
      exact Or.inl hnode

/-- An rc file that is there is left alone. -/
theorem findOrCreate_of_has {files : FileTree} {path : String} (h : files.has path = true) :
    findOrCreate files path = ⟨files, [], .ok ()⟩ := by
  rw [findOrCreate, if_pos h]

/-- What putting a whole file into place takes: an entry in a directory, and no directory in its
place. -/
theorem install_eq_ok {files after : FileTree} {path : String} {content : ByteArray}
    (h : files.install path content = .ok after) :
    ∃ parent name directory, Path.entry? path = some (parent, name) ∧
      Path.hasNull parent = false ∧ files.find parent = .ok (directory, .directory) ∧
      Path.hasNull name = false ∧ name.utf8ByteSize ≤ FileTree.nameLimit ∧
      files.node? (directory ++ [name]) ≠ some .directory ∧
      after = files.put (directory ++ [name]) (.file content) := by
  rw [FileTree.install] at h
  -- Each check on the way ends in an error unless it is passed.
  match hentry : Path.entry? path with
  | none =>
    rw [hentry] at h
    cases h
  | some (parent, name) =>
    rw [hentry] at h
    dsimp only at h
    cases hnull : Path.hasNull parent with
    | true =>
      rw [hnull, if_pos rfl] at h
      cases h
    | false =>
      rw [hnull, if_neg Bool.false_ne_true] at h
      match hfind : files.find parent with
      | .error e =>
        rw [hfind] at h
        cases h
      | .ok (_, .file _) =>
        rw [hfind] at h
        cases h
      | .ok (directory, .directory) =>
        rw [hfind] at h
        dsimp only at h
        split_ifs at h with hname hlong
        refine ⟨parent, name, directory, rfl, hnull, hfind, Bool.not_eq_true _ ▸ hname, ?_, ?_⟩
        · exact (Nat.le_add_right _ _).trans (Nat.le_of_not_lt hlong)
        · split at h
          · cases h
          · rename_i hnode
            cases h
            exact ⟨hnode, rfl⟩

/-- A missing rc file at an exact path is made, or the files stay as they are and there is none. -/
theorem findOrCreate_of_missing {files : FileTree} {path : String} (hexact : Path.IsExact path)
    (hmissing : files.has path = false) :
    (∃ after, Created files path after ∧
      findOrCreate files path = ⟨after, [.created path], .ok ()⟩) ∨
    ∃ e, findOrCreate files path =
      ⟨files, [.notCreated path e], .error (.sourceUnavailable path)⟩ := by
  rw [findOrCreate, hmissing, if_neg Bool.false_ne_true]
  cases hinstall : files.install path template.toUTF8 with
  | error e => exact Or.inr ⟨_, rfl⟩
  | ok after =>
    refine Or.inl ⟨after, ?_, rfl⟩
    obtain ⟨parent, name, directory, hentry, hnull, hparent, hname, hshort, hnode, rfl⟩ :=
      install_eq_ok hinstall
    have htarget := FileTree.target_of_exact hexact hentry hparent hnull hname
    have hplace : directory ++ [name] ≠ [] := List.concat_ne_nil name directory
    have hlookUp (t : FileTree) : t.lookUp directory name = .ok (t.node? (directory ++ [name])) :=
      if_neg (Nat.not_lt_of_le hshort)
    have hnone : files.node? (directory ++ [name]) = none := by
      -- A file at the place of the entry would be found at the path.
      match hfile : files.node? (directory ++ [name]) with
      | none => rfl
      | some .directory => exact absurd hfile hnode
      | some (.file content) =>
        have hfind : files.find path = .ok (directory ++ [name], .file content) := by
          simp only [FileTree.find, htarget, hlookUp, hfile, bind, Except.bind,
            Bool.false_eq_true, if_false]
        rw [FileTree.has, hfind] at hmissing
        cases hmissing
    -- The directory is still found in the new tree, and the entry in it is the template.
    refine .intro hplace hnone ?_
    have hafter := (FileTree.Within.put hplace hnone (.file template.toUTF8)).target htarget
    have hthere := FileTree.node?_put files hplace (.file template.toUTF8) (directory ++ [name])
    rw [if_pos rfl] at hthere
    simp only [FileTree.find, hafter, hlookUp, hthere, bind, Except.bind, Bool.false_eq_true,
      if_false]

/-- Whatever the path, finding or making the rc file puts at most one file somewhere, with the
template, and this only if nothing was found at the path. -/
theorem findOrCreate_files (files : FileTree) (path : String) :
    (findOrCreate files path).files = files ∨ files.has path = false ∧
      ∃ place, place ≠ [] ∧
        (findOrCreate files path).files = files.put place (.file template.toUTF8) := by
  cases hhas : files.has path with
  | true => exact Or.inl (congrArg Outcome.files (findOrCreate_of_has hhas))
  | false =>
    rw [findOrCreate, hhas, if_neg Bool.false_ne_true]
    cases hinstall : files.install path template.toUTF8 with
    | error e => exact Or.inl rfl
    | ok after =>
      obtain ⟨_, name, directory, -, -, -, -, -, -, rfl⟩ := install_eq_ok hinstall
      exact Or.inr ⟨rfl, directory ++ [name], List.concat_ne_nil name directory, rfl⟩

end RcFile

namespace Session

/-! ## One call -/

/-- The path of the rc file on which a request calls the program; none for changes by the user. -/
def Request.rcPath? : Request → Option String
  | .write .. | .remove _ | .makeDirectory _ => none
  | .find path | .read path | .reload path _ | .tryReload path _ | .openFile path _ => some path

/-- A response with an event in front. -/
def Response.record (event : Event) (r : Response) : Response :=
  { r with events := event :: r.events }

/-- The word that there is no rc file: the error of a call that reports to its caller, and the only
notification of one that reports to the user. -/
def Response.Unavailable (r : Response) (path : String) : Request → Prop
  | .reload .. | .openFile .. =>
    r.reply = .done ∧ r.notifications = [(ConfigError.sourceUnavailable path).notification] ∧
      r.asked = []
  | _ => r.reply = .failed (.sourceUnavailable path) ∧ r.notifications = []

/-- How a call on an rc file ends. -/
inductive CallLaw (s : Session) (call : Request) (path : String) (r : Response) : Prop
  /-- The rc file is there, and no file changes. -/
  | found (hfound : s.files.has path = true) (hfiles : r.session.files = s.files)
  /-- The rc file is made from the template, and the call goes on as if it had been there. -/
  | created {after : FileTree} (hmissing : s.files.has path = false)
      (hcreated : RcFile.Created s.files path after) (hfiles : r.session.files = after)
      (hresponse : r = ((⟨after, s.store⟩ : Session).perform call).record (.created path))
  /-- There is no rc file and none could be made; the session stays as it is. -/
  | unavailable (hmissing : s.files.has path = false) (hsession : r.session = s)
      (hword : r.Unavailable path call)

/-- What opening an rc file comes to: the host is asked once to open a file that is there or has been
made, and the user is told something, once, exactly if it refuses; without such a file the host is
not asked and the user is told once. -/
def Response.OpenLaw (r : Response) (path : String) (refusal : Option String) : Prop :=
  if r.session.files.has path then
    r.asked = [path] ∧ r.opened = (if refusal.isSome then [] else [path]) ∧
      r.notifications =
        (refusal.map fun message => (ConfigError.openFailed path message).notification).toList
  else
    r.asked = [] ∧ r.notifications = [(ConfigError.sourceUnavailable path).notification]

variable {s : Session} {call : Request} {path : String}

/-- A call leaves the files as finding or making the rc file does. -/
theorem perform_files (hcall : call.rcPath? = some path) :
    (s.perform call).session.files = (RcFile.findOrCreate s.files path).files := by
  have hreload (chords : ChordSource) : (Reload.run s.files s.store path chords).files =
      (RcFile.findOrCreate s.files path).files := by
    unfold Reload.run Reload.load RcFile.read
    generalize RcFile.findOrCreate s.files path = found
    dsimp only
    split
    · rfl
    · dsimp only
      split <;> rfl
  cases call with
  | write | remove | makeDirectory => cases hcall
  | find => cases hcall; rfl
  | read => cases hcall; rfl
  | reload _ chords => cases hcall; exact hreload chords
  | tryReload _ chords => cases hcall; exact hreload chords
  | openFile _ refusal =>
    cases hcall
    unfold perform openRcFile
    dsimp only
    split
    · rfl
    · split <;> rfl

/-- If the rc file has been made, a call goes on as it does on the files with it. -/
theorem perform_of_created {after : FileTree} (hcall : call.rcPath? = some path)
    (hfound : RcFile.findOrCreate s.files path = ⟨after, [.created path], .ok ()⟩)
    (hhas : after.has path = true) :
    s.perform call = ((⟨after, s.store⟩ : Session).perform call).record (.created path) := by
  have hafter := RcFile.findOrCreate_of_has hhas
  -- The file is made by the first look at it, and from then on it is as if it had been there.
  have hread : RcFile.read s.files path =
      { RcFile.read after path with events := .created path :: (RcFile.read after path).events } := by
    rw [RcFile.read, RcFile.read, hfound, hafter]
  have hreload (chords : ChordSource) : Reload.run s.files s.store path chords =
      { Reload.run after s.store path chords with
        events := .created path :: (Reload.run after s.store path chords).events } := by
    unfold Reload.run
    rw [hread]
    dsimp only
    cases (RcFile.read after path).result with
    | error e => rfl
    | ok text => rfl
  cases call with
  | write | remove | makeDirectory => cases hcall
  | find =>
    cases hcall
    simp only [perform, access, Response.record, hfound, hafter]
  | read =>
    cases hcall
    simp only [perform, access, Response.record, hread]
  | reload _ chords =>
    cases hcall
    simp only [perform, Response.record, hreload]
    rfl
  | tryReload _ chords =>
    cases hcall
    simp only [perform, Response.record, hreload]
  | openFile _ refusal =>
    cases hcall
    simp only [perform, Response.record, openRcFile, hfound, hafter]
    cases refusal <;> rfl

/-- If there is no rc file and none could be made, a call says so and does nothing else. -/
theorem perform_of_unavailable {e : ConfigError} (hcall : call.rcPath? = some path)
    (hfound : RcFile.findOrCreate s.files path =
      ⟨s.files, [.notCreated path e], .error (.sourceUnavailable path)⟩) :
    (s.perform call).session = s ∧ (s.perform call).Unavailable path call := by
  have hread : RcFile.read s.files path =
      ⟨s.files, [.notCreated path e], .error (.sourceUnavailable path)⟩ := by
    rw [RcFile.read, hfound]
    rfl
  cases call with
  | write | remove | makeDirectory => cases hcall
  | find =>
    cases hcall
    simp [perform, access, hfound, Response.Unavailable]
  | read =>
    cases hcall
    simp [perform, access, hread, Response.Unavailable]
  | reload _ chords =>
    cases hcall
    simp [perform, Reload.run, hread, Response.Unavailable, Reload.Outcome.notifications]
  | tryReload _ chords =>
    cases hcall
    simp [perform, Reload.run, hread, Response.Unavailable]
  | openFile _ refusal =>
    cases hcall
    simp [perform, openRcFile, hfound, Response.Unavailable]

/-- Every call on an exact path obeys the law. -/
theorem perform_callLaw (hcall : call.rcPath? = some path) (hexact : Path.IsExact path) :
    s.CallLaw call path (s.perform call) := by
  cases hhas : s.files.has path with
  | true =>
    refine .found hhas ?_
    rw [perform_files hcall, RcFile.findOrCreate_of_has hhas]
  | false =>
    rcases RcFile.findOrCreate_of_missing hexact hhas with ⟨after, hcreated, hfound⟩ | ⟨e, hfound⟩
    · refine .created hhas hcreated ?_ (perform_of_created hcall hfound hcreated.has)
      rw [perform_files hcall, hfound]
    · obtain ⟨hsession, hword⟩ := perform_of_unavailable hcall hfound
      exact .unavailable hhas hsession hword

/-- A call that obeys the law only adds the rc file. -/
theorem CallLaw.extends {r : Response} (h : s.CallLaw call path r) :
    s.files.Extends r.session.files [path] := by
  have hsame : s.files.Extends s.files [path] := ⟨.refl _, fun _ _ hnode => Or.inl hnode⟩
  cases h with
  | found _ hfiles => rwa [hfiles]
  | created _ hcreated hfiles _ =>
    rw [hfiles]
    exact hcreated.extends
  | unavailable _ hsession _ => rwa [hsession]

/-- Opening an rc file on an exact path asks the host and tells the user what it should. -/
theorem perform_openLaw (hexact : Path.IsExact path) (refusal : Option String) :
    (s.perform (.openFile path refusal)).OpenLaw path refusal := by
  -- With the rc file there, this is one run of the program; a call that has made it goes on as this
  -- run does.
  have hopened (s : Session) (hhas : s.files.has path = true) :
      (s.perform (.openFile path refusal)).OpenLaw path refusal := by
    have hfound := RcFile.findOrCreate_of_has hhas
    rw [Response.OpenLaw]
    cases refusal with
    | none => simp [perform, openRcFile, hfound, hhas]
    | some message => simp [perform, openRcFile, hfound, hhas]
  have hlaw : s.CallLaw (.openFile path refusal) path (s.perform (.openFile path refusal)) :=
    perform_callLaw rfl hexact
  cases hlaw with
  | found hfound _ => exact hopened s hfound
  | @created after _ hcreated _ hresponse =>
    rw [hresponse]
    exact hopened ⟨after, s.store⟩ hcreated.has
  | unavailable hmissing hsession hword =>
    rw [Response.OpenLaw, hsession, hmissing, if_neg Bool.false_ne_true]
    exact ⟨hword.2.2, hword.2.1⟩

/-! ## Runs of calls -/

/-- A run of calls on exact paths keeps every file there is and only adds rc files. -/
theorem run_extends {calls : List Request}
    (hcalls : ∀ c ∈ calls, ∃ path, c.rcPath? = some path ∧ Path.IsExact path) :
    s.files.Extends (s.run calls).1.files (calls.filterMap Request.rcPath?) := by
  -- The files change along the run, so the induction is for every session.
  induction calls generalizing s with
  | nil => exact ⟨.refl _, fun _ _ hnode => Or.inl hnode⟩
  | cons call rest ih =>
    obtain ⟨path, hcall, hexact⟩ := hcalls call List.mem_cons_self
    have hfirst := (perform_callLaw (s := s) hcall hexact).extends
    have hrest := ih (s := (s.perform call).session) fun c hc =>
      hcalls c (List.mem_cons_of_mem _ hc)
    rw [List.filterMap_cons_some hcall]
    exact hfirst.trans hrest

/-- At every point of a session, on any files and after any requests. A call on an rc file at an exact
path obeys the law of calls, and everything that a path led to before it is there after it, unchanged;
opening an rc file asks the host and tells the user what it should. So a run of such calls keeps every
file, and what is new after it are templates at the paths of the calls. A call on any path changes at
most one place, puts nothing but the template there, and does not do even this if it finds the path. -/
theorem calls_keep_files (files : FileTree) (requests : List Request) :
    let s := (({ files } : Session).run requests).1
    (∀ call path, call.rcPath? = some path → Path.IsExact path →
      s.CallLaw call path (s.perform call) ∧
        ∀ p found, s.files.find p = .ok found →
          (s.perform call).session.files.find p = .ok found) ∧
    (∀ path refusal, Path.IsExact path →
      (s.perform (.openFile path refusal)).OpenLaw path refusal) ∧
    (∀ calls, (∀ c ∈ calls, ∃ path, c.rcPath? = some path ∧ Path.IsExact path) →
      s.files.Extends (s.run calls).1.files (calls.filterMap Request.rcPath?)) ∧
    ∀ call path, call.rcPath? = some path →
      (s.perform call).session.files = s.files ∨ s.files.has path = false ∧
        ∃ place, place ≠ [] ∧ (s.perform call).session.files =
          s.files.put place (.file RcFile.template.toUTF8) := by
  intro s
  refine ⟨fun call path hcall hexact => ?_, fun path refusal hexact => perform_openLaw hexact refusal,
    fun calls hcalls => run_extends hcalls, fun call path hcall => ?_⟩
  · have hlaw := perform_callLaw (s := s) hcall hexact
    exact ⟨hlaw, fun p found hfound => hlaw.extends.within.find hfound⟩
  · rw [perform_files hcall]
    exact RcFile.findOrCreate_files s.files path

/-- A path that is exact: it is short, and ends in the name of its entry. -/
theorem isExact_rc : Path.IsExact "sub/../rc" := by
  refine ⟨by decide, fun parent name hentry => ?_⟩
  have hrc : Path.entry? "sub/../rc" = some ("sub/..", "rc") := by decide
  rw [hrc] at hentry
  obtain ⟨-, rfl⟩ := Prod.mk.inj (Option.some.inj hentry)
  decide

/-- The user makes a directory. -/
def madeDirectory : List Request := [.makeDirectory "sub"]

/-- The first reading of an rc file beside a directory of the user. -/
theorem calls_keep_files_firstRead :
    let s := (({} : Session).run madeDirectory).1
    s.CallLaw (.read "sub/../rc") "sub/../rc" (s.perform (.read "sub/../rc")) ∧
      (∃ found, s.files.find "sub" = .ok found ∧
        (s.perform (.read "sub/../rc")).session.files.find "sub" = .ok found) ∧
      (s.perform (.openFile "sub/../rc" (some "no editor"))).OpenLaw "sub/../rc"
        (some "no editor") ∧
      s.files.Extends (s.run [.read "sub/../rc"]).1.files ["sub/../rc"] := by
  obtain ⟨hcalls, hopen, hrun, -⟩ := calls_keep_files {} madeDirectory
  obtain ⟨hlaw, hkept⟩ := hcalls (.read "sub/../rc") "sub/../rc" rfl isExact_rc
  have hhas : (({} : Session).run madeDirectory).1.files.has "sub" = true := by decide +kernel
  obtain ⟨found, hfound⟩ : ∃ found,
      (({} : Session).run madeDirectory).1.files.find "sub" = .ok found := by
    rw [FileTree.has] at hhas
    cases hfind : (({} : Session).run madeDirectory).1.files.find "sub" with
    | ok found => exact ⟨found, rfl⟩
    | error e =>
      rw [hfind] at hhas
      cases hhas
  have hreads : ∀ c ∈ [Request.read "sub/../rc"], ∃ path, c.rcPath? = some path ∧
      Path.IsExact path := by
    intro c hc
    rw [List.mem_singleton.1 hc]
    exact ⟨"sub/../rc", rfl, isExact_rc⟩
  have hextends := hrun [.read "sub/../rc"] hreads
  have hasks := hopen "sub/../rc" (some "no editor") isExact_rc
  exact ⟨hlaw, ⟨found, hfound, hkept "sub" found hfound⟩, hasks, hextends⟩

/-- A file of the user. -/
def userFile : FileTree := ⟨[(["rc"], .file "mine".toUTF8)], []⟩

/-- A slash behind the name of the file makes a path to nothing; making an rc file there writes the
template over the file. -/
theorem find_overwrites :
    userFile.read "rc" = .ok "mine" ∧ userFile.has "rc/" = false ∧
      ((⟨userFile, {}⟩ : Session).perform (.find "rc/")).session.files.read "rc" =
        .ok RcFile.template := by
  have hmissing : userFile.has "rc/" = false := by decide +kernel
  have hinstall (content : ByteArray) : userFile.install "rc/" content =
      .ok (userFile.put ["rc"] (.file content)) := rfl
  have hfind (content : ByteArray) : (userFile.put ["rc"] (.file content)).find "rc" =
      .ok (["rc"], .file content) := rfl
  refine ⟨by decide +kernel, hmissing, ?_⟩
  rw [perform_files rfl, RcFile.findOrCreate, hmissing, if_neg Bool.false_ne_true, hinstall]
  exact FileTree.read_of_find (hfind _)

end Session

end LeaderKey
