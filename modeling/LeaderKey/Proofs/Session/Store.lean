import LeaderKey.Session
import Mathlib.Data.List.Induction

/-!
# What the store holds along a session

A reload goes through three stages: the rc file is found or made, it is read as a text, and the text
is compiled. `Reload.verdict` says what these come to, by the files alone. `Reload.run_follows` is the
law of one reload against that verdict, and `perform_storeLaw` the law of any one request: only a
reload whose verdict is a config touches the store. `run_store` folds the configs that were loaded
along a run into the store, and `snapshot_along_run` reads off what the store holds at every point
of a run from a fresh store.
-/

namespace LeaderKey

/-! ## One reload -/

/-- The files once there is an rc file at a path: as they are if it is found, else with the template
put there, if that can be done. -/
def RcFile.secured (files : FileTree) (path : String) : Except ConfigError FileTree :=
  if files.has path then .ok files
  else (files.install path template.toUTF8).mapError fun _ => .sourceUnavailable path

/-- What reloading an rc file comes to: its config, or the failure of the first stage that fails. -/
def Reload.verdict (files : FileTree) (path : String) (chords : ChordSource) :
    Except ConfigError Config := do
  let files ← RcFile.secured files path
  let text ← (files.read path).mapError fun e => .io e.message
  (compileText text chords).outcome.mapError .malformed

/-- How many of some events say that a config was loaded. -/
def Event.loadCount (events : List Event) : Nat :=
  (events.map Event.message).count "Config reloaded"

/-- Loads are counted event by event. -/
@[simp] theorem Event.loadCount_append (a b : List Event) :
    loadCount (a ++ b) = loadCount a + loadCount b := by
  simp [loadCount]

/-- Dropped entries do not count as loads. -/
@[simp] theorem Event.loadCount_dropped (paths : List String) :
    loadCount (paths.map .dropped) = 0 := by
  simp [loadCount, List.count_eq_zero, message]

/-- Conflicts do not count as loads. -/
@[simp] theorem Event.loadCount_conflicts (conflicts : List Conflict) :
    loadCount (conflicts.map .conflict) = 0 := by
  simp [loadCount, List.count_eq_zero, message]

/-- Finding or making the rc file is no load. -/
theorem RcFile.loadCount_findOrCreate (files : FileTree) (path : String) :
    Event.loadCount (findOrCreate files path).events = 0 := by
  unfold findOrCreate
  split
  · rfl
  · split <;> simp [Event.loadCount, Event.message]

/-- Finding or making the rc file comes to what the verdict says of it. -/
theorem RcFile.secured_eq (files : FileTree) (path : String) :
    secured files path =
      (findOrCreate files path).result.map fun () => (findOrCreate files path).files := by
  unfold secured findOrCreate
  split
  · rfl
  · cases files.install path template.toUTF8 <;> rfl

/-- What a reload with a given verdict makes of the store: a config is published and logged once, a
failure leaves the store as it is and logs no load. -/
def Reload.Outcome.Follows (o : Outcome) (store : Store) (path : String) :
    Except ConfigError Config → Prop
  | .ok config =>
    o.store = store.publish config path ∧ o.result = .ok o.store.current ∧
      Event.loadCount o.events = 1
  | .error e => o.store = store ∧ o.result = .error e ∧ Event.loadCount o.events = 0

/-- Loading a text follows its compilation. -/
theorem Reload.load_follows (files : FileTree) (store : Store) (path text : String)
    (chords : ChordSource) :
    (load files store path text chords).Follows store path
      ((compileText text chords).outcome.mapError .malformed) := by
  unfold load
  dsimp only
  cases (compileText text chords).outcome with
  | ok config =>
    refine ⟨rfl, rfl, ?_⟩
    rw [Event.loadCount_append, Event.loadCount_append, Event.loadCount_dropped,
      Event.loadCount_conflicts]
    rfl
  | error e =>
    refine ⟨rfl, rfl, ?_⟩
    rw [Event.loadCount_append, Event.loadCount_dropped]
    rfl

/-- What was recorded before a reload, if it is no load, does not matter. -/
theorem Reload.Outcome.Follows.prepend {o : Outcome} {store : Store} {path : String}
    {verdict : Except ConfigError Config} {events : List Event} (h : o.Follows store path verdict)
    (hevents : Event.loadCount events = 0) :
    { o with events := events ++ o.events }.Follows store path verdict := by
  cases verdict with
  | ok config =>
    obtain ⟨hstore, hresult, hcount⟩ := h
    refine ⟨hstore, hresult, ?_⟩
    rw [Event.loadCount_append, hevents, hcount]
  | error e =>
    obtain ⟨hstore, hresult, hcount⟩ := h
    refine ⟨hstore, hresult, ?_⟩
    rw [Event.loadCount_append, hevents, hcount]

/-- A reload follows its verdict. -/
theorem Reload.run_follows (files : FileTree) (store : Store) (path : String)
    (chords : ChordSource) :
    (run files store path chords).Follows store path (verdict files path chords) := by
  have hfound := RcFile.loadCount_findOrCreate files path
  have aborted (after : FileTree) (e : ConfigError) :
      (Outcome.mk after store [.reloadAborted path e] (.error e)).Follows store path (.error e) :=
    ⟨rfl, rfl, rfl⟩
  unfold run verdict RcFile.read
  -- Both go through the same file; what finding it has recorded is no load.
  rw [RcFile.secured_eq]
  generalize RcFile.findOrCreate files path = found at hfound ⊢
  obtain ⟨after, events, result⟩ := found
  dsimp only at hfound ⊢
  cases result with
  | error e => exact (aborted after e).prepend hfound
  | ok _ =>
    cases hread : after.read path with
    | error e =>
      simp only [Except.map, Except.mapError, bind, Except.bind, hread]
      exact (aborted after _).prepend hfound
    | ok text =>
      simp only [Except.map, Except.mapError, bind, Except.bind, hread]
      exact (load_follows after store path text chords).prepend hfound

/-! ## One request -/

namespace Session

/-- What a response has to say when a config has been loaded from a path: a new snapshot is in the
store, it holds the config, the path and a load time, nothing is shown, and one event says so. -/
structure Response.Loaded (response : Response) (s : Session) (path : String) (config : Config) :
    Prop where
  /-- The snapshot is the next edition, with the config and where it comes from. -/
  snapshot : response.session.store.current =
    { edition := s.store.current.edition + 1, config, source := some path, dated := true }
  /-- The user is shown nothing. -/
  silent : response.notifications = []
  /-- The load is logged once. -/
  logged : Event.loadCount response.events = 1

/-- What a response has to say when no config has been loaded: the store holds the very same
snapshot, and no event says otherwise. -/
structure Response.Kept (response : Response) (s : Session) : Prop where
  /-- The store is the same. -/
  store : response.session.store = s.store
  /-- No load is logged. -/
  unlogged : Event.loadCount response.events = 0

/-- The law of one request: a reload that comes to a config loads it, and anything else keeps the
snapshot. A failed reload is shown to the user, or reported to the caller that tried it. -/
def StoreLaw (s : Session) (response : Response) : Request → Prop
  | .reload path chords =>
    match Reload.verdict s.files path chords with
    | .ok config => response.Loaded s path config
    | .error e => response.Kept s ∧ response.notifications = [⟨"Ataman", e.notice, .error⟩]
  | .tryReload path chords =>
    match Reload.verdict s.files path chords with
    | .ok config => response.Loaded s path config ∧
        response.reply = .snapshot response.session.store.current
    | .error e => response.Kept s ∧ response.notifications = [] ∧ response.reply = .failed e
  | _ => response.Kept s

/-- A change of files by the user keeps the store. -/
theorem change_kept (s : Session) (r : Except FileError FileTree) : (s.change r).Kept s := by
  cases r with
  | ok files => exact ⟨rfl, rfl⟩
  | error e => exact ⟨rfl, rfl⟩

/-- Opening the rc file is no load. -/
theorem loadCount_openRcFile (files : FileTree) (path : String) (refusal : Option String) :
    Event.loadCount (openRcFile files path refusal).events = 0 := by
  have hfound := RcFile.loadCount_findOrCreate files path
  unfold openRcFile
  generalize RcFile.findOrCreate files path = found at hfound ⊢
  obtain ⟨after, events, result⟩ := found
  dsimp only at hfound ⊢
  cases result with
  | error e => exact hfound
  | ok _ =>
    cases refusal with
    | none => exact hfound
    | some message =>
      dsimp only
      rw [Event.loadCount_append, hfound]
      rfl

/-- The response to a reload that comes to a config. -/
theorem Response.Loaded.of_follows {s : Session} {o : Reload.Outcome} {path : String}
    {config : Config} (h : o.Follows s.store path (.ok config)) {response : Response}
    (hstore : response.session.store = o.store) (hevents : response.events = o.events)
    (hsilent : response.notifications = []) : response.Loaded s path config where
  snapshot := by rw [hstore, h.1]; rfl
  silent := hsilent
  logged := by rw [hevents]; exact h.2.2

/-- The response to a reload that comes to a failure. -/
theorem Response.Kept.of_follows {s : Session} {o : Reload.Outcome} {path : String}
    {e : ConfigError} (h : o.Follows s.store path (.error e)) {response : Response}
    (hstore : response.session.store = o.store) (hevents : response.events = o.events) :
    response.Kept s where
  store := by rw [hstore, h.1]
  unlogged := by rw [hevents]; exact h.2.2

/-- Every request obeys the law. -/
theorem perform_storeLaw (s : Session) (request : Request) :
    s.StoreLaw (s.perform request) request := by
  cases request with
  | write path content => exact s.change_kept _
  | remove path => exact s.change_kept _
  | makeDirectory path => exact s.change_kept _
  | find path => exact ⟨rfl, RcFile.loadCount_findOrCreate s.files path⟩
  | read path => exact ⟨rfl, RcFile.loadCount_findOrCreate s.files path⟩
  | openFile path refusal => exact ⟨rfl, loadCount_openRcFile s.files path refusal⟩
  | reload path chords =>
    have h := Reload.run_follows s.files s.store path chords
    simp only [StoreLaw, perform]
    generalize Reload.run s.files s.store path chords = o at h ⊢
    cases hv : Reload.verdict s.files path chords with
    | ok config =>
      rw [hv] at h
      refine .of_follows h rfl rfl ?_
      simp only [Reload.Outcome.notifications, h.2.1]
    | error e =>
      rw [hv] at h
      refine ⟨.of_follows h rfl rfl, ?_⟩
      simp only [Reload.Outcome.notifications, h.2.1]
      rfl
  | tryReload path chords =>
    -- The same reload; only its failure goes to the caller and not to the user.
    have h := Reload.run_follows s.files s.store path chords
    simp only [StoreLaw, perform]
    generalize Reload.run s.files s.store path chords = o at h ⊢
    cases hv : Reload.verdict s.files path chords with
    | ok config =>
      rw [hv] at h
      exact ⟨.of_follows h rfl rfl rfl, by rw [h.2.1]⟩
    | error e =>
      rw [hv] at h
      exact ⟨.of_follows h rfl rfl, trivial, by rw [h.2.1]⟩

/-! ## Whole runs -/

/-- A run of requests is a run of the first ones and then of the others. -/
theorem run_append (s : Session) (before after : List Request) :
    s.run (before ++ after) =
      (((s.run before).1.run after).1, (s.run before).2 ++ ((s.run before).1.run after).2) := by
  induction before generalizing s with
  | nil => rfl
  | cons request rest ih =>
    simp only [List.cons_append, run]
    rw [ih]

/-- What a request loads: a path and the config that a reload of it comes to. -/
def Request.load? (files : FileTree) : Request → Option (String × Config)
  | .reload path chords | .tryReload path chords =>
    (Reload.verdict files path chords).toOption.map fun config => (path, config)
  | _ => none

/-- The paths and configs that are loaded along a run, in order. -/
def loads (s : Session) : List Request → List (String × Config)
  | [] => []
  | request :: rest => (request.load? s.files).toList ++ loads (s.perform request).session rest

/-- The store after one request: with what the request loads, if it loads anything. -/
theorem perform_store (s : Session) (request : Request) :
    (s.perform request).session.store =
      (request.load? s.files).toList.foldl (fun store l => store.publish l.2 l.1) s.store := by
  have law := s.perform_storeLaw request
  have loaded {path : String} {config : Config}
      (h : (s.perform request).Loaded s path config) :
      (s.perform request).session.store = s.store.publish config path :=
    congrArg Store.mk h.snapshot
  cases request with
  | reload path chords =>
    simp only [StoreLaw] at law
    simp only [Request.load?]
    cases hv : Reload.verdict s.files path chords with
    | ok config => rw [hv] at law; exact loaded law
    | error e => rw [hv] at law; exact law.1.store
  | tryReload path chords =>
    simp only [StoreLaw] at law
    simp only [Request.load?]
    cases hv : Reload.verdict s.files path chords with
    | ok config => rw [hv] at law; exact loaded law.1
    | error e => rw [hv] at law; exact law.1.store
  | _ => exact law.store

/-- The store after a run: everything that is loaded along it, published in order. -/
theorem run_store (s : Session) (requests : List Request) :
    (s.run requests).1.store =
      (s.loads requests).foldl (fun store l => store.publish l.2 l.1) s.store := by
  -- The store changes along the run, so the induction is for every session.
  induction requests generalizing s with
  | nil => rfl
  | cons request rest ih =>
    simp only [run, loads]
    rw [ih, perform_store, List.foldl_append]

/-- The snapshot of the last of some loads, numbered by how many there are; the default snapshot if
there is none. -/
def lastSnapshot (loads : List (String × Config)) : Snapshot :=
  match loads.getLast? with
  | none => { edition := 0, config := { appearance := ⟨some "Ataman"⟩, bindings := [] },
              source := none, dated := false }
  | some (path, config) => { edition := loads.length, config, source := some path, dated := true }

/-- Published in order into a fresh store, loads leave the snapshot of the last one. -/
theorem publish_all (loads : List (String × Config)) :
    (loads.foldl (fun store l => store.publish l.2 l.1) ({} : Store)).current =
      lastSnapshot loads := by
  -- The snapshot is that of the last load, so the induction goes from the end.
  induction loads using List.reverseRecOn with
  | nil => rfl
  | append_singleton loads l ih =>
    have hedition : (lastSnapshot loads).edition = loads.length := by
      unfold lastSnapshot
      cases h : loads.getLast? with
      | none => simp [List.getLast?_eq_none_iff.1 h]
      | some l => rfl
    rw [List.foldl_append]
    rw [List.foldl_cons, List.foldl_nil, Store.publish, ih, hedition]
    simp [lastSnapshot]

/-- A session on a fresh store, at any point of any run and at the request that comes next: the
response to it obeys the law, the store holds the snapshot of the last load so far, or the default
snapshot, and it counts as loaded exactly if there has been a load. -/
theorem snapshot_along_run (files : FileTree) (requests : List Request) (next : Request) :
    let start : Session := { files }
    let s := (start.run requests).1
    start.run (requests ++ [next]) =
        ((s.perform next).session, (start.run requests).2 ++ [s.perform next]) ∧
      s.StoreLaw (s.perform next) next ∧
      s.store.current = lastSnapshot (start.loads requests) ∧
      (s.store.isLoaded = true ↔ start.loads requests ≠ []) := by
  intro start s
  have hcurrent : s.store.current = lastSnapshot (start.loads requests) := by
    rw [run_store start requests]
    exact publish_all _
  refine ⟨run_append start requests [next], s.perform_storeLaw next, hcurrent, ?_⟩
  rw [Store.isLoaded, hcurrent, lastSnapshot]
  cases h : (start.loads requests).getLast? with
  | none => simpa using h
  | some l =>
    have hne : start.loads requests ≠ [] := by
      intro hnil
      rw [hnil] at h
      cases h
    simp [hne]

end Session

end LeaderKey
