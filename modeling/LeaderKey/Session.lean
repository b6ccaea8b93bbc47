import LeaderKey.Reload

/-!
# Sessions

A session is a run of requests on files and a store: changes of files by the user, and reloads,
reads and openings of rc files by the program. `perform` answers one request, and `perform` along a
list of requests is `run`.
-/

namespace LeaderKey

/-- What a session works on. -/
structure Session where
  /-- The files. -/
  files : FileTree := {}
  /-- The store of the program. -/
  store : Store := {}

namespace Session

/-- What can be asked for in a session. -/
inductive Request where
  /-- The user writes a file. -/
  | write (path : String) (content : ByteArray)
  /-- The user removes a file or an empty directory. -/
  | remove (path : String)
  /-- The user makes a directory. -/
  | makeDirectory (path : String)
  /-- The program makes sure that there is an rc file. -/
  | find (path : String)
  /-- The program reads an rc file. -/
  | read (path : String)
  /-- The program reloads an rc file and tells the user if it fails. -/
  | reload (path : String) (chords : ChordSource)
  /-- The program reloads an rc file and reports the outcome to its caller. -/
  | tryReload (path : String) (chords : ChordSource)
  /-- The program has an rc file opened; `refusal` is what the host says if it cannot. -/
  | openFile (path : String) (refusal : Option String)

/-- What a request is answered with. -/
inductive Reply where
  | done
  | failedFile (e : FileError)
  | failed (e : ConfigError)
  | path (path : String)
  | text (text : String)
  | snapshot (s : Snapshot)

/-- What a request gives: the session afterwards, and all that it shows. -/
structure Response where
  /-- The session afterwards. -/
  session : Session
  /-- The answer. -/
  reply : Reply
  /-- What was recorded. -/
  events : List Event := []
  /-- What the user was told. -/
  notifications : List Notification := []
  /-- The paths that the host was asked to open. -/
  asked : List String := []
  /-- The paths among them that the host did open. -/
  opened : List String := []

/-- A change of files by the user. -/
def change (s : Session) (r : Except FileError FileTree) : Response :=
  match r with
  | .ok files => { session := { s with files }, reply := .done }
  | .error e => { session := s, reply := .failedFile e }

/-- An operation on an rc file. -/
def access {α : Type} (s : Session) (o : RcFile.Outcome α) (reply : α → Reply) : Response :=
  { session := { s with files := o.files }
    events := o.events
    reply :=
      match o.result with
      | .ok a => reply a
      | .error e => .failed e }

/-- Answers one request. -/
def perform (s : Session) : Request → Response
  | .write path content => s.change (s.files.write path content)
  | .remove path => s.change (s.files.remove path)
  | .makeDirectory path => s.change (s.files.makeDirectory path)
  | .find path => s.access (RcFile.findOrCreate s.files path) fun () => .path path
  | .read path => s.access (RcFile.read s.files path) .text
  | .reload path chords =>
    let o := Reload.run s.files s.store path chords
    { session := ⟨o.files, o.store⟩, reply := .done, events := o.events,
      notifications := o.notifications }
  | .tryReload path chords =>
    let o := Reload.run s.files s.store path chords
    { session := ⟨o.files, o.store⟩, events := o.events
      reply :=
        match o.result with
        | .ok snapshot => .snapshot snapshot
        | .error e => .failed e }
  | .openFile path refusal =>
    let o := openRcFile s.files path refusal
    { session := { s with files := o.files }, reply := .done, events := o.events,
      notifications := o.notifications, asked := o.asked, opened := o.opened }

/-- Answers requests one after the other; the last session and all responses. -/
def run (s : Session) : List Request → Session × List Response
  | [] => (s, [])
  | request :: rest =>
    let response := s.perform request
    let (last, responses) := run response.session rest
    (last, response :: responses)

end Session

end LeaderKey
