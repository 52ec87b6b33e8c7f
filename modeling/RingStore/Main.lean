import RingStore.Server
import RingStore.Settings

/-!
# The program

Serves one client on the standard streams, from a node with the settings of a file. The file's path
is the only argument; without it the node has the usual settings. The journal, if the settings ask
for one, is recovered first, and what clients change is appended to it.

All that is decided here is which event of the server comes next: the client's task answers what it
has received, and a read is made when it waits for more.
-/

namespace RingStore

/-- A failed file operation in words. -/
def describe : IO.Error → String
  | .noFileOrDirectory .. => Journal.Place.missing.message
  | cause => cause.toString

/-- The settings that a file gives. -/
def loadSettings (path : String) : IO Settings := do
  match ← (IO.FS.readBinFile path).toBaseIO with
  | .error cause => throw (.userError s!"cannot read config file {path}: {describe cause}")
  | .ok content =>
    match Settings.load content.toList with
    | .ok settings => return settings
    | .error .unreadable =>
      throw (.userError s!"cannot read config file {path}: stream did not contain valid UTF-8")
    | .error .invalid => throw (.userError s!"invalid config file {path}")

/-- What lies at the journal's path. -/
def findJournal (path : String) : IO Journal.Place := do
  match ← (IO.FS.readBinFile path).toBaseIO with
  | .ok content => return .file content.toList
  | .error (.noFileOrDirectory ..) => return .vacant
  | .error cause => throw cause

/-- Writes what the journal holds to its path. -/
def saveJournal (path : String) (journaled : JournaledNode) : IO Unit := do
  if let some recorder := journaled.recorder then
    IO.FS.writeBinFile path ⟨recorder.writer.content.toArray⟩

/-- Runs the server until its only task has ended. The client is read byte by byte, so that a
request is answered as soon as it is whole, and the journal is saved before the client hears of a
change. -/
partial def serveTask (input output : IO.FS.Stream) (save : JournaledNode → IO Unit)
    (server : Server) : IO Server := do
  let some task := server.tasks[0]? | return server
  match task.phase with
  | .looking => serveTask input output save (server.step (.answer 0))
  | .replying reply _ =>
    let settled := server.changeRecorder (Journal.Recorder.run journalChecksum)
    save settled.journaled
    output.write ⟨reply.encode.toArray⟩
    output.flush
    serveTask input output save (settled.step (.reply 0))
  | .waiting =>
    let chunk ← input.read 1
    serveTask input output save (server.step (.receive 0 chunk.toList))
  | .ended _ => return server

/-- Serves the client on the standard streams. -/
def serveStandardStreams (settings : Settings) : IO Unit := do
  let place ← if settings.appendOnly then findJournal settings.appendFilename else pure .vacant
  let options : JournalOptions := ⟨settings.appendOnly, settings.appendSync⟩
  match JournaledNode.openAt settings.databases options place with
  | .error failure => throw (.userError failure.message)
  | .ok journaled =>
    let save := saveJournal settings.appendFilename
    let server := (Server.start journaled).step .accept
    let served ← serveTask (← IO.getStdin) (← IO.getStdout) save server
    let closing := served.run [.signal, .stopAccepting, .close]
    let drained := closing.changeRecorder (Journal.Recorder.run journalChecksum)
    save (drained.step .stop).journaled

end RingStore

/-- Serves one client on the standard streams with the settings of the file at the given path. -/
def main (arguments : List String) : IO UInt32 := do
  try
    let settings ← match arguments with
      | path :: _ => RingStore.loadSettings path
      | [] => pure RingStore.Settings.usual
    RingStore.serveStandardStreams settings
    return 0
  catch cause =>
    IO.eprintln cause.toString
    return 1
