import Mathlib.Logic.Function.Basic
import RingStore.Connection

/-!
# Clients and their sessions

Any number of clients give command lines to one service, one line at a time and in any order. Each
client has a session of its own, which starts on database zero, and a line is executed for the
session of the client that gave it.

## Main definitions

* `Request`: a command line and the client that gives it.
* `Attended`: something that executes command lines, with the sessions of its clients.
* `Attended.after`, `Attended.afterAll`: one request, and many.
-/

namespace RingStore

/-- A client gives a command line. -/
structure Request where
  /-- The client. -/
  client : Nat
  /-- The command line. -/
  line : CommandLine

/-- Something that executes command lines, with the sessions of its clients. -/
structure Attended (σ : Type) where
  /-- Its state. -/
  state : σ
  /-- The sessions of all clients. -/
  sessions : Nat → Session

namespace Attended

variable {σ : Type}

/-- Before any client has come. -/
def start (state : σ) : Attended σ :=
  ⟨state, fun _ => .start⟩

/-- What a request gets for the session of its client. -/
def serve (attended : Attended σ) (service : Nat → Service σ) (request : Request) : Served σ :=
  service request.client attended.state (attended.sessions request.client) request.line

/-- After a request. -/
def after (attended : Attended σ) (service : Nat → Service σ) (request : Request) : Attended σ :=
  let served := attended.serve service request
  ⟨served.state, Function.update attended.sessions request.client served.session⟩

/-- After requests, one at a time. -/
def afterAll (attended : Attended σ) (service : Nat → Service σ) (requests : List Request) :
    Attended σ :=
  requests.foldl (fun attended request => attended.after service request) attended

end Attended

/-- What a store without other members does for all clients. -/
def Node.service : Nat → Service Node :=
  fun _ => Node.serve

end RingStore
