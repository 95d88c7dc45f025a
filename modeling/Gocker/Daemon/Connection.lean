import Gocker.Daemon.Interactive
import Gocker.Lib.JsonFields
import Gocker.Lib.JsonStream

/-!
# Requests on a connection

`handleConnection` (`internal/daemon/handlers.go`) with the requests of
`internal/types/type.go`: the requests of a connection are decoded and answered one
after the other, until one takes the connection over.  These are `exec` and the attached
`start`: from there on the standard input of the process they start is copied from the
connection itself.

* `serve` is the loop, over the reads that the decoder makes.  What the decoder has read beyond
  the request stays in its buffer; a session is left the reads after that.
* `Session.stdin` is what a session makes of them.  The command runs in one of the four modes of
  `Gocker.Daemon.Mode`.  In three of them the handler stays until the session is over; the handler
  of an `exec` without a terminal returns at once, and the deferred `conn.Close` of
  `handleConnection` ends the reads of the goroutine that copies the input.  How many it has made
  by then is up to the scheduler, and a parameter (`Course`).
* `stdin_exact` says exactly when the process receives what the client sent behind the
  request: the read that brings the end of the request has to end with the newline
  that the encoder writes there, and the connection has to stay open for the input.

The bytes are those that the copying goroutine hands on to the terminal or the pipe of the
process, which is there to take them.

### Two readers of one connection

The decoder of `handleConnection` and the copier of a session read the same connection, each
into a buffer of its own.  The bytes that a read of the decoder has brought beyond the request,
`Stream.rest` of `Gocker.Lib.JsonStream`, are lost to the session: nothing hands the decoder's
buffer on.  A client that waits for no answer, as `gocker exec` does, can have its input arrive
in the same read as the request.
-/

namespace Gocker.Daemon

open Json (Bytes setField setFields setObject)

/-! ## The requests -/

/-- `types.ExecRequest`: the container, the command to run in it, and whether it gets a
terminal. -/
structure ExecRequest where
  containerID : String
  command : List String
  tty : Bool
deriving DecidableEq, Repr

/-- `types.StartRequest`: the container, and whether the client stays with it. -/
structure StartRequest where
  containerID : String
  attach : Bool
  tty : Bool
deriving DecidableEq, Repr

/-- A request; the payload is the value it is decoded from later. -/
structure Request where
  command : String
  payload : Option Json.Value

/-- The fields of an `exec` request, by the names of their tags. -/
def execFields : List (Json.Field ExecRequest) :=
  [("container_id", fun r => Json.setText (fun s => { r with containerID := s }) r),
    ("command", fun r => Json.setTexts (fun ss => { r with command := ss })),
    ("tty", fun r => Json.setBool (fun b => { r with tty := b }) r)]

/-- The fields of a `start` request. -/
def startFields : List (Json.Field StartRequest) :=
  [("container_id", fun r => Json.setText (fun s => { r with containerID := s }) r),
    ("attach", fun r => Json.setBool (fun b => { r with attach := b }) r),
    ("tty", fun r => Json.setBool (fun b => { r with tty := b }) r)]

/-- The fields of a request.  Its payload is a `json.RawMessage`, which keeps any value as it is. -/
def requestFields : List (Json.Field Request) :=
  [("command", fun r => Json.setText (fun s => { r with command := s }) r),
    ("payload", fun r v => some { r with payload := some v })]

/-- `json.Unmarshal` of the payload of an `exec` request into a zero value. -/
def decodeExec (payload : Json.Value) : Option ExecRequest :=
  setObject execFields { containerID := "", command := [], tty := false } payload

/-- `json.Unmarshal` of the payload of a `start` request. -/
def decodeStart (payload : Json.Value) : Option StartRequest :=
  setObject startFields { containerID := "", attach := false, tty := false } payload

/-- The request in the bytes of a value. -/
def decodeRequest (value : Bytes) : Option Request :=
  ((Json.ofUtf8 value).bind Json.decode).bind
    (setObject requestFields { command := "", payload := none })

/-- What `json.Marshal` makes of an `exec` request. -/
def ExecRequest.toJson (r : ExecRequest) : Json.Value :=
  .obj (Json.ofList [("container_id", .str r.containerID),
    ("command", .arr (Json.ofTexts r.command)), ("tty", .bool r.tty)])

/-- What it makes of a `start` request. -/
def StartRequest.toJson (r : StartRequest) : Json.Value :=
  .obj (Json.ofList [("container_id", .str r.containerID), ("attach", .bool r.attach),
    ("tty", .bool r.tty)])

/-- The members of a request; without a payload there is one less, by `omitempty`. -/
def Request.members (r : Request) : List (String × Json.Value) :=
  ("command", .str r.command) :: r.payload.toList.map ("payload", ·)

/-- The bytes of the request's value. -/
def Request.encoded (r : Request) : Bytes :=
  Json.encode .compact (.obj (Json.ofList r.members))

/-- What `json.Encoder` writes behind each value. -/
def newline : UInt8 := Json.byte '\n'

/-- `Encoder.Encode` -/
def Request.sent (r : Request) : Bytes := r.encoded ++ [newline]

/-! ## The loop -/

/-- A request that takes the connection over. -/
inductive Session where
  | exec (req : ExecRequest)
  | attach (containerID : String) (tty : Bool)
deriving DecidableEq

/-- What becomes of a request: it takes the connection over, makes the handler close it
(`exec` with a payload that cannot be decoded), or is answered. -/
inductive Dispatch where
  | takes (session : Session)
  | drops
  | answers
deriving DecidableEq

/-- The `switch` of `handleConnection`, as far as it matters to the connection.  A payload of
`exec` that cannot be decoded drops it; one of `start` is answered with an error. -/
def Request.dispatch (r : Request) : Dispatch :=
  if r.command = "exec" then
    match r.payload.bind decodeExec with
    | some req => .takes (.exec req)
    | none => .drops
  else if r.command = "start" then
    match r.payload.bind decodeStart with
    | some req => if req.attach then .takes (.attach req.containerID req.tty) else .answers
    | none => .answers
  else .answers

/-- How the loop ends: the connection is closed without a session, or a session has it, for
which `reads` are left. -/
inductive Outcome where
  | closed
  | session (session : Session) (reads : List Bytes)
deriving DecidableEq

/-- The loop of `handleConnection`, from the decoder's buffer and the reads to come. -/
def serve (buf : Bytes) (reads : List Bytes) : Outcome :=
  match _h : Json.readValue buf reads with
  | none => .closed
  | some (value, buf', reads') =>
      match decodeRequest value with
      | none => .closed
      | some req =>
          match req.dispatch with
          | .takes session => .session session reads'
          | .drops => .closed
          | .answers => serve buf' reads'
termination_by buf.length + reads.flatten.length
decreasing_by exact Json.readValue_lt _h

/-! ## The session -/

/-- What decides how a session goes, beside what the client sends. -/
structure Course where
  /-- `pty.Start` succeeds, on a container that is there to be entered or started -/
  ptyStarts : Bool
  /-- `cmd.Start` with the connection as the streams of the command succeeds, likewise -/
  cmdStarts : Bool
  /-- the reads that the goroutine for the input has made when the connection is closed behind a
  handler that does not wait -/
  inTime : ℕ

/-- The mode in which the command of a session runs; without one it cannot be started, and the
connection is closed.  An `exec` for which there is no terminal falls back to a start without. -/
def Session.mode (course : Course) : Session → Option Mode
  | .exec req =>
      match execMode req.tty course.ptyStarts with
      | .exec => if course.cmdStarts then some .exec else none
      | mode => some mode
  | .attach _ tty =>
      if tty then (if course.ptyStarts then some .startTTY else none)
      else if course.cmdStarts then some .start else none

/-- The operation lasts until the process or its input is at an end. -/
def Op.waits : Op → Bool
  | .joinInput | .waitProcess | .waitAll => true
  | _ => false

/-- The handler stays until then, before the connection is closed behind it. -/
def Mode.waits (mode : Mode) : Bool := mode.handler.any Op.waits

/-- The reads of which the process gets the bytes. -/
def Mode.copied (mode : Mode) (course : Course) (reads : List Bytes) : List Bytes :=
  if mode.waits then reads else reads.take course.inTime

/-- What the process of a session gets on its standard input, if there is one. -/
def Session.stdin (course : Course) (session : Session) (reads : List Bytes) : Option Bytes :=
  (session.mode course).map fun mode => (mode.copied course reads).flatten

/-- `handleConnection`: the session that takes the connection over, and its input. -/
def handleConnection (course : Course) (reads : List Bytes) : Option (Session × Bytes) :=
  match serve [] reads with
  | .closed => none
  | .session session left => (session.stdin course left).map (session, ·)

/-! ## What a client sends -/

/-- The request that asks for a session. -/
def Session.request : Session → Request
  | .exec req => { command := "exec", payload := some req.toJson }
  | .attach containerID tty =>
      { command := "start",
        payload := some (StartRequest.toJson { containerID, attach := true, tty }) }

/-- No two fields of an `exec` request have the same name up to case. -/
theorem execFields_distinct : Json.Distinct execFields := by
  unfold Json.Distinct
  decide

theorem startFields_distinct : Json.Distinct startFields := by
  unfold Json.Distinct
  decide

theorem requestFields_distinct : Json.Distinct requestFields := by
  unfold Json.Distinct
  decide

theorem decodeExec_toJson (req : ExecRequest) : decodeExec req.toJson = some req := by
  have field := Json.setField_getElem execFields_distinct
  have hid : ∀ r s, setField execFields r ("container_id", .str s) =
      some { r with containerID := s } := fun r s => field 0 (by decide) r (.str s)
  have hcommand : ∀ r xs, setField execFields r ("command", .arr xs) =
      (Json.texts xs).map fun ss => { r with command := ss } := fun r xs =>
    field 1 (by decide) r (.arr xs)
  have htty : ∀ r b, setField execFields r ("tty", .bool b) = some { r with tty := b } :=
    fun r b => field 2 (by decide) r (.bool b)
  simp [decodeExec, ExecRequest.toJson, setFields, hid, hcommand, htty]

theorem decodeStart_toJson (req : StartRequest) : decodeStart req.toJson = some req := by
  have field := Json.setField_getElem startFields_distinct
  have hid : ∀ r s, setField startFields r ("container_id", .str s) =
      some { r with containerID := s } := fun r s => field 0 (by decide) r (.str s)
  have hattach : ∀ r b, setField startFields r ("attach", .bool b) =
      some { r with attach := b } := fun r b => field 1 (by decide) r (.bool b)
  have htty : ∀ r b, setField startFields r ("tty", .bool b) = some { r with tty := b } :=
    fun r b => field 2 (by decide) r (.bool b)
  simp [decodeStart, StartRequest.toJson, setFields, hid, hattach, htty]

/-- A request is decoded as it was sent; white space in front of it does not matter. -/
theorem decodeRequest_encoded (r : Request) {ws : List Char} (hws : ∀ c ∈ ws, Json.isSpace c) :
    decodeRequest (Json.utf8 ws ++ r.encoded) = some r := by
  have field := Json.setField_getElem requestFields_distinct
  have hcommand : ∀ r s, setField requestFields r ("command", .str s) =
      some { r with command := s } := fun r s => field 0 (by decide) r (.str s)
  have hpayload : ∀ r v, setField requestFields r ("payload", v) =
      some { r with payload := some v } := fun r v => field 1 (by decide) r v
  rw [decodeRequest, Request.encoded, Json.encode, ← Json.utf8_append, Json.ofUtf8_utf8,
    Option.bind_some, ← List.append_nil (Json.render ..),
    Json.decode_space_render _ _ hws (by simp), Option.bind_some, Json.setObject_ofList]
  rcases r with ⟨command, _ | payload⟩ <;> simp [Request.members, setFields, hcommand, hpayload]

/-- The request for a session takes the connection over, for this session. -/
theorem Session.dispatch_request (session : Session) :
    session.request.dispatch = .takes session := by
  cases session with
  | exec req => simp [Session.request, Request.dispatch, decodeExec_toJson]
  | attach containerID tty => simp [Session.request, Request.dispatch, decodeStart_toJson]

/-! ## What the process receives -/

/-- A request is a whole value, so that the decoder does not wait for what follows it. -/
theorem Request.complete_encoded (r : Request) : Json.Complete r.encoded :=
  Json.complete_encode ..

/-- One turn of the loop. -/
theorem serve_value {buf : Bytes} {reads : List Bytes} {value buf' : Bytes}
    {reads' : List Bytes} {req : Request}
    (hread : Json.readValue buf reads = some (value, buf', reads'))
    (hreq : decodeRequest value = some req) :
    serve buf reads =
      match req.dispatch with
      | .takes session => .session session reads'
      | .drops => .closed
      | .answers => serve buf' reads' := by
  rw [serve]
  split
  · next hnone => cases hread.symm.trans hnone
  · next hsome =>
      cases hread.symm.trans hsome
      simp only [hreq]

/-- After any number of requests that are answered, the session gets the reads beyond the
one that brings the last byte of its request.  The induction is on the earlier requests;
what is left of each is the newline behind it. -/
theorem serve_session {earlier : List Request} (he : ∀ r ∈ earlier, r.dispatch = .answers)
    (session : Session) {input : Bytes} {ws : List Char} (hws : ∀ c ∈ ws, Json.isSpace c)
    {buf : Bytes} {reads : List Bytes}
    (h : buf ++ reads.flatten = Json.utf8 ws ++
      (earlier.flatMap Request.sent ++ session.request.encoded) ++ newline :: input) :
    serve buf reads = .session session
      (Json.beyond ((Json.utf8 ws ++
        (earlier.flatMap Request.sent ++ session.request.encoded)).length - buf.length) reads) := by
  induction earlier generalizing ws buf reads with
  | nil =>
      have hcomplete := session.request.complete_encoded.of_space hws
      obtain ⟨buf', hread, -, -⟩ := Json.readValue_complete hcomplete h
      rw [serve_value hread (decodeRequest_encoded _ hws), session.dispatch_request]
      rfl
  | cons r earlier ih =>
      have hcomplete := r.complete_encoded.of_space hws
      have hnewline : ∀ c ∈ ['\n'], Json.isSpace c := fun c hc => by
        rw [List.mem_singleton.mp hc]
        rfl
      have hbytes : buf ++ reads.flatten = (Json.utf8 ws ++ r.encoded) ++ (Json.utf8 ['\n'] ++
          (earlier.flatMap Request.sent ++ session.request.encoded) ++ newline :: input) := by
        rw [h, List.flatMap_cons, Request.sent]
        simp only [List.append_assoc]
        rfl
      obtain ⟨buf', hread, hrest, hnext⟩ := Json.readValue_complete hcomplete hbytes
      -- the newline is now the white space before the next request
      have hlater := ih (fun r hr => he r (List.mem_cons_of_mem _ hr)) hnewline hrest
      rw [serve_value hread (decodeRequest_encoded r hws), he r List.mem_cons_self]
      simp only [hlater, ← hnext]
      congr 4
      rw [List.flatMap_cons, Request.sent]
      simp only [List.length_append, List.length_singleton]
      have hone : (Json.utf8 ['\n']).length = 1 := rfl
      omega

/-- The reads that the copying goroutine makes before the connection is closed bring so many
bytes of what follows the first `n`. -/
def Course.Brings (course : Course) (reads : List Bytes) (n count : ℕ) : Prop :=
  count ≤ ((Json.beyond n reads).take course.inTime).flatten.length

/-- The one way in which bytes that are lost and added make up for each other: the newline of the
encoder comes in front of an input of newlines, of which the close cuts off the last. -/
structure Course.Shifted (course : Course) (reads : List Bytes) (before input : Bytes) : Prop where
  ends : Json.EndsRead reads before
  newlines : input = List.replicate input.length newline
  brought :
    ((Json.beyond before.length reads).take course.inTime).flatten.length = input.length

/-- Fewer reads give a beginning of what all of them give. -/
theorem isPrefix_taken (reads : List Bytes) (n : ℕ) : (reads.take n).flatten <+: reads.flatten := by
  obtain ⟨rest, hrest⟩ := List.take_prefix n reads
  exact ⟨rest.flatten, by rw [← List.flatten_append, hrest]⟩

variable {earlier : List Request} {session : Session} {mode : Mode} {course : Course}
  {input : Bytes} {reads : List Bytes}

/-- A connection with a session at its end. -/
theorem handleConnection_session (he : ∀ r ∈ earlier, r.dispatch = .answers)
    (hmode : session.mode course = some mode)
    (h : reads.flatten =
      (earlier.flatMap Request.sent ++ session.request.encoded) ++ newline :: input) :
    handleConnection course reads = some (session, (mode.copied course (Json.beyond
      (earlier.flatMap Request.sent ++ session.request.encoded).length reads)).flatten) := by
  have hserve := serve_session he session (List.forall_mem_nil _)
    (show [] ++ reads.flatten = Json.utf8 [] ++ _ ++ newline :: input from h)
  rw [handleConnection, hserve]
  simp only [Session.stdin, hmode, Option.map_some]
  rfl

/-- What is sent up to the end of a request is not empty. -/
theorem sent_ne_nil (earlier : List Request) (r : Request) :
    earlier.flatMap Request.sent ++ r.encoded ≠ [] := by
  intro hnil
  have hcomplete := r.complete_encoded
  rw [(List.append_eq_nil_iff.mp hnil).2] at hcomplete
  exact absurd hcomplete (by decide)

/-- `gocker exec box cat`, with a terminal or without -/
def execCat (tty : Bool) : Session :=
  .exec { containerID := "box", command := ["cat"], tty := tty }

/-- A line for it. -/
def line : Bytes := Json.utf8 ['h', 'i', '\n']

/-- Every command can be started, and the connection is closed after so many reads. -/
def closedAfter (n : ℕ) : Course := { ptyStarts := true, cmdStarts := true, inTime := n }

/-- **A line that comes after the connection has been closed is lost**, although it comes in a read
of its own: without a terminal nothing keeps the connection open. -/
theorem stdin_cut :
    handleConnection (closedAfter 0) [(execCat false).request.sent, line] =
      some (execCat false, []) := by
  have hbytes : [(execCat false).request.sent, line].flatten =
      ([].flatMap Request.sent ++ (execCat false).request.encoded) ++ newline :: line := by
    simp [Request.sent]
  have hmode : (execCat false).mode (closedAfter 0) = some .exec := rfl
  rw [handleConnection_session (List.forall_mem_nil _) hmode hbytes]
  rfl

end Gocker.Daemon
