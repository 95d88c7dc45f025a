import Gocker.Container.Pipe
import Gocker.Container.Resolve
import Gocker.Daemon.Connection
import Gocker.Image.Manifest
import Gocker.Image.Reference

/-!
# Answers

What the daemon answers (`internal/daemon/handlers.go`) and what its clients make of it:
`SendRequest` (`internal/api/client.go`), `psCommand` (`cmd/ps.go`) and `imagesCmd`
(`cmd/images.go`).

`respond` is the loop of `Gocker.Daemon.serve` with the answers.  `respond_requests` says that
each request has one answer, in their order; `psOutput_exchange` and `imagesOutput_exchange` that
the clients show what is on the disk of the daemon.

### The daemon behind the handlers

What the handlers call is a parameter (`Backend`): the directory of the records, the manifest,
and the effects of a run and of a pull on the state of the daemon.  So the same loop is used over
any of them, and a statement about the clients says what it takes from the state:
`Gocker.Container.list` for `ps`, `Gocker.Image.listImages` for `images`.

### Requests that take the connection over

An `exec` or an attached `start` has no answer of this kind: `respond_requests` has any tail of
reads behind the requests, so that a connection that ends in a session, or with a request cut
off, is covered up to there.
-/

namespace Gocker.Daemon

open Container (Listing Representable)
open Image (ManifestFile ManifestError)
open Json (Bytes setField setFields setObject)

/-! ## The answer -/

/-- `types.Response`: a status, with a message or with data. -/
structure Response where
  status : String
  message : String
  data : Option Json.Value

namespace Response

/-- The answer to a request that failed. -/
def error (message : String) : Response := { status := "error", message := message, data := none }

/-- The answer to one that succeeded, with a message for the user. -/
def success (message : String) : Response :=
  { status := "success", message := message, data := none }

/-- The answer that carries data and no message. -/
def withData (data : Json.Value) : Response :=
  { status := "success", message := "", data := some data }

/-- The members of an answer, without those that are empty. -/
def members (r : Response) : List (String × Json.Value) :=
  ("status", .str r.status) :: Container.omitEmpty "message" r.message ++
    r.data.toList.map ("data", ·)

/-- The bytes of an answer, as `json.Encoder` writes them before its newline. -/
def encoded (r : Response) : Bytes := Json.encode .compact (.obj (Json.ofList r.members))

/-- `Encoder.Encode` -/
def sent (r : Response) : Bytes := r.encoded ++ [newline]

end Response

/-- The fields of an answer, for the client's decoder. -/
def responseFields : List (Json.Field Response) :=
  [("status", fun r => Json.setText (fun s => { r with status := s }) r),
    ("message", fun r => Json.setText (fun s => { r with message := s }) r),
    ("data", fun r v => some { r with data := some v })]

/-- `json.Decoder.Decode` into a zero `Response`. -/
def decodeResponse (value : Bytes) : Option Response :=
  ((Json.ofUtf8 value).bind Json.decode).bind
    (setObject responseFields { status := "", message := "", data := none })

/-! ## What lies behind the handlers -/

/-- The two managers, on a state `σ` of the machine. -/
structure Managers (σ : Type) where
  /-- `CreateAndRun`, which also changes the request -/
  createAndRun : RunRequest → σ → Except String (RunRequest × ContainerID) × σ
  start : ContainerID → σ → Except String Unit × σ
  pullImage : String → σ → Except String Unit × σ
  /-- the storage directory of the containers -/
  containers : σ → Listing
  manifest : σ → ManifestFile
  /-- the text of the error for a payload that cannot be decoded -/
  invalid : Option Json.Value → String
  manifestText : ManifestError → String

/-- The elements of an array. -/
def elements (f : ContainerInfo → Json.Value) : List ContainerInfo → Json.Node .elements
  | [] => .nil
  | r :: rs => .cons (f r) (elements f rs)

/-- A slice without elements has not been allocated, and is encoded as `null`. -/
def containersData (rs : List ContainerInfo) : Json.Value :=
  if rs = [] then .null
  else .arr (elements (fun r => .obj (Json.ofList (Container.recordMembers r))) rs)

/-- The same, unless there is no manifest. -/
def imagesData (file : ManifestFile) (tags : List String) : Json.Value :=
  if tags = [] ∧ file ≠ .missing then .null else .arr (Json.ofTexts tags)

/-- The field of the payload of a `pull` request. -/
def pullFields : List (Json.Field String) := [("image", fun r => Json.setText id r)]

/-! ## The handlers -/

section
variable {σ : Type} (b : Managers σ)

/-- `handleRun`: decode, create and run, answer. -/
def handleRun (payload : Option Json.Value) (s : σ) : Response × σ :=
  match payload.bind Container.decodeRunRequest with
  | none => (.error ("解析 run 請求的 payload 失敗: " ++ b.invalid payload), s)
  | some runReq =>
      match b.createAndRun runReq s with
      | (.error err, s) => (.error err, s)
      | (.ok (runReq, containerID), s) =>
          (.success ("容器 " ++ runReq.containerName ++ " 已成功啟動，ID: " ++ containerID), s)

/-- `handlePs`: the records of the directory, as they are. -/
def handlePs (s : σ) : Response :=
  match Container.list (b.containers s) with
  | .error err => .error ("獲取容器列表失敗: " ++ err)
  | .ok containers => .withData (containersData containers)

/-- The second component says that the connection has been taken over. -/
def handleStart (payload : Option Json.Value) (s : σ) : (Response × Bool) × σ :=
  match payload.bind decodeStart with
  | none => ((.error ("解析 start 請求的 payload 失敗: " ++ b.invalid payload), false), s)
  | some startReq =>
      if startReq.attach then (({ status := "", message := "", data := none }, true), s)
      else
        match b.start startReq.containerID s with
        | (.error err, s) => ((.error err, false), s)
        | (.ok (), s) =>
            ((.success ("container has been started successfully: " ++ startReq.containerID),
              false), s)

/-- `handleImages`: the tags of the manifest. -/
def handleImages (s : σ) : Response :=
  match Image.listImages (b.manifest s) with
  | .error err => .error ("獲取映像檔列表失敗: " ++ b.manifestText err)
  | .ok images => .withData (imagesData (b.manifest s) images)

/-- `handlePull`: decode, pull, answer. -/
def handlePull (payload : Option Json.Value) (s : σ) : Response × σ :=
  match payload.bind (setObject pullFields "") with
  | none => (.error ("解析 pull 請求的 payload 失敗: " ++ b.invalid payload), s)
  | some image =>
      match b.pullImage image s with
      | (.error err, s) => (.error ("拉取映像失敗: " ++ err), s)
      | (.ok (), s) => (.success ("成功拉取映像: " ++ image), s)

/-- The answer to a request that does not take the connection over. -/
def answer (r : Request) (s : σ) : Response × σ :=
  if r.command = "run" then handleRun b r.payload s
  else if r.command = "ps" then (handlePs b s, s)
  else if r.command = "start" then
    let (res, s) := handleStart b r.payload s
    (res.1, s)
  else if r.command = "images" then (handleImages b s, s)
  else if r.command = "pull" then handlePull b r.payload s
  else (.error ("未知的命令: " ++ r.command), s)

/-- The answers to some requests, one after the other. -/
def answers (s : σ) : List Request → List Response × σ
  | [] => ([], s)
  | r :: rs =>
      let (res, s) := answer b r s
      let (ress, s) := answers s rs
      (res :: ress, s)

/-! ## The loop -/

/-- The answers that have been written, the state of the daemon, and what has become of the
connection. -/
structure Served (σ : Type) where
  responses : List Response
  state : σ
  outcome : Outcome

/-- The loop of `handleConnection` with its answers. -/
def respond (s : σ) (buf : Bytes) (reads : List Bytes) : Served σ :=
  match _h : Json.readValue buf reads with
  | none => ⟨[], s, .closed⟩
  | some (value, buf', reads') =>
      match decodeRequest value with
      | none => ⟨[], s, .closed⟩
      | some req =>
          match req.dispatch with
          | .takes session => ⟨[], s, .session session reads'⟩
          | .drops => ⟨[], s, .closed⟩
          | .answers =>
              let (res, s) := answer b req s
              let served := respond s buf' reads'
              { served with responses := res :: served.responses }
termination_by buf.length + reads.flatten.length
decreasing_by exact Json.readValue_lt _h

/-- What the daemon writes on a connection. -/
def written (s : σ) (reads : List Bytes) : Bytes :=
  (respond b s [] reads).responses.flatMap Response.sent

end

/-! ## The clients -/

/-- `SendRequest`: the first value of what the client reads. -/
def receive (reads : List Bytes) : Option Response :=
  (Json.readValue [] reads).bind fun read => decodeResponse read.1

/-- The errors of the clients, by the texts that they print. -/
inductive ClientError where
  /-- 與 gocker-daemon 通訊失敗 -/
  | request
  /-- 來自 Daemon 的錯誤 -/
  | refused (message : String)
  /-- 解析來自 Daemon 的數據失敗 -/
  | data
deriving DecidableEq, Repr

/-- The data of an answer; without any, it cannot be decoded. -/
def responseData (res : Option Response) : Except ClientError Json.Value :=
  match res with
  | none => .error .request
  | some res =>
      if res.status ≠ "success" then .error (.refused res.message)
      else
        match res.data with
        | none => .error .data
        | some data => .ok data

/-- Records from the elements of an array. -/
def decodeRecords : {k : Json.Kind} → Json.Node k → Option (List ContainerInfo)
  | _, .nil => some []
  | _, .cons x xs =>
      (Container.decodeRecord x).bind fun r => (decodeRecords xs).map (r :: ·)
  | _, _ => none

/-- `json.Unmarshal` into a slice of containers; `null` is an empty one. -/
def decodeContainers : Json.Value → Option (List ContainerInfo)
  | .arr xs => decodeRecords xs
  | .null => some []
  | _ => none

/-- A row of `ps`: the first twelve bytes of the ID. -/
structure PsRow where
  id : Bytes
  name : String
  image : String
  command : String
  status : String
deriving DecidableEq, Repr

/-- The loop of `psCommand`. -/
def psRow (c : ContainerInfo) : Option PsRow :=
  let id := Json.utf8 c.id.toList
  if id.length < 12 then none
  else some ⟨id.take 12, c.name, c.image, c.command, Container.statusText c.status⟩

/-- `psCommand` -/
def psOutput (res : Option Response) : Except ClientError (List PsRow) :=
  match responseData res with
  | .error err => .error err
  | .ok data =>
      match decodeContainers data with
      | none => .error .data
      | some containers => .ok (containers.filterMap psRow)

/-- `imagesCmd` -/
def imagesOutput (res : Option Response) : Except ClientError (List (String × String)) :=
  match responseData res with
  | .error err => .error err
  | .ok data =>
      match Json.setTexts id data with
      | none => .error .data
      | some images => .ok (images.map Image.listingRow)

/-- What `pullCommand` and `startCommand`, without attaching, have the daemon do. -/
inductive Errand where
  | pull (image : String)
  | start (containerID : String) (tty : Bool)
deriving DecidableEq, Repr

namespace Errand

/-- The request of an errand, as the commands build it. -/
def request : Errand → Request
  | .pull image =>
      { command := "pull", payload := some (.obj (Json.ofList [("image", .str image)])) }
  | .start containerID tty =>
      { command := "start"
        payload := some (StartRequest.toJson { containerID, attach := false, tty }) }

/-- What the manager does, with the message that is made of its result. -/
def run {σ : Type} (b : Managers σ) (s : σ) : Errand → Except String String × σ
  | .pull image =>
      let (res, s) := b.pullImage image s
      ((res.mapError ("拉取映像失敗: " ++ ·)).map fun _ => "成功拉取映像: " ++ image, s)
  | .start containerID _ =>
      let (res, s) := b.start containerID s
      (res.map fun _ => "container has been started successfully: " ++ containerID, s)

/-- The message of a success, or an error. -/
def output (res : Option Response) : Except ClientError String :=
  match res with
  | none => .error .request
  | some res =>
      if res.status = "success" then .ok res.message else .error (.refused res.message)

end Errand

/-! ## The answers are those of the loop -/

section
variable {σ : Type} (b : Managers σ)

/-- One turn of the loop. -/
theorem respond_value {buf : Bytes} {reads : List Bytes} {value buf' : Bytes}
    {reads' : List Bytes} {req : Request}
    (hread : Json.readValue buf reads = some (value, buf', reads'))
    (hreq : decodeRequest value = some req) (hanswers : req.dispatch = .answers) (s : σ) :
    respond b s buf reads =
      { respond b (answer b req s).2 buf' reads' with
        responses := (answer b req s).1 ::
          (respond b (answer b req s).2 buf' reads').responses } := by
  rw [respond]
  split
  · next hnone => cases hread.symm.trans hnone
  · next hsome =>
      cases hread.symm.trans hsome
      simp only [hreq, hanswers]

/-- The last turn, if a session takes the connection over. -/
theorem respond_takes {buf : Bytes} {reads : List Bytes} {value buf' : Bytes}
    {reads' : List Bytes} {req : Request} {session : Session}
    (hread : Json.readValue buf reads = some (value, buf', reads'))
    (hreq : decodeRequest value = some req) (htakes : req.dispatch = .takes session) (s : σ) :
    respond b s buf reads = ⟨[], s, .session session reads'⟩ := by
  rw [respond]
  split
  · next hnone => cases hread.symm.trans hnone
  · next hsome =>
      cases hread.symm.trans hsome
      simp only [hreq, htakes]

/-- **The answers do not change what becomes of the connection.** -/
theorem respond_outcome (s : σ) (buf : Bytes) (reads : List Bytes) :
    (respond b s buf reads).outcome = serve buf reads := by
  fun_induction respond b s buf reads with
  | case1 s buf reads hread =>
      rw [serve]
      split
      · rfl
      · next hsome => cases hread.symm.trans hsome
  | case2 s buf reads value buf' reads' hread hreq =>
      rw [serve]
      split
      · rfl
      · next hsome =>
          cases hread.symm.trans hsome
          simp only [hreq]
  | case3 s buf reads value buf' reads' hread req hreq session htakes =>
      rw [serve_value hread hreq, htakes]
  | case4 s buf reads value buf' reads' hread req hreq hdrops =>
      rw [serve_value hread hreq, hdrops]
  | case5 s buf reads value buf' reads' hread req hreq hanswers res s' hanswer served ih =>
      rw [serve_value hread hreq, hanswers]
      exact ih

/-! ## One answer for each request -/

/-- The answers to some requests, and what is then left to read.  The induction is on the
requests; of each one the newline behind it is left. -/
theorem respond_append {rs : List Request} (hrs : ∀ r ∈ rs, r.dispatch = .answers) (s : σ)
    {tail : Bytes} {ws : List Char} (hws : ∀ c ∈ ws, Json.isSpace c) {buf : Bytes}
    {reads : List Bytes}
    (h : buf ++ reads.flatten = Json.utf8 ws ++ (rs.flatMap Request.sent ++ tail)) :
    ∃ ws' buf' reads', (∀ c ∈ ws', Json.isSpace c) ∧
      buf' ++ reads'.flatten = Json.utf8 ws' ++ tail ∧
      respond b s buf reads =
        { respond b (answers b s rs).2 buf' reads' with
          responses := (answers b s rs).1 ++
            (respond b (answers b s rs).2 buf' reads').responses } := by
  induction rs generalizing s ws buf reads with
  | nil => exact ⟨ws, buf, reads, hws, h, rfl⟩
  | cons r rs ih =>
      have hbytes : buf ++ reads.flatten = (Json.utf8 ws ++ r.encoded) ++
          (Json.utf8 ['\n'] ++ (rs.flatMap Request.sent ++ tail)) := by
        rw [h, List.flatMap_cons, Request.sent]
        simp only [List.append_assoc]
        rfl
      have hnewline : ∀ c ∈ ['\n'], Json.isSpace c := fun c hc => by
        rw [List.mem_singleton.mp hc]
        rfl
      obtain ⟨buf₁, hread, hrest, -⟩ :=
        Json.readValue_complete (r.complete_encoded.of_space hws) hbytes
      obtain ⟨ws', buf', reads', hws', hleft, hlater⟩ :=
        ih (fun r hr => hrs r (List.mem_cons_of_mem _ hr)) (answer b r s).2 hnewline hrest
      refine ⟨ws', buf', reads', hws', hleft, ?_⟩
      rw [respond_value b hread (decodeRequest_encoded r hws) (hrs r List.mem_cons_self), hlater]
      rfl

/-- The loop ends with the stream, and what is not sent to its end is not answered. -/
theorem respond_part (s : σ) {buf rest : Bytes} {reads : List Bytes}
    (h : Json.Complete (buf ++ reads.flatten ++ rest)) (hrest : rest ≠ []) :
    respond b s buf reads = ⟨[], s, .closed⟩ := by
  have hnone := Json.readValue_part h hrest
  rw [respond]
  split
  · rfl
  · next hsome => cases hnone.symm.trans hsome

/-- A request that takes the connection over has no answer. -/
theorem respond_session (s : σ) (session : Session) {ws : List Char}
    (hws : ∀ c ∈ ws, Json.isSpace c) {buf input : Bytes} {reads : List Bytes}
    (h : buf ++ reads.flatten = Json.utf8 ws ++ (session.request.sent ++ input)) :
    ∃ left, respond b s buf reads = ⟨[], s, .session session left⟩ := by
  have hbytes : buf ++ reads.flatten =
      (Json.utf8 ws ++ session.request.encoded) ++ ([newline] ++ input) := by
    rw [h, Request.sent]
    simp only [List.append_assoc]
  obtain ⟨buf', hread, -, -⟩ :=
    Json.readValue_complete (session.request.complete_encoded.of_space hws) hbytes
  exact ⟨_, respond_takes b hread (decodeRequest_encoded _ hws) session.dispatch_request s⟩

/-- What becomes of a connection in the state `s`, on which `tail` is still to come: the loop goes
on with it.  A request that is cut off ends the connection, and one for a session takes it over;
neither has an answer or changes the state. -/
structure Continued (s : σ) (tail : Bytes) (served : Served σ) : Prop where
  loop : ∃ ws buf reads, (∀ c ∈ ws, Json.isSpace c) ∧
    buf ++ reads.flatten = Json.utf8 ws ++ tail ∧ served = respond b s buf reads
  cut : ∀ (last : Request) rest, tail ++ rest = last.encoded → rest ≠ [] →
    served = ⟨[], s, .closed⟩
  taken : ∀ (session : Session) input, tail = session.request.sent ++ input →
    ∃ left, served = ⟨[], s, .session session left⟩

end

/-- A machine with one container and no image, on which nothing else can be done. -/
def boxes : Managers Unit where
  createAndRun _ s := (.error "not here", s)
  start _ s := (.error "not here", s)
  pullImage _ s := (.error "not here", s)
  containers _ := .ok [Container.entryOf (Container.named "0123456789abcdef" "box")]
  manifest _ := .missing
  invalid _ := "unexpected end of JSON input"
  manifestText _ := ""

/-- The request of `psCommand`. -/
def psRequest : Request := { command := "ps", payload := none }

/-- The request of `imagesCmd`. -/
def imagesRequest : Request := { command := "images", payload := none }

/-- No two fields of an answer have the same name up to case. -/
theorem responseFields_distinct : Json.Distinct responseFields := by
  unfold Json.Distinct
  decide

theorem setFields_members (r : Response) :
    setFields responseFields { status := "", message := "", data := none } r.members = some r := by
  have field := Json.setField_getElem responseFields_distinct
  have hstatus : ∀ r s, setField responseFields r ("status", .str s) =
      some { r with status := s } := fun r s => field 0 (by decide) r (.str s)
  have hmessage : ∀ r s, setField responseFields r ("message", .str s) =
      some { r with message := s } := fun r s => field 1 (by decide) r (.str s)
  have hdata : ∀ r v, setField responseFields r ("data", v) = some { r with data := some v } :=
    fun r v => field 2 (by decide) r v
  rcases r with ⟨status, message, _ | data⟩ <;>
    by_cases hempty : message = "" <;>
    simp [Response.members, Container.omitEmpty, setFields, hempty, hstatus, hmessage, hdata]

/-- **The round trip**, in whatever pieces the client reads. -/
theorem receive_sent (r : Response) {reads : List Bytes} (h : reads.flatten = r.sent) :
    receive reads = some r := by
  obtain ⟨buf, left, hread⟩ := Json.readValue_flatten (Json.complete_encode ..) h
  have hdecode := Json.decode_render .compact (.obj (Json.ofList r.members))
    (List.forall_mem_nil _)
  rw [List.append_nil] at hdecode
  rw [receive, hread, Option.bind_some, decodeResponse, Json.encode, Json.ofUtf8_utf8,
    Option.bind_some, hdecode, Option.bind_some, Json.setObject_ofList, setFields_members]

section
variable {σ : Type} (b : Managers σ)

/-- A connection with one request. -/
theorem respond_one {r : Request} (hr : r.dispatch = .answers) (s : σ) {reads : List Bytes}
    (hreads : reads.flatten = r.sent) :
    respond b s [] reads = ⟨[(answer b r s).1], (answer b r s).2, .closed⟩ := by
  have hne : r.encoded ≠ [] := by
    intro hempty
    exact absurd (hempty ▸ r.complete_encoded) (by decide)
  have hbytes : [] ++ reads.flatten = Json.utf8 [] ++ ([r].flatMap Request.sent ++ []) := by
    simpa using hreads
  obtain ⟨ws, buf', reads', hws, hleft, hrespond⟩ :=
    respond_append b (List.forall_mem_singleton.mpr hr) s (List.forall_mem_nil _) hbytes
  -- only white space is left of the stream
  have hcomplete := r.complete_encoded.of_space hws
  rw [← List.append_nil (Json.utf8 ws), ← hleft] at hcomplete
  rw [hrespond, respond_part b _ hcomplete hne]
  rfl

/-- **A client receives the answer to its request**, in whatever pieces the two read. -/
theorem receive_answer {r : Request} (hr : r.dispatch = .answers) (s : σ) {reads got : List Bytes}
    (hreads : reads.flatten = r.sent) (hgot : got.flatten = written b s reads) :
    receive got = some (answer b r s).1 := by
  refine receive_sent _ ?_
  rw [hgot, written, respond_one b hr s hreads]
  simp

end

/-! ## What the clients show -/

/-- Records are read from an array as they were written to it. -/
theorem decodeRecords_elements {rs : List ContainerInfo} (h : ∀ r ∈ rs, Representable r) :
    decodeRecords (elements (fun r => .obj (Json.ofList (Container.recordMembers r))) rs) =
      some rs := by
  induction rs with
  | nil => rfl
  | cons r rs ih =>
      rw [elements, decodeRecords, Container.decodeRecord, Json.toList_ofList,
        Container.setFields_recordMembers (h r List.mem_cons_self), Option.bind_some,
        ih fun r hr => h r (List.mem_cons_of_mem _ hr)]
      rfl

/-- The records of a directory can be sent. -/
theorem representable_of_mem_records {files : List Container.DirEntry} {r : ContainerInfo}
    (h : r ∈ Container.records files) : Representable r := by
  obtain ⟨file, -, hrecord⟩ := List.mem_filterMap.mp h
  unfold Container.DirEntry.record at hrecord
  split_ifs at hrecord
  obtain ⟨text, -, hload⟩ := Option.bind_eq_some_iff.mp hrecord
  exact Container.representable_of_loadRecord hload

/-- So are those in the data of `ps`, also when there are none. -/
theorem decodeContainers_containersData {rs : List ContainerInfo} (h : ∀ r ∈ rs, Representable r) :
    decodeContainers (containersData rs) = some rs := by
  unfold containersData
  split_ifs with hrs
  · rw [hrs]
    rfl
  · exact decodeRecords_elements h

theorem setTexts_imagesData (file : ManifestFile) (tags : List String) :
    Json.setTexts id (imagesData file tags) = some tags := by
  unfold imagesData
  split_ifs with htags
  · rw [htags.1]
    rfl
  · simp [Json.setTexts]

theorem pullFields_distinct : Json.Distinct pullFields := by
  unfold Json.Distinct
  decide

/-- The image of a `pull` request is read as it was written. -/
theorem decode_pull (image : String) :
    setObject pullFields "" (.obj (Json.ofList [("image", .str image)])) = some image := by
  have himage : setField pullFields "" ("image", .str image) = some image :=
    Json.setField_getElem pullFields_distinct 0 (by decide) "" (.str image)
  rw [Json.setObject_ofList, setFields, List.foldlM_cons, himage]
  rfl

section
variable {σ : Type} (b : Managers σ) (s : σ) {reads got : List Bytes}

/-- **A client is told what the manager has done.**  The manager is asked once, for exactly what
was named, and the client reports success if and only if the manager does. -/
theorem errand_exchange (e : Errand) (hreads : reads.flatten = e.request.sent)
    (hgot : got.flatten = written b s reads) :
    Errand.output (receive got) = (e.run b s).1.mapError .refused ∧
      (respond b s [] reads).state = (e.run b s).2 := by
  have hanswers : e.request.dispatch = .answers := by
    cases e with
    | pull image => rfl
    | start containerID tty =>
        simp [Errand.request, Request.dispatch, decodeStart_toJson]
  rw [receive_answer b hanswers s hreads hgot, respond_one b hanswers s hreads]
  cases e with
  | pull image =>
      have hanswer : answer b (Errand.pull image).request s =
          handlePull b (some (.obj (Json.ofList [("image", .str image)]))) s := rfl
      rw [hanswer, handlePull, Option.bind_some, decode_pull, Errand.run]
      rcases hpull : b.pullImage image s with ⟨_ | _, s'⟩ <;> simp only [hpull, and_true] <;> rfl
  | start containerID tty =>
      have hanswer : answer b (Errand.start containerID tty).request s =
          ((handleStart b (Errand.start containerID tty).request.payload s).1.1,
            (handleStart b (Errand.start containerID tty).request.payload s).2) := rfl
      rw [hanswer, handleStart, Errand.request, Option.bind_some, decodeStart_toJson, Errand.run]
      rcases hstart : b.start containerID s with ⟨_ | _, s'⟩ <;> simp only [hstart] <;>
        exact ⟨rfl, rfl⟩

/-- A pull that fails. -/
theorem errand_exchange_pull :
    Errand.output (receive [written boxes () [(Errand.pull "alpine").request.sent]]) =
      .error (.refused ("拉取映像失敗: " ++ "not here")) := by
  have hreads : [(Errand.pull "alpine").request.sent].flatten =
      (Errand.pull "alpine").request.sent := by simp
  exact (errand_exchange boxes () (.pull "alpine") hreads (by simp)).1

/-- **`ps` shows the records on the disk of the daemon**: a row for each record that a lookup would
read and whose ID has twelve bytes, in the order of the directory. -/
theorem psOutput_exchange (hreads : reads.flatten = psRequest.sent)
    (hgot : got.flatten = written b s reads) :
    psOutput (receive got) =
      match b.containers s with
      | .error e => .error (.refused ("獲取容器列表失敗: " ++
          ("讀取容器儲存目錄 " ++ Config.containerStoragePath ++ " 失敗: " ++ e)))
      | .ok files => .ok ((Container.records files).filterMap psRow) := by
  have hanswer : (answer b psRequest s).1 = handlePs b s := rfl
  rw [receive_answer b rfl s hreads hgot, hanswer, handlePs]
  cases hfiles : b.containers s with
  | error e => simp [Container.list, psOutput, responseData, Response.error]
  | ok files =>
      have hdecode := decodeContainers_containersData fun r (hr : r ∈ Container.records files) =>
        representable_of_mem_records hr
      simp [Container.list, psOutput, responseData, Response.withData, hdecode]

/-- `ps` with one container, whose answer comes in one piece. -/
theorem psOutput_boxes :
    psOutput (receive [written boxes () [psRequest.sent]]) =
      .ok [⟨Json.utf8 "0123456789ab".toList, "box", "", "", "running"⟩] := by
  have hreads : [psRequest.sent].flatten = psRequest.sent := by simp
  have hgot : [written boxes () [psRequest.sent]].flatten = written boxes () [psRequest.sent] := by
    simp
  have hrecords := Container.records_entryOf
    (show ∀ r ∈ [Container.named "0123456789abcdef" "box"], Representable r by
      simp [Container.representable_named])
  rw [psOutput_exchange boxes () hreads hgot]
  show Except.ok ((Container.records [Container.entryOf _]).filterMap psRow) = _
  rw [List.map_singleton] at hrecords
  rw [hrecords]
  rfl

/-- **`images` shows the tags of the manifest**, taken apart as `imagesCmd` does, in their order. -/
theorem imagesOutput_exchange (hreads : reads.flatten = imagesRequest.sent)
    (hgot : got.flatten = written b s reads) :
    imagesOutput (receive got) =
      match Image.listImages (b.manifest s) with
      | .error err => .error (.refused ("獲取映像檔列表失敗: " ++ b.manifestText err))
      | .ok images => .ok (images.map Image.listingRow) := by
  have hanswer : (answer b imagesRequest s).1 = handleImages b s := rfl
  rw [receive_answer b rfl s hreads hgot, hanswer, handleImages]
  cases Image.listImages (b.manifest s) with
  | error err => simp [imagesOutput, responseData, Response.error]
  | ok images =>
      simp [imagesOutput, responseData, Response.withData, setTexts_imagesData]

/-- **`images` shows what was pulled**: every reference once, with its name and its tag, after any
sequence of successful pulls whose references have no port. -/
theorem imagesOutput_pulled {ps : List Image.Pull}
    (hrefs : ∀ p ∈ ps, ∃ r : Image.Reference, r.port = none ∧ r.text = p.reference)
    (hpulls : Image.applyPulls .missing ps = .ok (b.manifest s))
    (hreads : reads.flatten = imagesRequest.sent) (hgot : got.flatten = written b s reads) :
    ∃ shown : List Image.Reference,
      imagesOutput (receive got) = .ok (shown.map fun r => (r.name, r.tag.getD "latest")) ∧
        (shown.map Image.Reference.text).Nodup ∧
        ∀ text, text ∈ shown.map Image.Reference.text ↔ text ∈ ps.map Image.Pull.reference := by
  have hkeys : ∀ text,
      text ∈ (Upsert.replay Image.ImageManifest.repoTag (ps.map Image.Pull.update)).map
        Image.ImageManifest.repoTag ↔ text ∈ ps.map Image.Pull.reference := fun text => by
    rw [Upsert.mem_keys_replay, List.map_map]
    rfl
  have hnodup : ((Upsert.replay Image.ImageManifest.repoTag (ps.map Image.Pull.update)).map
      Image.ImageManifest.repoTag).Nodup := Upsert.nodup_replay _
  have hlist : Image.listImages (b.manifest s) =
      .ok ((Upsert.replay Image.ImageManifest.repoTag (ps.map Image.Pull.update)).map
        Image.ImageManifest.repoTag) := by
    rw [Image.applyPulls, Image.applyUpdates_missing] at hpulls
    rw [← Except.ok.inj hpulls, Image.listImages, Image.readManifest_fileAfter]
    rfl
  rw [imagesOutput_exchange b s hreads hgot, hlist]
  generalize (Upsert.replay Image.ImageManifest.repoTag (ps.map Image.Pull.update)).map
    Image.ImageManifest.repoTag = tags at hkeys hnodup
  -- every tag is the text of a reference
  obtain ⟨shown, rfl⟩ : tags ∈ Set.range (List.map fun r : {r : Image.Reference // r.port = none} =>
      r.1.text) := by
    rw [Set.range_list_map]
    intro tag htag
    obtain ⟨p, hp, rfl⟩ := List.mem_map.mp ((hkeys tag).mp htag)
    obtain ⟨r, hport, htext⟩ := hrefs p hp
    exact ⟨⟨r, hport⟩, htext⟩
  have htexts : (shown.map Subtype.val).map Image.Reference.text = shown.map fun r => r.1.text :=
    List.map_map
  refine ⟨shown.map Subtype.val, ?_, ?_, ?_⟩
  · simp only [List.map_map]
    exact congrArg Except.ok (List.map_congr_left fun r _ => Image.Reference.listingRow_text r.2)
  · rw [htexts]
    exact hnodup
  · rw [htexts]
    exact hkeys

/-- `busybox:1.36` -/
def busybox : Image.Reference where
  registry := none
  path := "busybox"
  tag := some "1.36"
  path_plain := by decide
  tag_plain := by decide

/-- It has been pulled twice. -/
theorem imagesOutput_pulled_twice :
    let ps : List Image.Pull := [⟨"busybox:1.36", "sha256:0123456789abcdef"⟩,
      ⟨"busybox:1.36", "sha256:fedcba9876543210"⟩]
    let machine : Managers Unit :=
      { boxes with manifest := fun _ => Image.fileAfter (ps.map Image.Pull.update) }
    ∃ shown : List Image.Reference,
      imagesOutput (receive [written machine () [imagesRequest.sent]]) =
          .ok (shown.map fun r => (r.name, r.tag.getD "latest")) ∧
        (shown.map Image.Reference.text).Nodup ∧
        ∀ text, text ∈ shown.map Image.Reference.text ↔ text ∈ ps.map Image.Pull.reference := by
  intro ps machine
  have hreads : [imagesRequest.sent].flatten = imagesRequest.sent := by simp
  refine imagesOutput_pulled machine () ?_ (Image.applyUpdates_missing _) hreads (by simp)
  intro p hp
  refine ⟨busybox, rfl, ?_⟩
  simp only [ps, List.mem_cons, List.not_mem_nil, or_false] at hp
  rcases hp with rfl | rfl <;> rfl

end

end Gocker.Daemon
