import Gocker.Lib.JsonStream
import Gocker.Lib.Machine

/-!
# Interactive sessions

The parties of an `exec` or of an attached `start` from the moment the request has been
dispatched: the handler (`handleExec`, or `handleStart` with `Manager.Start`) with its
goroutines, the process and the client (`cmd/exec.go`, `cmd/start.go` with
`CopyInputUntilClosed`).  They exchange bytes and the end of the stream on one connection.

* A goroutine that runs through a list of blocking operations is that list (`Op`,
  `ClientOp`); `ready` says when its next operation returns.  Copying goroutines take any
  number of the bytes available at a time.
* `cmd.Wait` waits for the process, and for the copiers where a stream of the command is not
  a file (`waitAll`).  Buffers are unbounded, and the half second before the delayed close
  is any time.
* Events of the world (`World`) are what the process, the user at the client's keyboard
  and a killed client do; events of the parties (`Party`) are steps of the program.
* The turns of a loop that polls without a result, such as that of
  `CopyInputUntilClosed` at the end of a file, are no steps.

### How the proofs go

`Stepped` says once what a step can do, and what it needs.  From it follow `Grows`, that nothing
is undone, and `Scripted`, that each goroutine stays within its program: an operation that is
behind has left its mark (`passed`), and since marks stay, the mark can be used at any later
time.  The modules on the end of a session (`Gocker.Daemon.Liveness`) and on its output
(`Gocker.Daemon.Output`) use only these three.
-/

namespace Gocker.Daemon

open Json (Bytes)
open Machine (Follows)

/-! ## The operations -/

/-- The four ways in which a command can be attached to a connection. -/
inductive Mode where
  | execTTY
  | exec
  | startTTY
  | start
deriving DecidableEq, Repr

/-- The branch that `handleExec` takes: without a pseudo terminal the command is
started with the connection as its streams. -/
def execMode (tty ptyStarts : Bool) : Mode :=
  if tty && ptyStarts then .execTTY else .exec

/-- Whether the command runs on a terminal. -/
def Mode.tty : Mode → Bool
  | .execTTY | .startTTY => true
  | .exec | .start => false

/-- What a goroutine of the daemon does next. -/
inductive Op where
  /-- `Start` from the network set-up to the cgroup -/
  | setup
  /-- `io.Copy(ptmx, conn)` in the handler itself -/
  | joinInput
  /-- `cmd.Wait`, all streams of the command being files -/
  | waitProcess
  /-- `cmd.Wait`, the streams of the command being the connection -/
  | waitAll
  /-- `<-done`, `<-ttyDone` -/
  | joinOutput
  | closePty
  | spawnWaiter
  | spawnDelayed
  | report (message : Bytes)
  | closeConn
deriving DecidableEq

/-- The handler up to the end of `handleConnection`, with the deferred calls at the end. -/
def Mode.handler : Mode → List Op
  | .execTTY => [.joinInput, .waitProcess, .joinOutput, .closePty, .spawnDelayed, .closeConn]
  | .exec => [.spawnWaiter, .spawnDelayed, .closeConn]
  | .startTTY => [.setup, .waitProcess, .closePty, .joinOutput, .closeConn]
  | .start => [.setup, .waitAll, .closeConn]

/-- The handler once the set-up has failed. -/
def Mode.failing : Mode → Bytes → List Op
  | .execTTY, message | .startTTY, message => [.closePty, .report message, .closeConn]
  | .exec, message | .start, message => [.report message, .closeConn]

/-- What the main goroutine of the client does next. -/
inductive ClientOp where
  | joinLoop
  | joinReceiver
  | shutdown
  | exit
deriving DecidableEq

/-- Which client serves the mode. -/
def Mode.isStart : Mode → Bool
  | .startTTY | .start => true
  | .execTTY | .exec => false

/-- The main goroutine of the client: that of `exec` waits for the loop over its input first,
that of `start` for the end of the output. -/
def Mode.client : Mode → List ClientOp
  | .execTTY | .exec => [.joinLoop, .joinReceiver, .exit]
  | .startTTY | .start => [.joinReceiver, .shutdown, .joinLoop, .exit]

/-! ## The state -/

/-- The state of the parties and of what connects them. -/
structure Interactive where
  mode : Mode
  /-- polling the client's standard input reports its end (`POLLHUP`) -/
  hangsUp : Bool
  /- the process, and the terminal or pipe that its output goes through -/
  exited : Bool
  outputOpen : Bool
  produced : Bytes
  output : Bytes
  /- the daemon -/
  handler : List Op
  waiter : List Op
  delayed : List Op
  outputDone : Bool
  inputDone : Bool
  ptyClosed : Bool
  forwarded : Bytes
  daemonClosed : Bool
  /- the connection -/
  toClient : Bytes
  toDaemon : Bytes
  /- the client -/
  stdin : Bytes
  stdinEnded : Bool
  main : List ClientOp
  loopDone : Bool
  receiverDone : Bool
  writeClosed : Bool
  readClosed : Bool
  clientClosed : Bool
  /-- the client was killed -/
  hungUp : Bool
deriving DecidableEq

/-- The command has just been started. -/
def begin (mode : Mode) (hangsUp : Bool) : Interactive where
  mode := mode
  hangsUp := hangsUp
  exited := false
  outputOpen := true
  produced := []
  output := []
  handler := mode.handler
  waiter := []
  delayed := []
  outputDone := false
  inputDone := false
  ptyClosed := false
  forwarded := []
  daemonClosed := false
  toClient := []
  toDaemon := []
  stdin := []
  stdinEnded := false
  main := mode.client
  loopDone := false
  receiverDone := false
  writeClosed := false
  readClosed := false
  clientClosed := false
  hungUp := false

/-- What happens outside the two programs: to the process, to its output, and at the client's
keyboard. -/
inductive World where
  | write (bytes : Bytes)
  | exit
  /-- the last process that holds the output has closed it -/
  | closeOutput
  | type (bytes : Bytes)
  | stdinEnds
  | hangUp
deriving DecidableEq

/-- `n` is the number of bytes a copier takes, `refused` says that the process no longer
takes its input. -/
inductive Party where
  | handler
  | setupFails (message : Bytes)
  | waiter
  | delayed
  | copyOutput (n : ℕ)
  | copyInput (n : ℕ) (refused : Bool)
  | loop (n : ℕ)
  | receive (n : ℕ)
  | main
deriving DecidableEq

/-- What happens next. -/
inductive Activity where
  | world (w : World)
  | party (p : Party)
deriving DecidableEq

namespace Interactive

/-! ## The steps -/

/-- The operation returns. -/
def ready (s : Interactive) : Op → Bool
  | .joinInput => s.inputDone
  | .waitProcess => s.exited
  | .waitAll => s.exited && s.outputDone && s.inputDone
  | .joinOutput => s.outputDone
  | _ => true

/-- What an operation of the handler does once it returns. -/
def run (s : Interactive) : Op → Interactive
  | .closePty => { s with ptyClosed := true }
  | .spawnWaiter => { s with waiter := [.waitAll, .closeConn] }
  | .spawnDelayed => { s with delayed := [.closeConn] }
  | .report message => { s with toClient := s.toClient ++ message }
  | .closeConn => { s with daemonClosed := true }
  | .setup | .joinInput | .waitProcess | .waitAll | .joinOutput => s

/-- The handler's next operation, if it returns. -/
def stepHandler (s : Interactive) : Option Interactive :=
  match s.handler with
  | [] => none
  | op :: rest => if s.ready op then some ({ s with handler := rest }.run op) else none

/-- The next operation of the goroutine that waits for the process. -/
def stepWaiter (s : Interactive) : Option Interactive :=
  match s.waiter with
  | [] => none
  | op :: rest => if s.ready op then some ({ s with waiter := rest }.run op) else none

/-- The delayed close. -/
def stepDelayed (s : Interactive) : Option Interactive :=
  match s.delayed with
  | [] => none
  | op :: rest => if s.ready op then some ({ s with delayed := rest }.run op) else none

/-- The command cannot be started: the handler answers with the error instead. -/
def failSetup (s : Interactive) (message : Bytes) : Option Interactive :=
  match s.handler with
  | .setup :: _ => some { s with handler := s.mode.failing message }
  | _ => none

/-- `io.Copy(conn, ptmx)`, or the copier of `os/exec` for the output pipe: it ends at the
end of the output, when its terminal is closed, and when the connection takes no more. -/
def copyOutput (s : Interactive) (n : ℕ) : Option Interactive :=
  if s.outputDone then none
  else if s.ptyClosed then some { s with outputDone := true }
  else if s.output = [] then
    if s.outputOpen then none else some { s with outputDone := true }
  else if n = 0 then none
  else if s.daemonClosed || s.clientClosed then
    some { s with output := s.output.drop n, outputDone := true }
  else
    some { s with
      output := s.output.drop n
      forwarded := s.forwarded ++ s.output.take n
      toClient := s.toClient ++ s.output.take n }

/-- `io.Copy(ptmx, conn)`, or the copier of `os/exec` that feeds the input pipe.  The pipe
of a process that has exited takes nothing. -/
def copyInput (s : Interactive) (n : ℕ) (refused : Bool) : Option Interactive :=
  if s.inputDone then none
  else if s.daemonClosed then some { s with inputDone := true }
  else if s.toDaemon = [] then
    if s.writeClosed then some { s with inputDone := true } else none
  else if n = 0 then none
  else
    some { s with
      toDaemon := s.toDaemon.drop n
      inputDone := refused || s.ptyClosed || (s.exited && !s.mode.tty) }

/-- The client's input loop: `io.Copy(conn, os.Stdin)` for `exec`, `CopyInputUntilClosed`
for `start`. -/
def stepLoop (s : Interactive) (n : ℕ) : Option Interactive :=
  if s.loopDone || s.clientClosed then none
  else if s.mode.isStart && (s.receiverDone || (s.stdinEnded && s.hangsUp)) then
    some { s with loopDone := true }
  else if s.stdin = [] then
    if s.stdinEnded && !s.mode.isStart then some { s with loopDone := true } else none
  else if n = 0 then none
  else if s.writeClosed || s.daemonClosed then
    some { s with stdin := s.stdin.drop n, loopDone := true }
  else
    some { s with stdin := s.stdin.drop n, toDaemon := s.toDaemon ++ s.stdin.take n }

/-- `io.Copy(os.Stdout, conn)` -/
def receive (s : Interactive) (n : ℕ) : Option Interactive :=
  if s.receiverDone || s.clientClosed then none
  else if s.toClient = [] then
    if s.daemonClosed || s.readClosed then some { s with receiverDone := true } else none
  else if n = 0 then none
  else some { s with toClient := s.toClient.drop n }

/-- Whether an operation of the client's main goroutine returns. -/
def clientReady (s : Interactive) : ClientOp → Bool
  | .joinLoop => s.loopDone
  | .joinReceiver => s.receiverDone
  | .shutdown | .exit => true

/-- What it does then. -/
def clientRun (s : Interactive) : ClientOp → Interactive
  | .shutdown => { s with readClosed := true, writeClosed := true }
  | .exit => { s with clientClosed := true, writeClosed := true }
  | .joinLoop | .joinReceiver => s

/-- The next operation of the client's main goroutine, as long as the client has not exited. -/
def stepMain (s : Interactive) : Option Interactive :=
  if s.clientClosed then none
  else
    match s.main with
    | [] => none
    | op :: rest => if s.clientReady op then some ({ s with main := rest }.clientRun op) else none

/-- A step of the world.  A process may leave its output open to its own children, so that
`closeOutput` is an event of its own. -/
def stepWorld (s : Interactive) : World → Option Interactive
  | .write bytes =>
      if s.outputOpen then
        some { s with produced := s.produced ++ bytes, output := s.output ++ bytes }
      else none
  | .exit => if s.exited then none else some { s with exited := true }
  | .closeOutput => if s.outputOpen then some { s with outputOpen := false } else none
  | .type bytes => if s.stdinEnded then none else some { s with stdin := s.stdin ++ bytes }
  | .stdinEnds => if s.stdinEnded then none else some { s with stdinEnded := true }
  | .hangUp =>
      if s.clientClosed then none
      else some { s with clientClosed := true, writeClosed := true, hungUp := true }

/-- A step of one of the parties. -/
def stepParty (s : Interactive) : Party → Option Interactive
  | .handler => s.stepHandler
  | .setupFails message => s.failSetup message
  | .waiter => s.stepWaiter
  | .delayed => s.stepDelayed
  | .copyOutput n => s.copyOutput n
  | .copyInput n refused => s.copyInput n refused
  | .loop n => s.stepLoop n
  | .receive n => s.receive n
  | .main => s.stepMain

/-- A step of the session; `none` where it is not possible. -/
def step (s : Interactive) : Activity → Option Interactive
  | .world w => s.stepWorld w
  | .party p => s.stepParty p

/-! ## What a step can do -/

/-- A step, with what made it possible. -/
inductive Stepped (s : Interactive) : Interactive → Prop
  | wrote (bytes : Bytes) (h : s.outputOpen = true) :
      Stepped s { s with produced := s.produced ++ bytes, output := s.output ++ bytes }
  | exited : Stepped s { s with exited := true }
  | closedOutput : Stepped s { s with outputOpen := false }
  | typed (bytes : Bytes) : Stepped s { s with stdin := s.stdin ++ bytes }
  | stdinEnded : Stepped s { s with stdinEnded := true }
  | hungUp : Stepped s { s with clientClosed := true, writeClosed := true, hungUp := true }
  | handler {op : Op} {rest : List Op} (h : s.handler = op :: rest) (hr : s.ready op = true) :
      Stepped s ({ s with handler := rest }.run op)
  | failed {rest : List Op} (h : s.handler = .setup :: rest) (message : Bytes) :
      Stepped s { s with handler := s.mode.failing message }
  | waiter {op : Op} {rest : List Op} (h : s.waiter = op :: rest) (hr : s.ready op = true) :
      Stepped s ({ s with waiter := rest }.run op)
  | delayed {op : Op} {rest : List Op} (h : s.delayed = op :: rest) (hr : s.ready op = true) :
      Stepped s ({ s with delayed := rest }.run op)
  | forwarded (n : ℕ) :
      Stepped s { s with
        output := s.output.drop n
        forwarded := s.forwarded ++ s.output.take n
        toClient := s.toClient ++ s.output.take n }
  | lost (n : ℕ) (h : s.outputDone = false)
      (hc : s.daemonClosed = true ∨ s.clientClosed = true) :
      Stepped s { s with output := s.output.drop n, outputDone := true }
  | outputEnded (h : s.outputDone = false)
      (he : s.ptyClosed = true ∨ s.output = [] ∧ s.outputOpen = false) :
      Stepped s { s with outputDone := true }
  | fed (n : ℕ) (done : Bool) (h : s.inputDone = false) :
      Stepped s { s with toDaemon := s.toDaemon.drop n, inputDone := done }
  | inputEnded : Stepped s { s with inputDone := true }
  | sent (n : ℕ) :
      Stepped s { s with stdin := s.stdin.drop n, toDaemon := s.toDaemon ++ s.stdin.take n }
  | loopEnded (stdin : Bytes) : Stepped s { s with stdin := stdin, loopDone := true }
  | received (n : ℕ) : Stepped s { s with toClient := s.toClient.drop n }
  | receiverEnded (h : s.daemonClosed = true ∨ s.readClosed = true) :
      Stepped s { s with receiverDone := true }
  | main {op : ClientOp} {rest : List ClientOp} (h : s.main = op :: rest)
      (hr : s.clientReady op = true) : Stepped s ({ s with main := rest }.clientRun op)

/-- The steps of the world are among those of `Stepped`. -/
theorem stepWorld_stepped {s t : Interactive} {w : World} (h : s.stepWorld w = some t) :
    Stepped s t := by
  cases w with
  | write bytes =>
      simp only [stepWorld] at h
      split_ifs at h with hopen
      cases h
      exact .wrote bytes hopen
  | exit =>
      simp only [stepWorld] at h
      split_ifs at h
      cases h
      exact .exited
  | closeOutput =>
      simp only [stepWorld] at h
      split_ifs at h
      cases h
      exact .closedOutput
  | type bytes =>
      simp only [stepWorld] at h
      split_ifs at h
      cases h
      exact .typed bytes
  | stdinEnds =>
      simp only [stepWorld] at h
      split_ifs at h
      cases h
      exact .stdinEnded
  | hangUp =>
      simp only [stepWorld] at h
      split_ifs at h
      cases h
      exact .hungUp

theorem stepParty_stepped {s t : Interactive} {p : Party} (h : s.stepParty p = some t) :
    Stepped s t := by
  cases p with
  | handler =>
      simp only [stepParty, stepHandler] at h
      split at h
      · cases h
      · split_ifs at h with hready
        cases h
        exact .handler (by assumption) hready
  | setupFails message =>
      simp only [stepParty, failSetup] at h
      split at h
      · cases h
        exact .failed (by assumption) message
      · cases h
  | waiter =>
      simp only [stepParty, stepWaiter] at h
      split at h
      · cases h
      · split_ifs at h with hready
        cases h
        exact .waiter (by assumption) hready
  | delayed =>
      simp only [stepParty, stepDelayed] at h
      split at h
      · cases h
      · split_ifs at h with hready
        cases h
        exact .delayed (by assumption) hready
  | copyOutput n =>
      simp only [stepParty, copyOutput] at h
      split_ifs at h with hdone hpty hempty hopen hzero hclosed <;> cases h
      · exact .outputEnded (by simpa using hdone) (.inl hpty)
      · exact .outputEnded (by simpa using hdone) (.inr ⟨hempty, by simpa using hopen⟩)
      · exact .lost n (by simpa using hdone) (by simpa using hclosed)
      · exact .forwarded n
  | copyInput n refused =>
      simp only [stepParty, copyInput] at h
      split_ifs at h with hdone <;> cases h
      · exact .inputEnded
      · exact .inputEnded
      · exact .fed n _ (by simpa using hdone)
  | loop n =>
      simp only [stepParty, stepLoop] at h
      split_ifs at h <;> cases h
      · exact .loopEnded s.stdin
      · exact .loopEnded s.stdin
      · exact .loopEnded _
      · exact .sent n
  | receive n =>
      simp only [stepParty, receive] at h
      split_ifs at h with hdone hempty hclosed hzero <;> cases h
      · exact .receiverEnded (by simpa using hclosed)
      · exact .received n
  | main =>
      simp only [stepParty, stepMain] at h
      split_ifs at h
      split at h
      · cases h
      · split_ifs at h with hready
        cases h
        exact .main (by assumption) hready

theorem stepped {s t : Interactive} {a : Activity} (h : s.step a = some t) : Stepped s t := by
  cases a with
  | world w => exact stepWorld_stepped h
  | party p => exact stepParty_stepped h

/-! ## What stays

Every flag of the state is raised once and for all, so an operation that has returned
stays done. -/

/-- What has been closed stays closed, and what has ended stays at its end. -/
structure Grows (s t : Interactive) : Prop where
  mode : t.mode = s.mode
  exited : s.exited = true → t.exited = true
  outputDone : s.outputDone = true → t.outputDone = true
  inputDone : s.inputDone = true → t.inputDone = true
  ptyClosed : s.ptyClosed = true → t.ptyClosed = true
  daemonClosed : s.daemonClosed = true → t.daemonClosed = true
  loopDone : s.loopDone = true → t.loopDone = true
  receiverDone : s.receiverDone = true → t.receiverDone = true
  writeClosed : s.writeClosed = true → t.writeClosed = true
  readClosed : s.readClosed = true → t.readClosed = true
  clientClosed : s.clientClosed = true → t.clientClosed = true

/-- An operation of the handler opens nothing again. -/
theorem run_grows (s : Interactive) (op : Op) : Grows s (s.run op) := by
  cases op <;> exact ⟨rfl, fun h => by simp [run, h], fun h => by simp [run, h],
    fun h => by simp [run, h], fun h => by simp [run, h], fun h => by simp [run, h],
    fun h => by simp [run, h], fun h => by simp [run, h], fun h => by simp [run, h],
    fun h => by simp [run, h], fun h => by simp [run, h]⟩

theorem Stepped.grows {s t : Interactive} (h : Stepped s t) : Grows s t := by
  cases h with
  | handler | waiter | delayed =>
      rename_i op rest _ _
      have h := run_grows s op
      cases op <;> exact ⟨h.mode, h.exited, h.outputDone, h.inputDone, h.ptyClosed,
        h.daemonClosed, h.loopDone, h.receiverDone, h.writeClosed, h.readClosed, h.clientClosed⟩
  | main =>
      rename_i op rest _ _
      cases op <;> exact ⟨rfl, id, id, id, id, id, id, id, by simp [clientRun],
        by simp [clientRun], by simp [clientRun]⟩
  | fed n done h => exact ⟨rfl, id, id, by simp [h], id, id, id, id, id, id, id⟩
  | _ => exact ⟨rfl, by simp, by simp, by simp, id, id, by simp, by simp, by simp, id, by simp⟩

/-- What holds once the operation has returned. -/
def passed (s : Interactive) : Op → Prop
  | .joinInput => s.inputDone = true
  | .waitProcess => s.exited = true
  | .waitAll => s.exited = true ∧ s.outputDone = true ∧ s.inputDone = true
  | .joinOutput => s.outputDone = true
  | .closePty => s.ptyClosed = true
  | .closeConn => s.daemonClosed = true
  | .setup | .spawnWaiter | .spawnDelayed | .report _ => True

/-- What an operation of the client has left behind once it is over. -/
def clientPassed (s : Interactive) : ClientOp → Prop
  | .joinLoop => s.loopDone = true
  | .joinReceiver => s.receiverDone = true
  | .shutdown => s.readClosed = true ∧ s.writeClosed = true
  | .exit => s.clientClosed = true

/-- What an operation of the handler has left behind stays so. -/
theorem Grows.passed {s t : Interactive} (h : Grows s t) (op : Op) (hop : s.passed op) :
    t.passed op := by
  cases op with
  | joinInput => exact h.inputDone hop
  | waitProcess => exact h.exited hop
  | waitAll => exact ⟨h.exited hop.1, h.outputDone hop.2.1, h.inputDone hop.2.2⟩
  | joinOutput => exact h.outputDone hop
  | closePty => exact h.ptyClosed hop
  | closeConn => exact h.daemonClosed hop
  | setup | spawnWaiter | spawnDelayed | report => trivial

theorem Grows.clientPassed {s t : Interactive} (h : Grows s t) (op : ClientOp)
    (hop : s.clientPassed op) : t.clientPassed op := by
  cases op with
  | joinLoop => exact h.loopDone hop
  | joinReceiver => exact h.receiverDone hop
  | shutdown => exact ⟨h.readClosed hop.1, h.writeClosed hop.2⟩
  | exit => exact h.clientClosed hop

/-- An operation that returns leaves behind what it says. -/
theorem run_passed {s : Interactive} {op : Op} (hr : s.ready op = true) (rest : List Op) :
    ({ s with handler := rest }.run op).passed op := by
  cases op with
  | waitAll => simpa [ready, passed, run, and_assoc] using hr
  | joinInput | waitProcess | joinOutput => exact hr
  | closePty | closeConn => rfl
  | setup | spawnWaiter | spawnDelayed | report => trivial

theorem clientRun_passed {s : Interactive} {op : ClientOp} (hr : s.clientReady op = true)
    (rest : List ClientOp) : ({ s with main := rest }.clientRun op).clientPassed op := by
  cases op with
  | joinLoop | joinReceiver => exact hr
  | shutdown => exact ⟨rfl, rfl⟩
  | exit => rfl

/-- An operation leaves what follows it in the handler as it is. -/
@[simp] theorem run_handler (s : Interactive) (op : Op) : (s.run op).handler = s.handler := by
  cases op <;> rfl

/-- No operation of the handler touches the client's main goroutine. -/
@[simp] theorem run_main (s : Interactive) (op : Op) : (s.run op).main = s.main := by
  cases op <;> rfl

@[simp] theorem clientRun_handler (s : Interactive) (op : ClientOp) :
    (s.clientRun op).handler = s.handler := by
  cases op <;> rfl

/-- An operation of the client leaves what follows it. -/
@[simp] theorem clientRun_main (s : Interactive) (op : ClientOp) :
    (s.clientRun op).main = s.main := by
  cases op <;> rfl

/-! ## The goroutines follow their programs -/

/-- The program of the handler, also where a set-up has failed. -/
def IsProgram (mode : Mode) (program : List Op) : Prop :=
  program = mode.handler ∨
    mode.handler.head? = some .setup ∧ ∃ message, program = mode.failing message

/-- The handler and the client's main goroutine have a beginning of their program behind them
and the rest before them. -/
structure Scripted (s : Interactive) : Prop where
  handler : ∃ program, IsProgram s.mode program ∧ Follows s.passed program s.handler
  main : Follows s.clientPassed s.mode.client s.main

theorem scripted_begin (mode : Mode) (hangsUp : Bool) : (begin mode hangsUp).Scripted :=
  ⟨⟨mode.handler, .inl rfl, .start ..⟩, .start ..⟩

theorem Scripted.step {s t : Interactive} (h : s.Scripted) (hst : Stepped s t) : t.Scripted := by
  have grows := hst.grows
  obtain ⟨⟨program, hprogram, hfollows⟩, hmain⟩ := h
  have hmain' := hmain.mono grows.clientPassed
  have same : ∀ {program}, IsProgram s.mode program → IsProgram t.mode program := by
    intro program hprogram
    rw [grows.mode]
    exact hprogram
  have keep : t.handler = s.handler → ∃ program, IsProgram t.mode program ∧
      Follows t.passed program t.handler := by
    intro heq
    refine ⟨program, same hprogram, ?_⟩
    rw [heq]
    exact hfollows.mono grows.passed
  have keepMain : t.main = s.main → Follows t.clientPassed t.mode.client t.main := by
    intro heq
    rw [heq, grows.mode]
    exact hmain'
  cases hst with
  | @handler op rest hop hr =>
      refine ⟨⟨program, same hprogram, ?_⟩, keepMain (run_main ..)⟩
      rw [run_handler]
      exact (hop ▸ hfollows).pop grows.passed (run_passed hr rest)
  | failed hop message =>
      refine ⟨⟨_, .inr ⟨?_, message, rfl⟩, .start ..⟩, keepMain rfl⟩
      -- the set-up is the first operation of a program, so the programs with one start with it
      rcases hprogram with rfl | ⟨hsetup, -⟩
      · have hmem : Op.setup ∈ s.mode.handler :=
          hfollows.suffix.subset (hop ▸ List.mem_cons_self)
        cases hmode : s.mode <;> rw [hmode] at hmem
        · exact absurd hmem (by decide)
        · exact absurd hmem (by decide)
        · rfl
        · rfl
      · exact hsetup
  | waiter | delayed => exact ⟨keep (run_handler ..), keepMain (run_main ..)⟩
  | @main op rest hop hr =>
      refine ⟨keep (clientRun_handler ..), ?_⟩
      rw [clientRun_main, grows.mode]
      exact (hop ▸ hmain).pop grows.clientPassed (clientRun_passed hr rest)
  | wrote | exited | closedOutput | typed | stdinEnded | hungUp | forwarded | lost | outputEnded
  | fed | inputEnded | sent | loopEnded | received | receiverEnded => exact ⟨keep rfl, keepMain rfl⟩

end Interactive

end Gocker.Daemon
