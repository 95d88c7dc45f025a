import Gocker.Daemon.Interactive

/-!
# Interactive sessions that end

Once the process has exited and the client's standard input is at its end, a session has
to come to its end: either the connection is closed on both sides, or one of the parties
can go on.

The client never half-closes the connection at the end of its input.  Where the daemon
waits for the end of the input (`joinInput`, and `waitAll` through the copier of the
command's input) while the client waits for the end of the output, nobody can go on.

### Where nobody can go on

* `exec` on a terminal: `handleExec` joins the copier of the input, which reads from the
  connection; the client joins its receiver, which reads from the connection as well.  Neither
  side closes before the other.
* `start` without a terminal: `cmd.Wait` waits for the copier of the input, and the client for
  the end of the output, which comes after `cmd.Wait`.

In the other two modes the daemon closes the connection for a reason of its own, and the client
ends with it.
-/

namespace Gocker.Daemon

open Machine (Reaches Always Follows outcome reaches_outcome)

namespace Interactive

/-- Both sides have closed the connection, or some party has a step. -/
def Live (s : Interactive) : Prop :=
  s.daemonClosed = true ∧ s.clientClosed = true ∨ ∃ p, (s.stepParty p).isSome

/-- A handler whose next operation returns can go on. -/
theorem live_of_ready {s : Interactive} {op : Op} {rest : List Op} (hop : s.handler = op :: rest)
    (hr : s.ready op = true) : s.Live := by
  refine .inr ⟨.handler, ?_⟩
  simp [stepParty, stepHandler, hop, hr]

/-- A client whose next operation returns can go on. -/
theorem live_of_clientReady {s : Interactive} {op : ClientOp} {rest : List ClientOp}
    (hopen : s.clientClosed = false) (hop : s.main = op :: rest) (hr : s.clientReady op = true) :
    s.Live := by
  refine .inr ⟨.main, ?_⟩
  simp [stepParty, stepMain, hopen, hop, hr]

/-- **Once the daemon has closed the connection the client comes to its end.**  Its
receiver reads what is there and then the end; the input loop ends by its own end, by the
error of a write, or because the receiver is done. -/
theorem Scripted.live_of_closed {s : Interactive} (h : s.Scripted) (hclosed : s.daemonClosed = true)
    (hended : s.stdinEnded = true) : s.Live := by
  by_cases hclient : s.clientClosed = true
  · exact .inl ⟨hclosed, hclient⟩
  have hopen : s.clientClosed = false := by simpa using hclient
  cases hmain : s.main with
  | nil =>
      have hexit := h.main.done (a := .exit) (by cases s.mode <;> decide) (by simp [hmain])
      exact absurd hexit hclient
  | cons op rest =>
      cases op with
      | shutdown | exit => exact live_of_clientReady hopen hmain rfl
      | joinReceiver =>
          cases hdone : s.receiverDone with
          | true => exact live_of_clientReady hopen hmain hdone
          | false =>
              refine .inr ⟨.receive 1, ?_⟩
              by_cases hempty : s.toClient = []
              · simp [stepParty, receive, hdone, hopen, hempty, hclosed]
              · simp [stepParty, receive, hdone, hopen, hempty]
      | joinLoop =>
          cases hdone : s.loopDone with
          | true => exact live_of_clientReady hopen hmain hdone
          | false =>
              refine .inr ⟨.loop 1, ?_⟩
              cases hstart : s.mode.isStart with
              | true =>
                  -- this client gets here only when its receiver is done
                  have hreceiver : s.receiverDone = true := by
                    refine h.main.done (a := .joinReceiver) ?_ ?_
                    · cases s.mode <;> decide
                    · have hsuffix := hmain ▸ h.main.suffix
                      cases hmode : s.mode <;> rw [hmode] at hsuffix hstart <;> cases hstart <;>
                        simp [Mode.client, List.suffix_cons_iff] at hsuffix <;>
                        simp [hmain, hsuffix]
                  simp [stepParty, stepLoop, hdone, hopen, hstart, hreceiver]
              | false =>
                  by_cases hempty : s.stdin = []
                  · simp [stepParty, stepLoop, hdone, hopen, hstart, hempty, hended]
                  · simp [stepParty, stepLoop, hdone, hopen, hstart, hempty, hclosed]

/-- The handler of an attached start on a terminal always comes to its end: closing the
terminal ends the copier it waits for. -/
theorem Scripted.live_startTTY {s : Interactive} (h : s.Scripted) (hmode : s.mode = .startTTY)
    (hexited : s.exited = true) (hended : s.stdinEnded = true) : s.Live := by
  obtain ⟨program, hprogram, hfollows⟩ := h.handler
  rw [hmode] at hprogram
  cases hop : s.handler with
  | nil =>
      have hclosed : s.passed .closeConn := by
        refine hfollows.done ?_ (by simp [hop])
        rcases hprogram with rfl | ⟨-, message, rfl⟩ <;> simp [Mode.handler, Mode.failing]
      exact h.live_of_closed hclosed hended
  | cons op rest =>
      rw [hop] at hfollows
      cases op with
      | setup | closePty | spawnWaiter | spawnDelayed | report | closeConn =>
          exact live_of_ready hop rfl
      | waitProcess => exact live_of_ready hop hexited
      | joinOutput =>
          cases hdone : s.outputDone with
          | true => exact live_of_ready hop hdone
          | false =>
              -- the handler has closed the terminal before it waits for the copier
              have hpty : s.ptyClosed = true := by
                refine hfollows.done (a := .closePty) ?_ ?_
                · rcases hprogram with rfl | ⟨-, message, rfl⟩ <;>
                    simp [Mode.handler, Mode.failing]
                · have hsuffix := hfollows.suffix
                  rcases hprogram with rfl | ⟨-, message, rfl⟩ <;>
                    simp [Mode.handler, Mode.failing, List.suffix_cons_iff] at hsuffix
                  simp [hsuffix]
              refine .inr ⟨.copyOutput 1, ?_⟩
              simp [stepParty, copyOutput, hdone, hpty]
      | joinInput | waitAll =>
          -- not in its program
          have hmem := hfollows.suffix.subset List.mem_cons_self
          rcases hprogram with rfl | ⟨-, message, rfl⟩ <;>
            simp [Mode.handler, Mode.failing] at hmem

/-- The handler of an `exec` without a terminal waits for nothing. -/
theorem Scripted.live_exec {s : Interactive} (h : s.Scripted) (hmode : s.mode = .exec)
    (hended : s.stdinEnded = true) : s.Live := by
  obtain ⟨program, hprogram, hfollows⟩ := h.handler
  rw [hmode] at hprogram
  rcases hprogram with rfl | ⟨hsetup, -⟩
  · cases hop : s.handler with
    | nil =>
        have hclosed : s.passed .closeConn := hfollows.done (by decide) (by simp [hop])
        exact h.live_of_closed hclosed hended
    | cons op rest =>
        have hmem : op ∈ Mode.exec.handler :=
          hfollows.suffix.subset (hop ▸ List.mem_cons_self)
        refine live_of_ready hop ?_
        simp only [Mode.handler, List.mem_cons, List.not_mem_nil, or_false] at hmem
        rcases hmem with rfl | rfl | rfl <;> rfl
  · exact absurd hsetup (by decide)

end Interactive

/-- No reachable state in which the process has exited and the client's standard input is at
its end is stuck. -/
def DeadlockFree (mode : Mode) (hangsUp : Bool) : Prop :=
  ∀ s, Reaches Interactive.step Always (begin mode hangsUp) s → s.exited = true →
    s.stdinEnded = true → s.Live

/-- The process exits and the standard input ends; then the parties go on as far as they
can. -/
def waitingForEachOther : Mode → Bool → List Activity
  | .execTTY, _ =>
      [.world .exit, .world .closeOutput, .world .stdinEnds, .party (.copyOutput 1),
        .party (.loop 1), .party .main]
  | _, true =>
      [.world .exit, .world .closeOutput, .world .stdinEnds, .party .handler,
        .party (.copyOutput 1), .party (.loop 1)]
  | _, false =>
      [.world .exit, .world .closeOutput, .world .stdinEnds, .party .handler,
        .party (.copyOutput 1)]

/-- The daemon waits for the end of the input and the client for the end of the output. -/
theorem stuck {mode : Mode} (hmode : mode = .execTTY ∨ mode = .start) (hangsUp : Bool) :
    ∃ s, Reaches Interactive.step Always (begin mode hangsUp) s ∧ s.exited = true ∧
      s.stdinEnded = true ∧ ¬ s.Live := by
  refine ⟨_, reaches_outcome Interactive.step Always _ (waitingForEachOther mode hangsUp), ?_⟩
  rcases hmode with rfl | rfl <;> cases hangsUp <;> refine ⟨rfl, rfl, ?_⟩ <;>
    · rintro (⟨hclosed, -⟩ | ⟨p, hp⟩)
      · exact absurd hclosed Bool.false_ne_true
      · cases p <;> exact absurd hp Bool.false_ne_true

/-- **A session is free of deadlocks** if and only if it is an attached start on a terminal,
or an `exec` without one (whose handler does not wait at all). -/
theorem deadlock_free_iff (mode : Mode) (hangsUp : Bool) :
    DeadlockFree mode hangsUp ↔ mode = .startTTY ∨ mode = .exec := by
  constructor
  · intro h
    by_contra hnot
    have hmode : mode = .execTTY ∨ mode = .start := by
      cases mode <;> simp at hnot ⊢
    obtain ⟨s, hs, hexited, hended, hstuck⟩ := stuck hmode hangsUp
    exact hstuck (h s hs hexited hended)
  · intro hmode s hs hexited hended
    have inv : s.Scripted ∧ s.mode = mode :=
      hs.invariant (I := fun s => s.Scripted ∧ s.mode = mode)
        ⟨Interactive.scripted_begin mode hangsUp, rfl⟩
        fun _ _ _ ⟨h, hmode⟩ _ hstep =>
          have hst := Interactive.stepped hstep
          ⟨h.step hst, hst.grows.mode.trans hmode⟩
    rcases hmode with rfl | rfl
    · exact inv.1.live_startTTY inv.2 hexited hended
    · exact inv.1.live_exec inv.2 hended

/-- **An `exec` on a terminal gets stuck** when the command exits and the user types
nothing more: `handleExec` copies the input until its end, and the client waits for the
end of the output. -/
theorem exec_stuck : ∃ s, Reaches Interactive.step Always (begin .execTTY false) s ∧
    s.exited = true ∧ s.stdinEnded = true ∧ ¬ s.Live :=
  stuck (.inl rfl) false

end Gocker.Daemon
