import Gocker.Daemon.Interactive

/-!
# The output of an executed command

When the daemon closes the connection of an `exec`, has the command exited, and has the
client got all of its output?

On the terminal the handler copies the input itself, waits for the command and for the
copier of the output, and only then starts the delayed close and returns
(`Forwarding`).  Without one it returns as soon as the command runs, and the deferred
close of `handleConnection` does not wait for anything.

### The invariant

What the process has written is, at any time, what the client has received, then what is on the
connection, then what the terminal still holds.  The handler gets past `joinOutput` only when the
copier has seen the end of the output, and closes only after that; so there is nothing in the
terminal by then, and what is on the connection is delivered before its end.
-/

namespace Gocker.Daemon

open Machine (Reaches Always outcome reaches_outcome)

namespace Interactive

/-- The connection of a client that keeps it open is closed only when the command has
exited and all it has written is on its way to the client. -/
def OutputComplete (s : Interactive) : Prop :=
  s.hungUp = false → s.daemonClosed = true → s.exited = true ∧ s.forwarded = s.produced

/-- A session on the terminal.  `joined` is about the three operations that come after the
handler has waited; `whole` and `ended` say that the copier drops nothing and ends only at
the end of the output. -/
structure Forwarding (s : Interactive) : Prop where
  mode : s.mode = .execTTY
  scripted : s.Scripted
  waiter : s.waiter = []
  delayed : s.delayed <:+ [.closeConn]
  readOpen : s.readClosed = false
  joined : s.daemonClosed = true ∨ s.delayed ≠ [] ∨ s.ptyClosed = true →
    s.exited = true ∧ s.outputDone = true
  receiver : s.receiverDone = true → s.daemonClosed = true
  client : s.clientClosed = true → s.hungUp = true ∨ s.daemonClosed = true
  whole : s.hungUp = false → s.forwarded ++ s.output = s.produced
  ended : s.hungUp = false → s.outputDone = true → s.output = [] ∧ s.outputOpen = false

/-- At the beginning nothing has been written, and nothing has been forwarded. -/
theorem forwarding_begin (hangsUp : Bool) : (begin .execTTY hangsUp).Forwarding where
  mode := rfl
  scripted := scripted_begin ..
  waiter := rfl
  delayed := List.nil_suffix
  readOpen := rfl
  joined h := by simp [begin] at h
  receiver h := by simp [begin] at h
  client h := by simp [begin] at h
  whole _ := rfl
  ended _ h := by simp [begin] at h

/-- What the handler does after it has waited for the command and its output. -/
theorem Forwarding.waited {s : Interactive} (h : s.Forwarding) {op : Op} {rest : List Op}
    (hop : s.handler = op :: rest) (hlate : op = .closePty ∨ op = .spawnDelayed ∨ op = .closeConn) :
    s.exited = true ∧ s.outputDone = true := by
  obtain ⟨program, hprogram, hfollows⟩ := h.scripted.handler
  rw [h.mode] at hprogram
  rcases hprogram with rfl | ⟨hsetup, -⟩
  · have hsuffix := hop ▸ hfollows.suffix
    have hwaited : Op.waitProcess ∉ s.handler ∧ Op.joinOutput ∉ s.handler := by
      rw [hop]
      simp only [Mode.handler, List.suffix_cons_iff, List.cons.injEq, List.suffix_nil,
        List.cons_ne_nil, or_false] at hsuffix
      rcases hsuffix with ⟨rfl, rfl⟩ | ⟨rfl, rfl⟩ | ⟨rfl, rfl⟩ | ⟨rfl, rfl⟩ | ⟨rfl, rfl⟩ |
        ⟨rfl, rfl⟩ <;> simp at hlate ⊢
    exact ⟨hfollows.done (by decide) hwaited.1, hfollows.done (by decide) hwaited.2⟩
  · exact absurd hsetup (by decide)

/-- The handler runs through its list, and not through the one for a failed setup. -/
theorem Forwarding.mem_handler {s : Interactive} (h : s.Forwarding) {op : Op} {rest : List Op}
    (hop : s.handler = op :: rest) : op ∈ Mode.handler .execTTY := by
  obtain ⟨program, hprogram, hfollows⟩ := h.scripted.handler
  rw [h.mode] at hprogram
  rcases hprogram with rfl | ⟨hsetup, -⟩
  · exact hfollows.suffix.subset (hop ▸ List.mem_cons_self)
  · exact absurd hsetup (by decide)

/-- Before the client exits it has seen the end of the output. -/
theorem Forwarding.received {s : Interactive} (h : s.Forwarding) {rest : List ClientOp}
    (hop : s.main = .exit :: rest) : s.daemonClosed = true := by
  have hsuffix := hop ▸ h.scripted.main.suffix
  rw [h.mode] at hsuffix
  have hdone := h.scripted.main.done (a := .joinReceiver) (by rw [h.mode]; decide)
  refine h.receiver (hdone ?_)
  rw [hop]
  simp only [Mode.client, List.suffix_cons_iff, List.cons.injEq, List.suffix_nil,
    List.cons_ne_nil, or_false] at hsuffix
  rcases hsuffix with ⟨hexit, -⟩ | ⟨hexit, -⟩ | ⟨-, rfl⟩
  · cases hexit
  · cases hexit
  · simp

/-- The handler's next operation.  The two that close something come after it has waited. -/
theorem Forwarding.handled {s : Interactive} (h : s.Forwarding) {op : Op} {rest : List Op}
    (hop : s.handler = op :: rest) (scripted : ({ s with handler := rest }.run op).Scripted) :
    ({ s with handler := rest }.run op).Forwarding := by
  have waited := h.waited hop
  cases op with
  | closePty => exact { h with scripted, joined := fun _ => waited (by simp) }
  | spawnDelayed =>
      exact { h with scripted, delayed := List.suffix_rfl, joined := fun _ => waited (by simp) }
  | closeConn =>
      exact { h with
        scripted
        joined := fun _ => waited (by simp)
        receiver := fun _ => rfl
        client := fun _ => .inr rfl }
  | spawnWaiter => exact absurd (h.mem_handler hop) (by decide)
  | setup | joinInput | waitProcess | waitAll | joinOutput | report => exact { h with scripted }

/-- The delayed close, which the handler has started after it has waited. -/
theorem Forwarding.closedLater {s : Interactive} (h : s.Forwarding) {op : Op} {rest : List Op}
    (hop : s.delayed = op :: rest) (scripted : ({ s with delayed := rest }.run op).Scripted) :
    ({ s with delayed := rest }.run op).Forwarding := by
  have hjoined := h.joined (.inr (.inl (by simp [hop])))
  obtain ⟨rfl, rfl⟩ : op = .closeConn ∧ rest = [] := by
    have hdelayed := h.delayed
    rw [hop] at hdelayed
    simpa [List.suffix_cons_iff] using hdelayed
  exact { h with
    scripted
    delayed := List.nil_suffix
    joined := fun _ => hjoined
    receiver := fun _ => rfl
    client := fun _ => .inr rfl }

/-- The process writes, as long as somebody holds the output: the copier has not come to its end
then. -/
theorem Forwarding.wrote {s : Interactive} (h : s.Forwarding) {bytes : Json.Bytes}
    (hopen : s.outputOpen = true)
    (scripted : Scripted { s with
      produced := s.produced ++ bytes, output := s.output ++ bytes }) :
    Forwarding { s with produced := s.produced ++ bytes, output := s.output ++ bytes } :=
  { h with
    scripted
    whole := fun hup => by rw [← h.whole hup, List.append_assoc]
    ended := fun hup hdone => absurd hopen (by simp [(h.ended hup hdone).2]) }

/-- The copier takes bytes off the output and hands them on, in their order. -/
theorem Forwarding.copied {s : Interactive} (h : s.Forwarding) {n : ℕ}
    (scripted : Scripted { s with
      output := s.output.drop n
      forwarded := s.forwarded ++ s.output.take n
      toClient := s.toClient ++ s.output.take n }) :
    Forwarding { s with
      output := s.output.drop n
      forwarded := s.forwarded ++ s.output.take n
      toClient := s.toClient ++ s.output.take n } :=
  { h with
    scripted
    whole := fun hup => by
      rw [List.append_assoc, List.take_append_drop]
      exact h.whole hup
    ended := fun hup hdone => by simp [(h.ended hup hdone).1, (h.ended hup hdone).2] }

/-- The copier loses bytes only when the client was killed: a daemon that has closed the
connection had waited for it, and so had one before a client exits by itself. -/
theorem Forwarding.lost {s : Interactive} (h : s.Forwarding) {n : ℕ} (hnot : s.outputDone = false)
    (hc : s.daemonClosed = true ∨ s.clientClosed = true)
    (scripted : Scripted { s with output := s.output.drop n, outputDone := true }) :
    Forwarding { s with output := s.output.drop n, outputDone := true } := by
  have hrunning : s.daemonClosed ≠ true := fun hclosed =>
    absurd (h.joined (.inl hclosed)).2 (by simp [hnot])
  have hup : s.hungUp = true :=
    (h.client (hc.resolve_left hrunning)).resolve_right hrunning
  exact { h with
    scripted
    joined := fun hc => ⟨(h.joined hc).1, rfl⟩
    whole := fun hno => absurd (hno.symm.trans hup) Bool.false_ne_true
    ended := fun hno => absurd (hno.symm.trans hup) Bool.false_ne_true }

/-- The copier comes to the end of the output.  The terminal has not been closed before it has. -/
theorem Forwarding.outputEnded {s : Interactive} (h : s.Forwarding) (hnot : s.outputDone = false)
    (he : s.ptyClosed = true ∨ s.output = [] ∧ s.outputOpen = false)
    (scripted : Scripted { s with outputDone := true }) :
    Forwarding { s with outputDone := true } :=
  { h with
    scripted
    joined := fun hc => ⟨(h.joined hc).1, rfl⟩
    ended := fun _ _ => he.resolve_left fun hpty =>
      absurd (h.joined (.inr (.inr hpty))).2 (by simp [hnot]) }

/-- The client's next operation.  It exits when its receiver has seen the end of the output, and
never half-closes the connection. -/
theorem Forwarding.clientRan {s : Interactive} (h : s.Forwarding) {op : ClientOp}
    {rest : List ClientOp} (hop : s.main = op :: rest)
    (scripted : ({ s with main := rest }.clientRun op).Scripted) :
    ({ s with main := rest }.clientRun op).Forwarding := by
  cases op with
  | joinLoop | joinReceiver => exact { h with scripted }
  | shutdown =>
      have hmem : ClientOp.shutdown ∈ s.mode.client :=
        h.scripted.main.suffix.subset (hop ▸ List.mem_cons_self)
      rw [h.mode] at hmem
      exact absurd hmem (by decide)
  | exit => exact { h with scripted, client := fun _ => .inr (h.received hop) }

/-- **No step takes bytes out of the way from the process to the client**, or changes their order,
unless the client is killed. -/
theorem Forwarding.step {s t : Interactive} (h : s.Forwarding) (hst : Stepped s t) :
    t.Forwarding := by
  have scripted := h.scripted.step hst
  cases hst with
  | wrote bytes hopen => exact h.wrote hopen scripted
  | exited => exact { h with scripted, joined := fun hc => ⟨rfl, (h.joined hc).2⟩ }
  | closedOutput =>
      exact { h with scripted, ended := fun hup hdone => ⟨(h.ended hup hdone).1, rfl⟩ }
  | hungUp =>
      exact { h with
        scripted
        client := fun _ => .inl rfl
        whole := fun hup => absurd hup (by simp)
        ended := fun hup => absurd hup (by simp) }
  | handler hop => exact h.handled hop scripted
  | waiter hop => cases h.waiter.symm.trans hop
  | delayed hop => exact h.closedLater hop scripted
  | forwarded n => exact h.copied scripted
  | lost n hnot hc => exact h.lost hnot hc scripted
  | outputEnded hnot he => exact h.outputEnded hnot he scripted
  | receiverEnded hc =>
      have hread : s.readClosed ≠ true := by simp [h.readOpen]
      exact { h with scripted, receiver := fun _ => hc.resolve_right hread }
  | main hop => exact h.clientRan hop scripted
  | failed hop message => exact absurd (h.mem_handler hop) (by decide)
  | typed | stdinEnded | fed | inputEnded | sent | loopEnded | received =>
      exact { h with scripted }

/-- Once the output has been copied to its end and handed on, the client has all of it. -/
theorem Forwarding.outputComplete {s : Interactive} (h : s.Forwarding) : s.OutputComplete := by
  intro hup hclosed
  obtain ⟨hexited, hdone⟩ := h.joined (.inl hclosed)
  have hwhole := h.whole hup
  rw [(h.ended hup hdone).1, List.append_nil] at hwhole
  exact ⟨hexited, hwhole⟩

end Interactive

/-- Without a terminal the connection can be closed before the command has done anything. -/
def closingEarly : List Activity :=
  [.party .handler, .world (.write [104, 105, 10]), .party .handler, .party .handler]

/-- **The output of an `exec` is complete** in all its runs if and only if it runs on a
terminal: one was asked for and the pseudo terminal could be started. -/
theorem output_complete (tty ptyStarts hangsUp : Bool) :
    (∀ s, Reaches Interactive.step Always (begin (execMode tty ptyStarts) hangsUp) s →
        s.OutputComplete) ↔
      tty = true ∧ ptyStarts = true := by
  constructor
  · intro h
    by_contra hnot
    have hmode : execMode tty ptyStarts = .exec := by
      rw [execMode, if_neg (by simpa using hnot)]
    rw [hmode] at h
    have hcomplete := h _ (reaches_outcome Interactive.step Always (begin .exec hangsUp)
      closingEarly)
    exact absurd (hcomplete rfl rfl).1 Bool.false_ne_true
  · rintro ⟨rfl, rfl⟩ s hs
    have hforwarding : s.Forwarding :=
      hs.invariant (Interactive.forwarding_begin hangsUp)
        fun _ _ _ h _ hstep => h.step (Interactive.stepped hstep)
    exact hforwarding.outputComplete

/-- **An `exec` without a terminal is cut off**: the command has written a line and still
runs, nothing of the line has been sent, and `handleConnection` has closed the
connection. -/
theorem output_cut_off :
    ∃ s, Reaches Interactive.step Always (begin (execMode false true) true) s ∧
      s.hungUp = false ∧ s.daemonClosed = true ∧ s.exited = false ∧ s.forwarded ≠ s.produced :=
  ⟨_, reaches_outcome Interactive.step Always _ closingEarly, rfl, rfl, rfl, by decide⟩

end Gocker.Daemon
