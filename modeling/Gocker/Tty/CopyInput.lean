import Gocker.Lib.Machine
import Mathlib.Data.List.Basic
import Mathlib.Tactic.Common

/-!
# Copying standard input (`internal/tty/io.go`)

`CopyInputUntilClosed` polls a descriptor, reads what is there and writes it to the
container.  `copyIteration` is the body of its loop as a function of what the calls of one
round answer.  `Stdin` is the kernel's side: the bytes that wait to be read, those the other
side has not written yet, and whether it has closed.  `Copying.step` puts the two together,
with the descriptor's own events in between.

What a descriptor shows at the end of its stream depends on its kind:

* a pipe, once its writers have closed, polls with `POLLHUP`, and with `POLLIN` as well as
  long as bytes are buffered;
* a terminal does so when it is hung up; the end-of-file character is read as zero bytes,
  with no error, and more may be typed after it;
* a regular file always polls with `POLLIN`, and at its end a read gives zero bytes.

## Main statements

* `written_iff`: where the loop returns on a poll's flags, all of the stream has been written
  exactly if nothing of it was left unread at that poll.  The flags are looked at before
  `POLLIN`, so what a closed pipe still holds is dropped.
* `returns_iff`: after the last byte the loop returns exactly if a poll that is not
  interrupted reports a hang-up, or `done` is closed, or a call fails.  A read of zero bytes
  ends nothing.

### Which flags end the loop

`CopyInputUntilClosed` tests `POLLHUP`, `POLLERR` and `POLLNVAL` before `POLLIN`, and returns on
each of them.  For a pipe that its writer has filled and closed, the first poll has both `POLLIN`
and `POLLHUP`, and the loop returns without a read.
-/

namespace Gocker.Tty

open Machine (Reaches Always outcome reaches_outcome)

/-! ## Errors -/

/-- The error numbers the loop looks at, and the others by their text. -/
inductive Errno where
  | eintr
  | eagain
  | epipe
  | other (text : String)
  deriving DecidableEq, Repr

namespace Errno

/-- The text of an error number. -/
def text : Errno → String
  | eintr => "interrupted system call"
  | eagain => "resource temporarily unavailable"
  | epipe => "broken pipe"
  | other text => text

end Errno

/-- The error of a `Write`. -/
inductive WriteError where
  /-- `net.ErrClosed` -/
  | netClosed
  /-- `os.ErrClosed` -/
  | osClosed
  | errno (e : Errno)
  /-- a `*net.OpError` around `err` -/
  | opError (what : String) (err : WriteError)
  /-- any other error with an `Unwrap` -/
  | wrapped (what : String) (err : WriteError)
  | other (text : String)
  deriving DecidableEq, Repr

namespace WriteError

/-- The text of an error of a write, as `err.Error()` gives it. -/
def text : WriteError → String
  | netClosed => "use of closed network connection"
  | osClosed => "file already closed"
  | errno e => e.text
  | opError what err => what ++ ": " ++ err.text
  | wrapped what err => what ++ ": " ++ err.text
  | other text => text

/-- `errors.Is`: the error itself or one it wraps. -/
def is : WriteError → WriteError → Bool
  | opError what err, target => opError what err == target || err.is target
  | wrapped what err, target => wrapped what err == target || err.is target
  | e, target => e == target

/-- `errors.As` with a `*net.OpError`, and then its `Err`. -/
def asOpError : WriteError → Option WriteError
  | opError _ err => some err
  | wrapped _ err => err.asOpError
  | _ => none

/-- What is wrapped is smaller than what wraps it. -/
theorem sizeOf_asOpError {e inner : WriteError} (h : e.asOpError = some inner) :
    sizeOf inner < sizeOf e := by
  induction e with
  | opError what err ih =>
      obtain rfl : err = inner := Option.some.inj h
      simp only [opError.sizeOf_spec]
      omega
  | wrapped what err ih =>
      have smaller := ih h
      simp only [wrapped.sizeOf_spec]
      omega
  | netClosed | osClosed | errno e | other text => cases h

/-- What a wrapped `*net.OpError` holds, the chain of the whole error holds too. -/
theorem is_of_asOpError {e inner target : WriteError} (h : e.asOpError = some inner)
    (his : inner.is target = true) : e.is target = true := by
  induction e with
  | opError what err ih =>
      obtain rfl : err = inner := Option.some.inj h
      simp [is, his]
  | wrapped what err ih => simp [is, ih h]
  | netClosed | osClosed | errno e | other text => cases h

end WriteError

/-- `IsBrokenPipe`; where there is no error it is not called. -/
def isBrokenPipe (err : WriteError) : Bool :=
  if err.is .netClosed || err.is .osClosed || err.is (.errno .epipe) then true
  else
    match _h : err.asOpError with
    | some inner => isBrokenPipe inner
    | none => false
termination_by sizeOf err
decreasing_by exact WriteError.sizeOf_asOpError _h

/-- `errors.Is` looks through a `*net.OpError` itself: the recursion finds nothing new. -/
theorem isBrokenPipe_eq (err : WriteError) :
    isBrokenPipe err = (err.is .netClosed || err.is .osClosed || err.is (.errno .epipe)) := by
  induction err using isBrokenPipe.induct with
  | case1 err found => rw [isBrokenPipe, if_pos found, found]
  | case2 err missed inner h ih =>
      have inside : isBrokenPipe inner = false := by
        rw [ih, Bool.eq_false_iff]
        intro found
        apply missed
        simp only [Bool.or_eq_true] at found ⊢
        exact found.imp (Or.imp (WriteError.is_of_asOpError h) (WriteError.is_of_asOpError h))
          (WriteError.is_of_asOpError h)
      rw [isBrokenPipe, if_neg missed]
      split
      · next inner' h' =>
          obtain rfl : inner = inner' := Option.some.inj (h.symm.trans h')
          rw [inside, Bool.eq_false_iff.mpr missed]
      · next h' => simp [h] at h'
  | case3 err missed h =>
      rw [isBrokenPipe, if_neg missed, Bool.eq_false_iff.mpr missed]
      split
      · next inner h' => simp [h] at h'
      · rfl

/-! ## The loop -/

/-- The flags a poll comes back with. -/
structure Revents where
  pollin : Bool
  pollhup : Bool
  pollerr : Bool
  pollnval : Bool
  deriving DecidableEq, Repr

/-- The error of a read: the loop also expects `io.EOF`. -/
inductive ReadError where
  | errno (e : Errno)
  | eof
  deriving DecidableEq, Repr

/-- Where `CopyInputUntilClosed` returns. -/
inductive Exit where
  | done
  | poll (e : Errno)
  | flags (r : Revents)
  | write (e : WriteError)
  | endOfInput
  | read (e : Errno)
  deriving DecidableEq, Repr

namespace Exit

/-- What it prints to standard error before. -/
def message : Exit → Option String
  | poll e => some ("something went wrong while polling stdin: " ++ e.text ++ "\n")
  | write e =>
      if isBrokenPipe e then none
      else some ("something went wrong while writing container input: " ++ e.text ++ "\n")
  | read e => some ("read stdin failed: " ++ e.text ++ "\n")
  | done | flags _ | endOfInput => none

/-- The loop has returned without `done` and without an error of a poll, a read or a
write. -/
def Clean : Exit → Prop
  | flags _ | endOfInput => True
  | done | poll _ | write _ | read _ => False

end Exit

/-- What the calls of one round answer.  A write that fails has taken some of the bytes. -/
structure Answers where
  done : Bool
  poll : Except Errno Revents
  read : List UInt8 × Option ReadError
  write : Option (ℕ × WriteError)

/-- What one round does: whether it reads, the bytes it writes, where it returns. -/
structure Round where
  reads : Bool
  sent : List UInt8
  exit : Option Exit
  deriving DecidableEq, Repr

/-- The end of a round that has read: the bytes are written, then the read's error is
looked at. -/
def copyBytes (a : Answers) : Round :=
  match a.read.1, a.write with
  | b :: bs, some (taken, e) => ⟨true, (b :: bs).take taken, some (.write e)⟩
  | bytes, _ =>
      match a.read.2 with
      | none => ⟨true, bytes, none⟩
      | some (.errno e) =>
          if e = .eintr ∨ e = .eagain then ⟨true, bytes, none⟩
          else ⟨true, bytes, some (.read e)⟩
      | some .eof => ⟨true, bytes, some .endOfInput⟩

/-- A read that fails ends the loop, unless it was interrupted or there was nothing to read. -/
theorem copyBytes_failed {a : Answers} {e : Errno} (h : a.read = ([], some (.errno e))) :
    copyBytes a =
      ⟨true, [], if e = .eintr ∨ e = .eagain then none else some (.read e)⟩ := by
  simp only [copyBytes, h]
  split <;> rfl

/-- What a read gives is written, and the loop goes on. -/
theorem copyBytes_copied {a : Answers} {bytes : List UInt8} (h : a.read = (bytes, none))
    (hw : bytes = [] ∨ a.write = none) : copyBytes a = ⟨true, bytes, none⟩ := by
  obtain rfl | hw := hw
  · simp only [copyBytes, h]
  · cases bytes <;> simp only [copyBytes, h, hw]

/-- A write that fails ends the loop, with what has been taken of the bytes. -/
theorem copyBytes_writeFailed {a : Answers} {bytes : List UInt8} {taken : ℕ} {e : WriteError}
    (h : a.read = (bytes, none)) (hb : bytes ≠ []) (hw : a.write = some (taken, e)) :
    copyBytes a = ⟨true, bytes.take taken, some (.write e)⟩ := by
  obtain ⟨b, bs, rfl⟩ := List.exists_cons_of_ne_nil hb
  simp only [copyBytes, h, hw]

/-- The body of the loop of `CopyInputUntilClosed`. -/
def copyIteration (a : Answers) : Round :=
  if a.done then ⟨false, [], some .done⟩
  else
    match a.poll with
    | .error e => if e = .eintr then ⟨false, [], none⟩ else ⟨false, [], some (.poll e)⟩
    | .ok revents =>
        if revents.pollhup || revents.pollerr || revents.pollnval then
          ⟨false, [], some (.flags revents)⟩
        else if !revents.pollin then ⟨false, [], none⟩
        else copyBytes a

/-! ## The descriptor -/

/-- The kinds of descriptor that standard input can be. -/
inductive Kind where
  | pipe
  | terminal
  | file
  deriving DecidableEq, Repr

/-- What waits to be read: a byte, or an end-of-file character typed on a line of its own. -/
inductive Item where
  | byte (b : UInt8)
  | endOfFile
  deriving DecidableEq, Repr

namespace Item

/-- The byte of an item, which an end-of-file character has none of. -/
def byte? : Item → Option UInt8
  | byte b => some b
  | endOfFile => none

end Item

/-- The bytes among what waits to be read. -/
def text (items : List Item) : List UInt8 := items.filterMap Item.byte?

@[simp] theorem text_nil : text [] = [] := rfl

@[simp] theorem text_byte (b : UInt8) (items : List Item) :
    text (.byte b :: items) = b :: text items := rfl

@[simp] theorem text_endOfFile (items : List Item) : text (.endOfFile :: items) = text items :=
  rfl

/-- The text of two parts is that of the one and that of the other. -/
@[simp] theorem text_append (items more : List Item) :
    text (items ++ more) = text items ++ text more := List.filterMap_append

@[simp] theorem text_map_byte (bytes : List UInt8) : text (bytes.map .byte) = bytes := by
  induction bytes with
  | nil => rfl
  | cons b bytes ih => rw [List.map_cons, text_byte, ih]

/-- The first bytes, `n` at most, and what is left. -/
def takeBytes : ℕ → List Item → List UInt8 × List Item
  | n + 1, .byte b :: items => (b :: (takeBytes n items).1, (takeBytes n items).2)
  | _, items => ([], items)

/-- Taking bytes off the front neither loses nor changes any. -/
theorem takeBytes_text (n : ℕ) (items : List Item) :
    (takeBytes n items).1 ++ text (takeBytes n items).2 = text items := by
  induction n, items using takeBytes.induct with
  | case1 n b items ih => simp [takeBytes, ih]
  | case2 n items h => simp [takeBytes]

/-- One read: an end-of-file character that stands first is consumed and gives no bytes. -/
def readItems (n : ℕ) : List Item → List UInt8 × List Item
  | .endOfFile :: items => ([], items)
  | items => takeBytes n items

/-- Reading loses nothing and reorders nothing. -/
theorem readItems_text (n : ℕ) (items : List Item) :
    (readItems n items).1 ++ text (readItems n items).2 = text items := by
  unfold readItems
  split
  · rfl
  · exact takeBytes_text n _

/-- The descriptor: the bytes in `future` have not been written by the other side yet, which
may close once there are none. -/
structure Stdin where
  kind : Kind
  unread : List Item
  future : List UInt8
  closed : Bool
  deriving DecidableEq, Repr

namespace Stdin

/-- A file holds all of its bytes from the start. -/
def start : Kind → List UInt8 → Stdin
  | .file, stream => ⟨.file, stream.map .byte, [], false⟩
  | kind, stream => ⟨kind, [], stream, false⟩

/-- The bytes of the stream that have not been read. -/
def left (i : Stdin) : List UInt8 := text i.unread ++ i.future

@[simp] theorem left_start (kind : Kind) (stream : List UInt8) :
    (start kind stream).left = stream := by
  cases kind <;> simp [start, left]

/-- The next `n` bytes are written. -/
def arrive (i : Stdin) (n : ℕ) : Stdin :=
  { i with unread := i.unread ++ (i.future.take n).map .byte, future := i.future.drop n }

/-- Bytes that arrive were left before and are left now. -/
theorem left_arrive (i : Stdin) (n : ℕ) : (i.arrive n).left = i.left := by
  simp only [arrive, left, text_append, text_map_byte, List.append_assoc,
    List.take_append_drop]

/-- What happens to the descriptor from outside. -/
inductive World where
  | arrive (n : ℕ)
  /-- the end-of-file character is typed -/
  | typeEndOfFile
  /-- the last writer of a pipe closes it, a terminal is hung up -/
  | close
  deriving DecidableEq, Repr

/-- A file is not typed at and has no other side. -/
def move (i : Stdin) : World → Option Stdin
  | .arrive n => some (i.arrive n)
  | .typeEndOfFile =>
      if i.kind = .terminal ∧ i.closed = false then
        some { i with unread := i.unread ++ [.endOfFile] }
      else none
  | .close =>
      if i.kind ≠ .file ∧ i.future = [] then some { i with closed := true } else none

/-- What the other side does takes nothing off the stream, and only `close` closes it. -/
theorem move_spec {i i' : Stdin} {w : World} (h : i.move w = some i') :
    i'.left = i.left ∧ i'.kind = i.kind ∧ (i'.closed = true ↔ i.closed = true ∨ w = .close) := by
  cases w with
  | arrive n =>
      obtain rfl : i.arrive n = i' := Option.some.inj h
      exact ⟨left_arrive i n, rfl, by simp [arrive]⟩
  | typeEndOfFile =>
      simp only [move] at h
      split_ifs at h
      obtain rfl := Option.some.inj h
      exact ⟨by simp [left], rfl, by simp⟩
  | close =>
      simp only [move] at h
      split_ifs at h
      obtain rfl := Option.some.inj h
      exact ⟨rfl, rfl, by simp⟩

/-- `POLLIN`: a regular file always has it. -/
def readable (i : Stdin) : Bool := i.kind = .file || !i.unread.isEmpty

end Stdin

/-! ## Runs -/

/-- What the world settles about one round: whether `done` is closed, which calls fail, how
much a read gives and the error flags a poll reports. -/
structure Choice where
  done : Bool
  pollError : Option Errno
  pollerr : Bool
  pollnval : Bool
  readError : Option Errno
  amount : ℕ
  writeError : Option (ℕ × WriteError)
  deriving DecidableEq, Repr

namespace Choice

/-- The length of a read: one byte at least, the buffer at most. -/
def length (c : Choice) : ℕ := min (c.amount + 1) (32 * 1024)

/-- What the calls of a round answer on the descriptor `i`. -/
def answers (c : Choice) (i : Stdin) : Answers where
  done := c.done
  poll :=
    match c.pollError with
    | some e => .error e
    | none => .ok ⟨i.readable, i.closed, c.pollerr, c.pollnval⟩
  read :=
    match c.readError with
    | some e => ([], some (.errno e))
    | none => ((readItems c.length i.unread).1, none)
  write := c.writeError

/-- The poll comes back with one of the flags that end the loop. -/
def Flagged (c : Choice) (i : Stdin) : Prop :=
  i.closed = true ∨ c.pollerr = true ∨ c.pollnval = true

instance (c : Choice) (i : Stdin) : Decidable (c.Flagged i) :=
  inferInstanceAs (Decidable (_ ∨ _ ∨ _))

end Choice

/-- A call of `CopyInputUntilClosed`: the descriptor, what has been written to `dst`, and
where it has returned. -/
structure Copying where
  stdin : Stdin
  written : List UInt8
  exit : Option Exit
  deriving DecidableEq, Repr

/-- An event at the descriptor, or one round of the loop. -/
inductive Event where
  | world (w : Stdin.World)
  | iterate (c : Choice)
  deriving DecidableEq, Repr

namespace Copying

/-- The loop before its first round. -/
def start (kind : Kind) (stream : List UInt8) : Copying := ⟨.start kind stream, [], none⟩

/-- One round. -/
def iterate (s : Copying) (c : Choice) : Copying :=
  let round := copyIteration (c.answers s.stdin)
  { stdin :=
      if round.reads && c.readError.isNone then
        { s.stdin with unread := (readItems c.length s.stdin.unread).2 }
      else s.stdin
    written := s.written ++ round.sent
    exit := round.exit }

/-- One step of the world or of the loop, while the call runs. -/
def step (s : Copying) (e : Event) : Option Copying :=
  if s.exit.isSome then none
  else
    match e with
    | .world w => (s.stdin.move w).map fun i => { s with stdin := i }
    | .iterate c => some (s.iterate c)

/-! ## What one round can do -/

/-- The rounds of the loop, in the order of the source. -/
inductive Iterates (s : Copying) (c : Choice) : Copying → Prop
  | done (h : c.done = true) : Iterates s c { s with exit := some .done }
  | interrupted (h : c.done = false) (hp : c.pollError = some .eintr) : Iterates s c s
  | pollFailed (e : Errno) (h : c.done = false) (hp : c.pollError = some e) (he : e ≠ .eintr) :
      Iterates s c { s with exit := some (.poll e) }
  | flags (h : c.done = false) (hp : c.pollError = none)
      (hf : c.Flagged s.stdin) :
      Iterates s c
        { s with
          exit := some (.flags ⟨s.stdin.readable, s.stdin.closed, c.pollerr, c.pollnval⟩) }
  | quiet (h : c.done = false) (hp : c.pollError = none) (hf : ¬ c.Flagged s.stdin)
      (hr : s.stdin.readable = false) : Iterates s c s
  | readFailed (e : Errno) (h : c.done = false) (hp : c.pollError = none)
      (hf : ¬ c.Flagged s.stdin) (hr : s.stdin.readable = true) (hread : c.readError = some e) :
      Iterates s c
        { s with exit := if e = .eintr ∨ e = .eagain then none else some (.read e) }
  | copied (unread : List Item) (bytes : List UInt8) (h : c.done = false)
      (hp : c.pollError = none) (hf : ¬ c.Flagged s.stdin) (hr : s.stdin.readable = true)
      (hread : c.readError = none) (hitems : readItems c.length s.stdin.unread = (bytes, unread))
      (hwrite : bytes = [] ∨ c.writeError = none) :
      Iterates s c
        { stdin := { s.stdin with unread := unread }, written := s.written ++ bytes, exit := none }
  | writeFailed (unread : List Item) (bytes : List UInt8) (taken : ℕ) (e : WriteError)
      (h : c.done = false) (hp : c.pollError = none) (hf : ¬ c.Flagged s.stdin)
      (hr : s.stdin.readable = true)
      (hread : c.readError = none) (hitems : readItems c.length s.stdin.unread = (bytes, unread))
      (hbytes : bytes ≠ []) (hwrite : c.writeError = some (taken, e)) :
      Iterates s c
        { stdin := { s.stdin with unread := unread }, written := s.written ++ bytes.take taken,
          exit := some (.write e) }

/-- A round that does not get to its read, or whose read fails, only sets where the loop
returns. -/
theorem iterate_of_unread {s : Copying} {c : Choice} {reads : Bool} {exit : Option Exit}
    (h : copyIteration (c.answers s.stdin) = ⟨reads, [], exit⟩)
    (hread : (reads && c.readError.isNone) = false) :
    s.iterate c = { s with exit := exit } := by
  simp [iterate, h, hread]

/-- A round whose read gives bytes takes them off the descriptor and writes them. -/
theorem iterate_of_read {s : Copying} {c : Choice} {sent : List UInt8} {exit : Option Exit}
    (h : copyIteration (c.answers s.stdin) = ⟨true, sent, exit⟩) (hread : c.readError = none) :
    s.iterate c =
      { stdin := { s.stdin with unread := (readItems c.length s.stdin.unread).2 },
        written := s.written ++ sent, exit := exit } := by
  simp [iterate, h, hread]

/-- A round whose poll only reports `POLLIN` reads. -/
theorem copyIteration_answers {i : Stdin} {c : Choice} (h : c.done = false)
    (hp : c.pollError = none) (hf : ¬ c.Flagged i) (hr : i.readable = true) :
    copyIteration (c.answers i) = copyBytes (c.answers i) := by
  simp only [Choice.Flagged, not_or, Bool.not_eq_true] at hf
  simp [copyIteration, Choice.answers, h, hp, hf, hr]

/-- What a round can do, with what each case needs. -/
theorem iterates {s : Copying} (hs : s.exit = none) (c : Choice) :
    Iterates s c (s.iterate c) := by
  have same : { s with exit := none } = s := by rw [← hs]
  cases h : c.done with
  | true =>
      have round : copyIteration (c.answers s.stdin) = ⟨false, [], some .done⟩ := by
        simp [copyIteration, Choice.answers, h]
      rw [iterate_of_unread round rfl]
      exact .done h
  | false =>
  cases hp : c.pollError with
  | some e =>
      by_cases he : e = .eintr
      · subst he
        have round : copyIteration (c.answers s.stdin) = ⟨false, [], none⟩ := by
          simp [copyIteration, Choice.answers, h, hp]
        rw [iterate_of_unread round rfl, same]
        exact .interrupted h hp
      · have round : copyIteration (c.answers s.stdin) = ⟨false, [], some (.poll e)⟩ := by
          simp [copyIteration, Choice.answers, h, hp, he]
        rw [iterate_of_unread round rfl]
        exact .pollFailed e h hp he
  | none =>
  by_cases hf : c.Flagged s.stdin
  · have round : copyIteration (c.answers s.stdin) = ⟨false, [], some
        (.flags ⟨s.stdin.readable, s.stdin.closed, c.pollerr, c.pollnval⟩)⟩ := by
      unfold Choice.Flagged at hf
      simp [copyIteration, Choice.answers, h, hp, or_assoc, hf]
    rw [iterate_of_unread round rfl]
    exact .flags h hp hf
  cases hr : s.stdin.readable with
  | false =>
      have round : copyIteration (c.answers s.stdin) = ⟨false, [], none⟩ := by
        simp only [Choice.Flagged, not_or, Bool.not_eq_true] at hf
        simp [copyIteration, Choice.answers, h, hp, hf, hr]
      rw [iterate_of_unread round rfl, same]
      exact .quiet h hp hf hr
  | true =>
  have reads := copyIteration_answers h hp hf hr
  cases hread : c.readError with
  | some e =>
      have gives : (c.answers s.stdin).read = ([], some (.errno e)) := by
        simp [Choice.answers, hread]
      rw [iterate_of_unread (reads.trans (copyBytes_failed gives)) (by simp [hread])]
      exact .readFailed e h hp hf hr hread
  | none =>
  have gives : (c.answers s.stdin).read = ((readItems c.length s.stdin.unread).1, none) := by
    simp [Choice.answers, hread]
  by_cases hb : (readItems c.length s.stdin.unread).1 = [] ∨ c.writeError = none
  · rw [iterate_of_read (reads.trans (copyBytes_copied gives hb)) hread]
    exact .copied _ _ h hp hf hr hread rfl hb
  · obtain ⟨hbytes, hwrite⟩ := not_or.mp hb
    obtain ⟨⟨taken, e⟩, hwrite⟩ := Option.ne_none_iff_exists'.mp hwrite
    rw [iterate_of_read (reads.trans (copyBytes_writeFailed gives hbytes hwrite)) hread]
    exact .writeFailed _ _ taken e h hp hf hr hread rfl hbytes hwrite

/-- What one step can do. -/
theorem step_cases {s t : Copying} {e : Event} (h : s.step e = some t) :
    s.exit = none ∧
      ((∃ w i, e = .world w ∧ s.stdin.move w = some i ∧ t = { s with stdin := i }) ∨
        ∃ c, e = .iterate c ∧ t = s.iterate c ∧ Iterates s c t) := by
  unfold step at h
  split_ifs at h with hs
  have running : s.exit = none := by simpa using hs
  refine ⟨running, ?_⟩
  cases e with
  | world w =>
      obtain ⟨i, hi, rfl⟩ := Option.map_eq_some_iff.mp h
      exact .inl ⟨w, i, rfl, hi, rfl⟩
  | iterate c =>
      obtain rfl := Option.some.inj h
      exact .inr ⟨c, rfl, rfl, iterates running c⟩

/-! ## What has been written -/

/-- While the call runs, what it has written and what is left make up the stream. -/
def Forwarded (stream : List UInt8) (s : Copying) : Prop :=
  s.exit = none → s.written ++ s.stdin.left = stream

/-- Nothing has been written yet, and all is left. -/
theorem forwarded_start (kind : Kind) (stream : List UInt8) :
    Forwarded stream (start kind stream) := fun _ => Stdin.left_start kind stream

/-- A successful read and the write that follows move bytes from one side to the other. -/
theorem written_append_left {i : Stdin} {n : ℕ} {bytes : List UInt8} {unread : List Item}
    (h : readItems n i.unread = (bytes, unread)) (written : List UInt8) :
    written ++ bytes ++ ({ i with unread := unread } : Stdin).left = written ++ i.left := by
  have split := readItems_text n i.unread
  rw [h] at split
  simp only [Stdin.left, ← split, List.append_assoc]

/-- Each step keeps what has been written and what is left together. -/
theorem forwarded_step {stream : List UInt8} {s t : Copying} {e : Event}
    (hs : Forwarded stream s) (h : s.step e = some t) : Forwarded stream t := by
  obtain ⟨running, ⟨w, i, -, hi, rfl⟩ | ⟨c, -, -, round⟩⟩ := step_cases h
  · intro _
    rw [(Stdin.move_spec hi).1]
    exact hs running
  intro runs
  cases round with
  | interrupted | quiet => exact hs running
  | readFailed => exact hs running
  | copied unread bytes _ _ _ _ _ hitems =>
      rw [written_append_left hitems]
      exact hs running
  | done | pollFailed | flags | writeFailed => cases runs

/-- **What is forwarded.**  In every run, where the loop returns without an error, all of the
stream has been written exactly if nothing of it was left at the poll that ended the loop. -/
theorem written_iff {kind : Kind} {stream : List UInt8} {s t : Copying} {e : Event} {x : Exit}
    (hs : Reaches step Always (start kind stream) s) (h : s.step e = some t)
    (hx : t.exit = some x) (clean : x.Clean) : t.written = stream ↔ s.stdin.left = [] := by
  have forwarded : Forwarded stream s :=
    hs.invariant (forwarded_start kind stream) fun _ _ _ hs _ h => forwarded_step hs h
  obtain ⟨running, ⟨w, i, -, -, rfl⟩ | ⟨c, -, -, round⟩⟩ := step_cases h
  · simp [running] at hx
  have whole := forwarded running
  cases round with
  | flags =>
      rw [← whole]
      exact List.self_eq_append_right
  | done | pollFailed | writeFailed =>
      obtain rfl := Option.some.inj hx
      cases clean
  | interrupted | quiet => simp [running] at hx
  | readFailed e =>
      simp only at hx
      split_ifs at hx
      obtain rfl := Option.some.inj hx
      cases clean
  | copied => cases hx

/-- A round in which no call fails, of a loop whose `done` is open. -/
def calm : Choice := ⟨false, none, false, false, none, 0, none⟩

/-- Two bytes are read one by one, then the pipe's writer closes. -/
theorem written_iff_pipe :
    (outcome step Always (start .pipe [104, 105]) [.world (.arrive 2), .iterate calm,
      .iterate calm, .world .close, .iterate calm]).written = [104, 105] :=
  (written_iff (reaches_outcome step Always (start .pipe [104, 105])
    [.world (.arrive 2), .iterate calm, .iterate calm, .world .close])
    (e := .iterate calm) (x := .flags ⟨false, true, false, false⟩) (by decide) (by decide)
    trivial).mpr (by decide)

/-- The writer closes with both bytes in the pipe: the poll reports `POLLIN` and `POLLHUP`,
and the loop returns with nothing written. -/
theorem tail_dropped :
    (outcome step Always (start .pipe [104, 105])
      [.world (.arrive 2), .world .close, .iterate calm]).exit =
        some (.flags ⟨true, true, false, false⟩) ∧
    (outcome step Always (start .pipe [104, 105])
      [.world (.arrive 2), .world .close, .iterate calm]).written ≠ [104, 105] := by
  decide

/-! ## The end of the input -/

/-- Whether a round's calls fail, other than with `EINTR` or `EAGAIN`; the descriptor is read
only where it polls readable. -/
def Fails (c : Choice) (i : Stdin) : Prop :=
  (∃ e, c.pollError = some e ∧ e ≠ .eintr) ∨
    c.pollError = none ∧ (c.pollerr = true ∨ c.pollnval = true ∨
      i.readable = true ∧ ∃ e, c.readError = some e ∧ e ≠ .eintr ∧ e ≠ .eagain)

/-- The states of a call along a schedule; what cannot happen is passed over. -/
def after (s : Copying) (es : ℕ → Event) : ℕ → Copying
  | 0 => s
  | n + 1 => ((s.after es n).step (es n)).getD (s.after es n)

/-- The descriptor has been closed by the time `n` of the schedule. -/
def ClosedBy (s : Copying) (es : ℕ → Event) (n : ℕ) : Prop :=
  s.stdin.closed = true ∨ s.stdin.kind ≠ .file ∧ ∃ m < n, es m = .world .close

/-- Nothing of the stream is left and the call runs. -/
def Exhausted (s : Copying) : Prop := s.exit = none ∧ s.stdin.left = []

/-- A round after the last byte returns exactly on `done`, on a failure or on a hang-up. -/
theorem iterate_exhausted {s : Copying} (hs : s.Exhausted) (c : Choice) :
    (s.iterate c).exit ≠ none ↔
      c.done = true ∨ Fails c s.stdin ∨ c.pollError = none ∧ s.stdin.closed = true := by
  have round := iterates hs.1 c
  generalize s.iterate c = t at round
  cases round with
  | done h => simp [h]
  | interrupted h hp => simp [Fails, h, hp, hs.1]
  | pollFailed e h hp he => simp [Fails, hp, he]
  | flags h hp hf =>
      rcases hf with hf | hf | hf <;> simp [Fails, hp, hf]
  | quiet h hp hf hr =>
      simp only [Choice.Flagged, not_or] at hf
      simp [Fails, h, hp, hf, hr, hs.1]
  | readFailed e h hp hf hr hread =>
      simp only [Choice.Flagged, not_or] at hf
      simp [Fails, h, hp, hf, hr, hread]
  | copied unread bytes h hp hf hr hread =>
      simp only [Choice.Flagged, not_or] at hf
      simp [Fails, h, hp, hf, hread]
  | writeFailed unread bytes taken e h hp hf hr hread hitems hbytes =>
      have split := readItems_text c.length s.stdin.unread
      rw [hitems, (List.append_eq_nil_iff.mp hs.2).1] at split
      exact absurd (List.append_eq_nil_iff.mp split).1 hbytes

/-- A round keeps the kind of the descriptor and whether it is closed, and leaves nothing
where nothing was left. -/
theorem Iterates.stdin {s t : Copying} {c : Choice} (h : Iterates s c t) :
    t.stdin.kind = s.stdin.kind ∧ t.stdin.closed = s.stdin.closed ∧
      (s.stdin.left = [] → t.stdin.left = []) := by
  have rest : ∀ {bytes unread}, readItems c.length s.stdin.unread = (bytes, unread) →
      s.stdin.left = [] → ({ s.stdin with unread := unread } : Stdin).left = [] := by
    intro bytes unread hitems hleft
    have whole := written_append_left hitems []
    rw [hleft] at whole
    exact (List.append_eq_nil_iff.mp whole).2
  cases h with
  | copied unread bytes _ _ _ _ _ hitems => exact ⟨rfl, rfl, rest hitems⟩
  | writeFailed unread bytes taken e _ _ _ _ _ hitems => exact ⟨rfl, rfl, rest hitems⟩
  | done | interrupted | pollFailed | flags | quiet | readFailed => exact ⟨rfl, rfl, id⟩

/-- The next state of a schedule: nothing comes to be left, and only the close of something
that is no file closes the descriptor. -/
theorem next_exhausted {s : Copying} (hs : s.Exhausted) (e : Event)
    (hnext : ((s.step e).getD s).exit = none) :
    ((s.step e).getD s).Exhausted ∧ ((s.step e).getD s).stdin.kind = s.stdin.kind ∧
      (((s.step e).getD s).stdin.closed = true ↔
        s.stdin.closed = true ∨ s.stdin.kind ≠ .file ∧ e = .world .close) := by
  cases h : s.step e with
  | some t =>
      rw [h] at hnext
      obtain ⟨-, ⟨w, i, rfl, hi, rfl⟩ | ⟨c, rfl, -, round⟩⟩ := step_cases h
      · obtain ⟨hleft, hkind, hclosed⟩ := Stdin.move_spec hi
        refine ⟨⟨hs.1, hleft.trans hs.2⟩, hkind, ?_⟩
        have other_side : w = .close → s.stdin.kind ≠ .file := by
          rintro rfl
          simp only [Stdin.move] at hi
          split_ifs at hi with hclose
          exact hclose.1
        simp only [Option.getD_some, hclosed, Event.world.injEq]
        exact or_congr_right ⟨fun hw => ⟨other_side hw, hw⟩, And.right⟩
      · obtain ⟨hkind, hclosed, hleft⟩ := round.stdin
        refine ⟨⟨hnext, hleft hs.2⟩, hkind, ?_⟩
        simp [hclosed]
  | none =>
      refine ⟨hs, rfl, ?_⟩
      have hfuture : s.stdin.future = [] := (List.append_eq_nil_iff.mp hs.2).2
      -- the only event of these that would close it is refused for a file
      have refused : e = .world .close → s.stdin.kind = .file := by
        rintro rfl
        simpa [step, hs.1, Stdin.move, hfuture] using h
      simpa using fun hkind he => absurd (refused he) hkind

/-- The other side has closed by a round if it had by the one before, or does so in it. -/
theorem closedBy_succ (s : Copying) (es : ℕ → Event) (n : ℕ) :
    s.ClosedBy es (n + 1) ↔
      s.ClosedBy es n ∨ s.stdin.kind ≠ .file ∧ es n = .world .close := by
  simp only [ClosedBy, Nat.lt_succ_iff_lt_or_eq, or_and_right, exists_or, exists_eq_left,
    and_or_left, or_assoc]

/-- Nothing more is read, and the schedule alone settles whether the descriptor is closed. -/
theorem after_exhausted {s : Copying} (hs : s.Exhausted) (es : ℕ → Event) (n : ℕ)
    (hn : (s.after es n).exit = none) :
    (s.after es n).Exhausted ∧ (s.after es n).stdin.kind = s.stdin.kind ∧
      ((s.after es n).stdin.closed = true ↔ s.ClosedBy es n) := by
  induction n with
  | zero => exact ⟨hs, rfl, by simp [after, ClosedBy]⟩
  | succ n ih =>
      have running : (s.after es n).exit = none := by
        by_contra hx
        have stays : (s.after es n).step (es n) = none := by
          simp [step, Option.isSome_iff_ne_none.mpr hx]
        exact hx (by simpa [after, stays] using hn)
      obtain ⟨hex, hkind, hclosed⟩ := ih running
      obtain ⟨hex', hkind', hclosed'⟩ := next_exhausted hex (es n) hn
      refine ⟨hex', hkind'.trans hkind, ?_⟩
      rw [closedBy_succ, ← hclosed, ← hkind]
      exact hclosed'

/-- The step of a schedule at which the loop returns. -/
theorem exists_return {s : Copying} (hs : s.exit = none) {es : ℕ → Event} {n : ℕ}
    (hn : (s.after es n).exit ≠ none) :
    ∃ m c, es m = .iterate c ∧ (s.after es m).exit = none ∧
      ((s.after es m).iterate c).exit ≠ none := by
  induction n with
  | zero => exact absurd hs hn
  | succ n ih =>
      by_cases running : (s.after es n).exit = none
      · cases h : (s.after es n).step (es n) with
        | none => simp [after, h, running] at hn
        | some t =>
            simp only [after, h, Option.getD_some] at hn
            obtain ⟨-, ⟨w, i, -, -, rfl⟩ | ⟨c, he, rfl, -⟩⟩ := step_cases h
            · exact absurd running hn
            · exact ⟨n, c, he, running, hn⟩
      · exact ih running

/-- **Where it ends.**  Once nothing of the stream is left, the loop returns after finitely
many rounds exactly if in some round `done` is closed, or a call fails, or a poll that is not
interrupted finds the descriptor closed. -/
theorem returns_iff {s : Copying} (hs : s.Exhausted) (es : ℕ → Event) :
    (∃ n, (s.after es n).exit ≠ none) ↔
      ∃ n c, es n = .iterate c ∧
        (c.done = true ∨ Fails c (s.after es n).stdin ∨
          c.pollError = none ∧ s.ClosedBy es n) := by
  constructor
  · rintro ⟨n, hn⟩
    obtain ⟨m, c, hm, running, hreturn⟩ := exists_return hs.1 hn
    obtain ⟨hex, -, hclosed⟩ := after_exhausted hs es m running
    rw [iterate_exhausted hex, hclosed] at hreturn
    exact ⟨m, c, hm, hreturn⟩
  · rintro ⟨n, c, hn, ends⟩
    by_cases running : (s.after es n).exit = none
    · obtain ⟨hex, -, hclosed⟩ := after_exhausted hs es n running
      rw [← hclosed, ← iterate_exhausted hex] at ends
      exact ⟨n + 1, by simpa [after, step, hn, running] using ends⟩
    · exact ⟨n, running⟩

/-- The writer of an empty pipe closes it; the next poll is interrupted, the one after ends
the loop. -/
theorem returns_iff_pipe :
    ∃ n, ((start .pipe []).after
      (fun n => if n = 0 then .world .close
        else .iterate { calm with pollError := if n = 1 then some .eintr else none })
      n).exit ≠ none :=
  (returns_iff ⟨rfl, rfl⟩ _).mpr
    ⟨2, calm, rfl, .inr (.inr ⟨rfl, .inr ⟨by decide, 0, by decide, rfl⟩⟩)⟩

/-- A regular file of one byte after the byte has been copied. -/
def copied : Copying := outcome step Always (start .file [97]) [.iterate calm]

/-- The file polls readable and every read gives zero bytes: no round returns, though no call
fails. -/
theorem file_never_returns :
    copied.Exhausted ∧ copied.written = [97] ∧
      ∀ n, (copied.after (fun _ => .iterate calm) n).exit = none := by
  have stays : copied.iterate calm = copied := by decide
  have step_stays : (copied.step (.iterate calm)).getD copied = copied := by
    simp only [step, stays]
    decide
  have all : ∀ n, copied.after (fun _ => .iterate calm) n = copied := by
    intro n
    induction n with
    | zero => rfl
    | succ n ih => rw [after, ih, step_stays]
  refine ⟨⟨by decide, by decide⟩, by decide, fun n => ?_⟩
  rw [all]
  decide

end Copying

end Gocker.Tty
