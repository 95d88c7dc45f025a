import Gocker.Container.Pipe
import Gocker.Container.Rootfs
import Gocker.Lib.Fields
import Gocker.Network.ContainerNetwork

/-!
# The first process of a container (`internal/container/init.go`)

`InitContainer` reads the request, sets up host name, root, DNS and network, runs the commands of
the initialization file, starts the monitor and becomes the container's command.  The commands
come from `loadInitCommands` (`cmd/run.go`).

A command is recorded with the namespaces in which it runs.  `initContainer_isolated` says that
no command ever runs outside of the container, and which commands run in which order, whatever
fails.

### What can fail

Each operation of the system may fail, with any text: `InitEnv` says which do.  A failure ends
the process with an error, apart from the start of the monitor, which is only logged.  The
specification is in two parts, as a `Spec` has them: what holds when the process has executed
the command, and what holds when it has ended before (`Begun`), where the commands that have run
are a beginning of those that were to run.

### Namespaces

The process is launched in new namespaces, which at first have what the old ones have.
`Isolated` says what a command sees of its own: the root is the container's overlay, the host
name is its id, and the interface has its address.
-/

namespace Gocker.Container

open Fallible Fields
open Json (Bytes)
open RootfsEnv (Contained Fresh HostLeft Straight overlayDir)
open Network (NetNamespace NetLink NetOp NetAddr joined configureContainerNetwork)

/-! ## The commands of the initialization file -/

/-- `strings.TrimSpace` -/
def trimSpace (text : Text) : Text :=
  ((text.dropWhile Rune.isSpace).reverse.dropWhile Rune.isSpace).reverse

/-- The loop over the lines. -/
def commandLines : List Text → List Text
  | [] => []
  | line :: rest =>
      let line := trimSpace line
      if line = [] ∨ line.head? = some (.char '#') then commandLines rest
      else line :: commandLines rest

/-- The file, as far as it can be read. -/
inductive InitFile where
  | missing
  | unreadable
  | text (data : Text)
deriving DecidableEq

/-- `loadInitCommands`, and what `run` makes of its result; `none` is fatal. -/
def loadInitCommands : InitFile → Option (List Text)
  | .missing => some []
  | .unreadable => none
  | .text data => (lines data).map commandLines

/-- A command in a request: a byte that belongs to no character is replaced. -/
def commandText (line : Text) : String :=
  String.ofList (line.map fun
    | .char c => c
    | .byte _ => Char.ofNat 0xFFFD)

/-- A line as it is written: blanks, a text and blanks. -/
structure InitLine where
  indent : Text
  body : Text
  trailing : Text
  blank : ∀ r ∈ indent ++ trailing, r.isSpace = true ∧ r ≠ Rune.newline
  first : ∀ r ∈ body.head?, r.isSpace = false
  last : ∀ r ∈ body.getLast?, r.isSpace = false
  oneLine : Rune.newline ∉ body

namespace InitLine

/-- The text of the line. -/
def text (l : InitLine) : Text := l.indent ++ l.body ++ l.trailing

/-- The command in a line; an empty line and a comment have none. -/
def command? (l : InitLine) : Option Text :=
  if l.body = [] ∨ l.body.head? = some (.char '#') then none else some l.body

/-- Leading white space is dropped up to the first character that is none. -/
theorem dropWhile_of_head {xs ys : Text} (hxs : ∀ r ∈ xs, r.isSpace = true)
    (hys : ∀ r ∈ ys.head?, r.isSpace = false) : (xs ++ ys).dropWhile Rune.isSpace = ys := by
  rw [List.dropWhile_append_of_pos hxs]
  cases ys with
  | nil => rfl
  | cons y ys =>
      have hy : y.isSpace = false := hys y rfl
      rw [List.dropWhile_cons_of_neg (by simp [hy])]

theorem trimSpace_text (l : InitLine) : trimSpace l.text = l.body := by
  have hindent : ∀ r ∈ l.indent, r.isSpace = true := fun r hr =>
    (l.blank r (List.mem_append_left _ hr)).1
  have htrailing : ∀ r ∈ l.trailing.reverse, r.isSpace = true := fun r hr =>
    (l.blank r (List.mem_append_right _ (List.mem_reverse.mp hr))).1
  rw [trimSpace, text, List.append_assoc]
  by_cases hbody : l.body = []
  · -- nothing but blanks
    have hall : ∀ r ∈ l.indent ++ l.trailing, r.isSpace = true := fun r hr => (l.blank r hr).1
    have hnone : (l.indent ++ l.trailing).dropWhile Rune.isSpace = [] :=
      List.dropWhile_eq_nil_iff.mpr hall
    rw [hbody, List.nil_append, hnone]
    rfl
  · have hhead : ∀ r ∈ (l.body ++ l.trailing).head?, r.isSpace = false := fun r hr => by
      rw [List.head?_append_of_ne_nil _ hbody] at hr
      exact l.first r hr
    have hlast : ∀ r ∈ l.body.reverse.head?, r.isSpace = false := fun r hr =>
      l.last r (by rwa [List.head?_reverse] at hr)
    rw [dropWhile_of_head hindent hhead, List.reverse_append, dropWhile_of_head htrailing hlast,
      List.reverse_reverse]

end InitLine

/-- White space at the end of a line is of no account, as the carriage return of a file with
such line ends. -/
theorem trimSpace_concat {text : Text} {r : Rune} (hr : r.isSpace = true) :
    trimSpace (text ++ [r]) = trimSpace text := by
  rw [trimSpace, trimSpace, List.dropWhile_append]
  by_cases hempty : (text.dropWhile Rune.isSpace).isEmpty = true
  · rw [if_pos hempty, List.dropWhile_cons_of_pos hr, List.isEmpty_iff.mp hempty]
    rfl
  · rw [if_neg hempty, List.reverse_append, List.reverse_singleton, List.singleton_append,
      List.dropWhile_cons_of_pos hr]

/-- A carriage return is a blank. -/
theorem trimSpace_dropCR (line : Text) : trimSpace (dropCR line) = trimSpace line := by
  rw [dropCR]
  split
  case isFalse => rfl
  case isTrue hlast =>
    obtain ⟨init, rfl⟩ := List.getLast?_eq_some_iff.mp hlast
    rw [List.dropLast_concat]
    exact (trimSpace_concat rfl).symm

/-! ## A file of lines -/

/-- What `commandLines` makes of lines that have been written. -/
theorem commandLines_text (ls : List InitLine) :
    commandLines (ls.map fun l => dropCR l.text) = ls.filterMap InitLine.command? := by
  induction ls with
  | nil => rfl
  | cons l ls ih =>
      rw [List.map_cons, commandLines, trimSpace_dropCR, l.trimSpace_text, ih,
        List.filterMap_cons, InitLine.command?]
      split <;> rfl

theorem InitLine.newline_notMem (l : InitLine) : Rune.newline ∉ l.text := by
  intro h
  rcases List.mem_append.mp h with h | h
  · rcases List.mem_append.mp h with h | h
    · exact (l.blank _ (List.mem_append_left _ h)).2 rfl
    · exact l.oneLine h
  · exact (l.blank _ (List.mem_append_right _ h)).2 rfl

theorem InitLine.command?_of_text (l : InitLine) (h : l.text = []) : l.command? = none := by
  have hbody : l.body = [] := (List.append_eq_nil_iff.mp (List.append_eq_nil_iff.mp h).1).2
  exact if_pos (.inl hbody)

/-- The lines, an end of line behind each but the last. -/
def initFile (ls : List InitLine) (last : InitLine) : Text :=
  unlines Rune.newline (ls.map InitLine.text) ++ last.text

/-- The line fits in the buffer of the scanner. -/
def InitLine.fits (l : InitLine) : Bool := (l.text.map Rune.size).sum < maxScanTokenSize

/-- **The initialization file.**  The commands are those of the lines, in their order, without
the blanks around them, whether or not the last line is ended; and a line that is too long makes
the file unreadable. -/
theorem loadInitCommands_initFile (ls : List InitLine) (last : InitLine) :
    loadInitCommands (.text (initFile ls last)) =
      if (ls ++ [last]).all InitLine.fits then some ((ls ++ [last]).filterMap InitLine.command?)
      else none := by
  have hparts : (initFile ls last).splitOn Rune.newline = (ls ++ [last]).map InitLine.text := by
    rw [initFile, splitOn_unlines_append _ last.newline_notMem, List.map_append, List.map_singleton]
    intro text htext
    obtain ⟨l, -, rfl⟩ := List.mem_map.mp htext
    exact l.newline_notMem
  have hall (ls : List InitLine) : ((ls.map InitLine.text).all fun line =>
      (line.map Rune.size).sum < maxScanTokenSize) = ls.all InitLine.fits := List.all_map
  rw [loadInitCommands, lines, hparts]
  by_cases hempty : last.text = []
  · -- nothing stands behind the last end of line
    have hfits : last.fits = true := by rw [InitLine.fits, hempty]; rfl
    simp only [List.map_append, List.map_singleton, List.getLast?_concat, hempty, if_true,
      List.dropLast_concat, hall, List.all_append, List.all_cons, hfits, List.all_nil,
      Bool.and_true, List.filterMap_append, List.filterMap_cons, last.command?_of_text hempty,
      List.filterMap_nil, List.append_nil]
    split
    · rw [Option.map_some, List.map_map, ← commandLines_text]
      rfl
    · rfl
  · have hlast : ((ls ++ [last]).map InitLine.text).getLast? ≠ some [] := by
      rw [List.map_append, List.map_singleton, List.getLast?_concat]
      simpa using hempty
    simp only [hlast, if_false, hall]
    split
    · rw [Option.map_some, List.map_map, ← commandLines_text]
      rfl
    · rfl

/-! ## The process -/

/-- A program that is run. -/
inductive Command where
  /-- `/bin/sh -c` -/
  | init (commandLine : String)
  | monitor
  | exec (path : String) (args : List String)
deriving DecidableEq, Repr

/-- A command, and where it has been started.  What it does there itself is left open. -/
structure Ran where
  command : Command
  hostname : String
  own : Mounts.Table Dir
  net : NetNamespace

/-- The state of the process: its namespaces, its network, its host name, and the commands that
have been started so far. -/
structure InitState where
  ns : Namespaces
  net : NetNamespace
  hostname : String
  ran : List Ran

/-- What `InitContainer` meets outside. -/
structure InitEnv extends RootfsEnv where
  /-- the pieces in which the pipe is read -/
  reads : List Bytes
  sethostname : Option String
  netFails : NetOp → Option String
  /-- a command that cannot be started -/
  starts : Command → Option String
  /-- how a command of the initialization file ends -/
  exits : String → Option String
  lookPath : String → Except String String

/-- The file that the monitor's output goes to, in the container. -/
def bpfServiceOutputLog : String := "/var/log/ebpf-sched-monitor.log"

/-- A program on the mounts. -/
def onNamespaces (x : EStateM String Namespaces Unit) : EStateM String InitState Unit := fun s =>
  match x s.ns with
  | .ok () ns => .ok () { s with ns := ns }
  | .error err ns => .error err { s with ns := ns }

/-- A program on the network. -/
def onNetwork (x : EStateM String NetNamespace Unit) : EStateM String InitState Unit := fun s =>
  match x s.net with
  | .ok () net => .ok () { s with net := net }
  | .error err net => .error err { s with net := net }

namespace InitEnv

variable (env : InitEnv)

/-- `syscall.Sethostname`, in the process's own UTS namespace. -/
def setHostname (name : String) : EStateM String InitState Unit := fun s =>
  match env.sethostname with
  | some err => .error err s
  | none => .ok () { s with hostname := name }

/-- `SetupDNS` -/
def setupDNS : EStateM String Namespaces Unit :=
  wrap "寫入 /etc/resolv.conf 失敗"
    (env.call (.openFile "/etc/resolv.conf") (env.touch true "/etc/resolv.conf"))

/-- A command is started. -/
def start (c : Command) : EStateM String InitState Unit := fun s =>
  match env.starts c with
  | some err => .error err s
  | none => .ok () { s with ran := s.ran ++ [⟨c, s.hostname, s.ns.own, s.net⟩] }

/-- `initCmd.Run` -/
def runInitCommand (commandLine : String) : EStateM String InitState Unit := do
  env.start (.init commandLine)
  match env.exits commandLine with
  | some err => throw err
  | none => pure ()

/-- The loop over the commands of the initialization file: the first one that fails ends the
process. -/
def runInitCommands : List String → EStateM String InitState Unit
  | [] => pure ()
  | commandLine :: rest => do
      wrap ("subprocess: initialization command '" ++ commandLine ++ "' failed")
        (env.runInitCommand commandLine)
      runInitCommands rest

/-- What follows the initialization commands. -/
def execCommand (req : RunRequest) : EStateM String InitState Unit := do
  let cmdPath ← wrap ("子行程: 找不到命令 '" ++ req.containerCommand ++ "'")
    (lift (env.lookPath req.containerCommand))
  wrap "子行程: 開啟 eBPF 監控服務輸出檔失敗"
    (onNamespaces (env.call (.openFile bpfServiceOutputLog) (env.touch true bpfServiceOutputLog)))
  let _ ← attempt (env.start .monitor)
  wrap "子行程: exec 失敗" (env.start (.exec cmdPath (req.containerCommand :: req.containerArgs)))

/-- Host name, root, DNS and network. -/
def setUp (req : RunRequest) : EStateM String InitState Unit := do
  wrap "子行程: 設定主機名稱失敗" (env.setHostname req.containerName)
  wrap "子行程: 設定 rootfs 失敗"
    (onNamespaces (env.setupRootfs req.mountPoint req.imageName req.imageTag))
  wrap "子行程: 設定 DNS 失敗" (onNamespaces env.setupDNS)
  wrap "子行程: 設定容器網路失敗"
    (onNetwork (configureContainerNetwork env.netFails req.vethPeerName req.ipAddress))

/-- `InitContainer`: without a request nothing is set up and nothing runs; with one, what is set
up comes before any command. -/
def initContainer : EStateM String InitState Unit :=
  match readRequest env.reads with
  | none => throw "子行程: 從管道讀取配置失敗"
  | some req => do
      env.setUp req
      env.runInitCommands req.initCommands
      env.execCommand req

/-- The request arrives, in whatever pieces the pipe is read. -/
theorem initContainer_sent {env : InitEnv} {req : RunRequest} {nils : NilSlices}
    (hlimits : IntLimits req.containerLimits)
    (hreads : env.reads.flatten = sentRequest nils req) :
    env.initContainer = (do
      env.setUp req
      env.runInitCommands req.initCommands
      env.execCommand req) := by
  obtain ⟨buf, left, hread⟩ := Json.readValue_flatten (Json.complete_encode ..) hreads
  rw [initContainer, readRequest, hread, Option.bind_some, decode_request hlimits]

/-! ## Where a command runs -/

/-- The name, the mounts and the network of the container. -/
structure Isolated (env : InitEnv) (req : RunRequest) (lo peer : NetLink) (hostname : String)
    (own : Mounts.Table Dir) (net : NetNamespace) : Prop where
  hostname : hostname = req.containerName
  root : ∃ lower, Image.findImageRootfsPath env.manifest req.imageName req.imageTag = .ok lower ∧
    Contained (overlayDir lower req.mountPoint) own
  network : ∃ a, Network.parseNetAddr (NetIP.cidrText req.ipAddress 24) = .ok a ∧
    a.net.contains Network.gateway = true ∧ joined env.netFails lo peer a = net

/-- The commands have run in the container, these and in this order. -/
structure Going (env : InitEnv) (req : RunRequest) (lo peer : NetLink)
    (commands : List Command) (s : InitState) : Prop where
  isolated : Isolated env req lo peer s.hostname s.ns.own s.net
  ran : ∀ r ∈ s.ran, r.hostname = s.hostname ∧ r.own = s.ns.own ∧ r.net = s.net
  commands : s.ran.map Ran.command = commands

/-- A new process: mounts as on the host, and a network of its own. -/
structure Launched (req : RunRequest) (lo peer : NetLink) (s : InitState) : Prop where
  fresh : Fresh s.ns
  net : Network.Entered req.vethPeerName lo peer s.net
  ran : s.ran = []

variable {env} {req : RunRequest} {lo peer : NetLink} {s₀ s t : InitState} {p : Mounts.Path}
  {P Q E : Namespaces → Prop} {R : InitState → Prop}

/-- An operation on the mounts that succeeds changes nothing but them. -/
theorem onNamespaces_eq_ok {x : EStateM String Namespaces Unit} {ns : Namespaces}
    (h : x s.ns = .ok () ns) : onNamespaces x s = .ok () { s with ns := ns } := by
  rw [onNamespaces, h]

theorem onNetwork_eq_ok {x : EStateM String NetNamespace Unit} {net : NetNamespace}
    (h : x s.net = .ok () net) : onNetwork x s = .ok () { s with net := net } := by
  rw [onNetwork, h]

/-- A rule for an operation on the mounts is a rule for the process. -/
theorem spec_onNamespaces {x : EStateM String Namespaces Unit} (hx : Spec P x (fun _ => Q) E)
    (hR : ∀ s ns, R s → R { s with ns := ns }) :
    Spec (fun s => R s ∧ P s.ns) (onNamespaces x) (fun _ s => R s ∧ Q s.ns)
      (fun s => R s ∧ E s.ns) := by
  rintro s ⟨hr, hs⟩
  have hend := hx s.ns hs
  unfold onNamespaces
  cases h : x s.ns with
  | ok u ns =>
      rw [h] at hend
      exact ⟨hR s ns hr, hend⟩
  | error err ns =>
      rw [h] at hend
      exact ⟨hR s ns hr, hend⟩

/-- The root of the container is set up, and the host left alone. -/
structure RootSet (env : InitEnv) (req : RunRequest) (p : Mounts.Path) (ns₀ ns : Namespaces) :
    Prop where
  root : ∃ lower, Image.findImageRootfsPath env.manifest req.imageName req.imageTag = .ok lower ∧
    Contained (overlayDir lower req.mountPoint) ns.own
  host : HostLeft env.toRootfsEnv req.mountPoint p ns₀ ns.host

/-- The root, however `SetupRootfs` ends. -/
theorem spec_setupRootfs (straight : Straight env.toRootfsEnv req.mountPoint p)
    (hmounting : env.mounting = .ok ()) {ns₀ : Namespaces} (hfresh : Fresh ns₀) :
    Spec (· = ns₀) (env.setupRootfs req.mountPoint req.imageName req.imageTag)
      (fun _ ns => RootSet env req p ns₀ ns)
      (fun ns => HostLeft env.toRootfsEnv req.mountPoint p ns₀ ns.host) := by
  rintro ns rfl
  cases hrun : env.setupRootfs req.mountPoint req.imageName req.imageTag ns with
  | ok u t =>
      exact ⟨RootfsEnv.contained_of_setupRootfs straight hmounting hfresh hrun,
        (RootfsEnv.spec_hostLeft straight hfresh).of_ok rfl hrun⟩
  | error err t => exact (RootfsEnv.spec_hostLeft straight hfresh).of_error rfl hrun

/-- Writing a file leaves the mounts alone. -/
theorem spec_writeFile (env : InitEnv) (hP : ∀ ns touched, P ns → P { ns with touched := touched })
    (path : String) :
    Spec P (env.call (.openFile path) (env.touch true path)) (fun _ => P) P :=
  RootfsEnv.spec_call (fun _ hs => hP _ _ hs) fun _ hs _ => hs

/-- What has been written to is no part of what is mounted. -/
theorem RootSet.touched {ns₀ ns : Namespaces} (h : RootSet env req p ns₀ ns) (touched : List Dir) :
    RootSet env req p ns₀ { ns with touched := touched } := ⟨h.root, h.host⟩

/-- Only the host name has been set besides. -/
def Named (req : RunRequest) (s₀ s : InitState) : Prop :=
  s.net = s₀.net ∧ s.hostname = req.containerName ∧ s.ran = []

/-- Nothing has run. -/
structure NothingRan (env : InitEnv) (req : RunRequest) (p : Mounts.Path) (s₀ s : InitState) :
    Prop where
  ran : s.ran = []
  host : HostLeft env.toRootfsEnv req.mountPoint p s₀.ns s.ns.host

section
variable (straight : Straight env.toRootfsEnv req.mountPoint p) (hmounting : env.mounting = .ok ())
  (launched : Launched req lo peer s₀)
include straight hmounting launched

/-- **The setting up.**  If it succeeds, the container is isolated; until then nothing has run. -/
theorem spec_setUp :
    Spec (· = s₀) (env.setUp req)
      (fun _ s => Going env req lo peer [] s ∧
        HostLeft env.toRootfsEnv req.mountPoint p s₀.ns s.ns.host)
      (NothingRan env req p s₀) := by
  have hname : Spec (· = s₀) (env.setHostname req.containerName)
      (fun _ s => Named req s₀ s ∧ s.ns = s₀.ns) (NothingRan env req p s₀) := by
    rintro s rfl
    unfold setHostname
    cases env.sethostname with
    | none => exact ⟨⟨rfl, rfl, launched.ran⟩, rfl⟩
    | some err => exact ⟨launched.ran, .inl rfl⟩
  have hroot : Spec (fun s => Named req s₀ s ∧ s.ns = s₀.ns)
      (onNamespaces (env.setupRootfs req.mountPoint req.imageName req.imageTag))
      (fun _ s => Named req s₀ s ∧ RootSet env req p s₀.ns s.ns) (NothingRan env req p s₀) :=
    (spec_onNamespaces (spec_setupRootfs straight hmounting launched.fresh)
      fun s ns hs => hs).weaken (fun _ hs => hs) (fun _ _ hs => hs)
      fun s hs => ⟨hs.1.2.2, hs.2⟩
  have hdns : Spec (fun s => Named req s₀ s ∧ RootSet env req p s₀.ns s.ns)
      (onNamespaces env.setupDNS)
      (fun _ s => Named req s₀ s ∧ RootSet env req p s₀.ns s.ns) (NothingRan env req p s₀) :=
    (spec_onNamespaces ((spec_writeFile env (fun ns touched hs => hs.touched touched) _).wrap _)
      fun s ns hs => hs).weaken (fun _ hs => hs) (fun _ _ hs => hs)
      fun s hs => ⟨hs.1.2.2, hs.2.host⟩
  have hnet : Spec (fun s => Named req s₀ s ∧ RootSet env req p s₀.ns s.ns)
      (onNetwork (configureContainerNetwork env.netFails req.vethPeerName req.ipAddress))
      (fun _ s => Going env req lo peer [] s ∧
        HostLeft env.toRootfsEnv req.mountPoint p s₀.ns s.ns.host)
      (NothingRan env req p s₀) := by
    rintro s ⟨⟨hsnet, hhostname, hran⟩, hroot⟩
    unfold onNetwork
    cases h : configureContainerNetwork env.netFails req.vethPeerName req.ipAddress s.net with
    | ok u net =>
        rw [hsnet] at h
        obtain ⟨-, -, hjoined⟩ := (Network.configureContainerNetwork_iff launched.net).mp h
        refine ⟨⟨⟨hhostname, hroot.root, hjoined⟩, fun r hr => ?_, ?_⟩, hroot.host⟩
        · exact absurd (hran ▸ hr) List.not_mem_nil
        · exact congrArg (List.map Ran.command) hran
    | error err net => exact ⟨hran, hroot.host⟩
  unfold setUp
  exact (hname.wrap _).bind fun _ => (hroot.wrap _).bind fun _ => (hdns.wrap _).bind fun _ =>
    hnet.wrap _

end

/-! ## The commands -/

/-- What is kept while commands run. -/
structure Running (env : InitEnv) (req : RunRequest) (lo peer : NetLink) (p : Mounts.Path)
    (ns₀ : Namespaces) (commands : List Command) (s : InitState) : Prop
    extends Going env req lo peer commands s where
  host : HostLeft env.toRootfsEnv req.mountPoint p ns₀ s.ns.host

variable {ns₀ : Namespaces} {commands : List Command}

/-- A command is started where the container is. -/
theorem spec_start (c : Command) :
    Spec (Running env req lo peer p ns₀ commands) (env.start c)
      (fun _ s => env.starts c = none ∧ Running env req lo peer p ns₀ (commands ++ [c]) s)
      (fun s => env.starts c ≠ none ∧ Running env req lo peer p ns₀ commands s) := by
  intro s hs
  unfold start
  cases hc : env.starts c with
  | some err => exact ⟨by simp, hs⟩
  | none =>
      refine ⟨rfl, ⟨hs.isolated, fun r hr => ?_, ?_⟩, hs.host⟩
      · rcases List.mem_append.mp hr with hr | hr
        · exact hs.ran r hr
        · obtain rfl := List.mem_singleton.mp hr
          exact ⟨rfl, rfl, rfl⟩
      · rw [List.map_append, hs.commands]
        rfl

/-- However it ends, the commands that have run are the first ones of the list. -/
def Begun (env : InitEnv) (req : RunRequest) (lo peer : NetLink) (p : Mounts.Path)
    (ns₀ : Namespaces) (commands : List Command) (s : InitState) : Prop :=
  ∃ part, part <+: commands ∧ Running env req lo peer p ns₀ part s

/-- Fewer commands than planned is a beginning of more. -/
theorem Begun.mono {later : List Command} (h : Begun env req lo peer p ns₀ commands s)
    (hpre : commands <+: later) : Begun env req lo peer p ns₀ later s :=
  let ⟨part, hpart, hs⟩ := h
  ⟨part, hpart.trans hpre, hs⟩

/-- The loop over the initialization commands. -/
theorem spec_runInitCommands (lines : List String) :
    Spec (Running env req lo peer p ns₀ commands) (env.runInitCommands lines)
      (fun _ => Running env req lo peer p ns₀ (commands ++ lines.map .init))
      (Begun env req lo peer p ns₀ (commands ++ lines.map .init)) := by
  induction lines generalizing commands with
  | nil =>
      refine Spec.pure fun s hs => ?_
      rwa [List.map_nil, List.append_nil]
  | cons line rest ih =>
      have hnext : commands ++ [.init line] ++ rest.map .init =
          commands ++ (line :: rest).map .init := by simp
      have hfirst : Spec (Running env req lo peer p ns₀ commands) (env.runInitCommand line)
          (fun _ => Running env req lo peer p ns₀ (commands ++ [.init line]))
          (Begun env req lo peer p ns₀ (commands ++ (line :: rest).map .init)) := by
        unfold runInitCommand
        refine ((spec_start (.init line)).weaken (fun _ hs => hs) (fun _ _ hs => hs)
          fun s hs => ⟨commands, List.prefix_append _ _, hs.2⟩).bind fun _ => ?_
        cases env.exits line with
        | none => exact Spec.pure fun s hs => hs.2
        | some err =>
            exact fun s hs => ⟨_, ⟨rest.map .init, hnext⟩, hs.2⟩
      refine (hfirst.wrap _).bind fun _ => ?_
      rw [← hnext]
      exact ih

/-- What runs before the command of the container. -/
def beforeExec (env : InitEnv) (req : RunRequest) : List Command :=
  req.initCommands.map .init ++ if env.starts .monitor = none then [.monitor] else []

/-- The last part runs the monitor and the command, after those of the file, and with the path
that the search has found. -/
theorem spec_execCommand :
    Spec (Running env req lo peer p ns₀ (req.initCommands.map .init)) (env.execCommand req)
      (fun _ s => ∃ path, env.lookPath req.containerCommand = .ok path ∧
        Running env req lo peer p ns₀
          (beforeExec env req ++ [.exec path (req.containerCommand :: req.containerArgs)]) s)
      (Begun env req lo peer p ns₀ (beforeExec env req)) := by
  have hbegun : ∀ s, Running env req lo peer p ns₀ (req.initCommands.map .init) s →
      Begun env req lo peer p ns₀ (beforeExec env req) s :=
    fun s hs => ⟨_, List.prefix_append _ _, hs⟩
  have hlog : Spec (Running env req lo peer p ns₀ (req.initCommands.map .init))
      (onNamespaces (env.call (.openFile bpfServiceOutputLog) (env.touch true bpfServiceOutputLog)))
      (fun _ => Running env req lo peer p ns₀ (req.initCommands.map .init))
      (Begun env req lo peer p ns₀ (beforeExec env req)) := by
    intro s hs
    unfold onNamespaces RootfsEnv.call
    cases env.fails (.openFile bpfServiceOutputLog) with
    | some err => exact hbegun s hs
    | none => exact ⟨⟨hs.isolated, hs.ran, hs.commands⟩, hs.host⟩
  -- an error of the monitor is only logged
  have hmonitor : Spec (Running env req lo peer p ns₀ (req.initCommands.map .init))
      (attempt (env.start .monitor)) (fun _ => Running env req lo peer p ns₀ (beforeExec env req))
      (Begun env req lo peer p ns₀ (beforeExec env req)) := by
    refine Spec.attempt ((spec_start .monitor).weaken (fun _ hs => hs) (fun _ s hs => ?_)
      fun s hs => ?_)
    · rw [beforeExec, if_pos hs.1]
      exact hs.2
    · rw [beforeExec, if_neg hs.1, List.append_nil]
      exact hs.2
  unfold execCommand
  refine ((Spec.lift (Q := fun path s => env.lookPath req.containerCommand = .ok path ∧
    Running env req lo peer p ns₀ (req.initCommands.map .init) s) (fun path s h hs => ⟨h, hs⟩)
    fun _ s _ hs => hbegun s hs).wrap _).bind fun path => ?_
  by_cases hpath : env.lookPath req.containerCommand = .ok path
  case neg => exact fun s hs => absurd hs.1 hpath
  refine Spec.weaken (P := Running env req lo peer p ns₀ (req.initCommands.map .init)) ?_
    (fun s hs => hs.2) (fun _ _ hs => hs) fun _ hs => hs
  refine (hlog.wrap _).bind fun _ => hmonitor.bind fun _ => Spec.wrap ?_ _
  exact (spec_start _).weaken (fun _ hs => hs) (fun _ s hs => ⟨path, hpath, hs.2⟩)
    fun s hs => ⟨_, List.prefix_rfl, hs.2⟩

theorem Going.isolated_of_mem (h : Going env req lo peer commands s) {r : Ran} (hr : r ∈ s.ran) :
    Isolated env req lo peer r.hostname r.own r.net := by
  obtain ⟨hname, hown, hnet⟩ := h.ran r hr
  rw [hname, hown, hnet]
  exact h.isolated

/-- What can be said of a process that has come to its end or become another program. -/
structure Ended (env : InitEnv) (req : RunRequest) (lo peer : NetLink) (p : Mounts.Path)
    (ns₀ : Namespaces) (s : InitState) : Prop where
  /-- no command has run outside of the container -/
  isolated : ∀ r ∈ s.ran, Isolated env req lo peer r.hostname r.own r.net
  host : HostLeft env.toRootfsEnv req.mountPoint p ns₀ s.ns.host

/-- A process that is still going satisfies what is said of one that has ended. -/
theorem Running.ended (h : Running env req lo peer p ns₀ commands s) :
    Ended env req lo peer p ns₀ s :=
  ⟨fun _ hr => h.toGoing.isolated_of_mem hr, h.host⟩

/-- What `InitContainer` meets outside is in order. -/
structure Ready (env : InitEnv) (req : RunRequest) (peer : NetLink) : Prop where
  sethostname : env.sethostname = none
  rootfs : RootfsEnv.InOrder env.toRootfsEnv req.imageName req.imageTag
  net : Network.NetInOrder env.netFails req.vethPeerName peer
  ipAddress : req.ipAddress ≠ ""
  reaches : ∃ a, Network.parseNetAddr (NetIP.cidrText req.ipAddress 24) = .ok a ∧
    a.net.contains Network.gateway = true
  starts : ∀ c, env.starts c = none
  exits : ∀ line, env.exits line = none
  lookPath : ∃ path, env.lookPath req.containerCommand = .ok path

theorem start_ready (hstarts : ∀ c, env.starts c = none) (c : Command) (s : InitState) :
    ∃ t, env.start c s = .ok () t := by
  unfold start
  rw [hstarts c]
  exact ⟨_, rfl⟩

/-- Where they also exit without an error, all of them run. -/
theorem runInitCommands_ready (hstarts : ∀ c, env.starts c = none)
    (hexits : ∀ line, env.exits line = none) (lines : List String) (s : InitState) :
    ∃ t, env.runInitCommands lines s = .ok () t := by
  induction lines generalizing s with
  | nil => exact ⟨s, rfl⟩
  | cons line rest ih =>
      obtain ⟨u, hu⟩ := start_ready hstarts (.init line) s
      obtain ⟨t, ht⟩ := ih u
      have hline : env.runInitCommand line s = .ok () u := by
        rw [runInitCommand, bind_of_ok hu, hexits line]
        rfl
      refine ⟨t, ?_⟩
      rw [runInitCommands, bind_of_ok (wrap_eq_ok.mpr hline), ht]

theorem execCommand_ready (ready : Ready env req peer) (s : InitState) :
    ∃ t, env.execCommand req s = .ok () t := by
  obtain ⟨path, hpath⟩ := ready.lookPath
  have hlog : onNamespaces (env.call (.openFile bpfServiceOutputLog)
      (env.touch true bpfServiceOutputLog)) s =
        .ok () { s with ns := env.touch true bpfServiceOutputLog s.ns } := by
    apply onNamespaces_eq_ok
    rw [RootfsEnv.call, ready.rootfs.fails]
  obtain ⟨u, hu⟩ := start_ready ready.starts .monitor
    { s with ns := env.touch true bpfServiceOutputLog s.ns }
  obtain ⟨t, ht⟩ := start_ready ready.starts
    (.exec path (req.containerCommand :: req.containerArgs)) u
  have hmonitor : attempt (env.start .monitor)
      { s with ns := env.touch true bpfServiceOutputLog s.ns } = .ok (.ok ()) u := by
    rw [attempt_apply, hu]
  refine ⟨t, ?_⟩
  rw [execCommand, bind_of_ok (wrap_eq_ok.mpr (lift_eq_ok.mpr ⟨hpath, rfl⟩)),
    bind_of_ok (wrap_eq_ok.mpr hlog), bind_of_ok hmonitor]
  exact wrap_eq_ok.mpr ht

/-- Where no operation fails, everything is set up. -/
theorem setUp_ready (straight : Straight env.toRootfsEnv req.mountPoint p)
    (launched : Launched req lo peer s₀) (ready : Ready env req peer) :
    ∃ t, env.setUp req s₀ = .ok () t := by
  obtain ⟨a, haddr, hcontains⟩ := ready.reaches
  obtain ⟨ns, hns⟩ := RootfsEnv.setupRootfs_inOrder straight launched.fresh ready.rootfs
  have hnet := (Network.configureContainerNetwork_iff launched.net).mpr
    ⟨ready.net, ready.ipAddress, a, haddr, hcontains, rfl⟩
  have hdns : env.setupDNS ns = .ok () (env.touch true "/etc/resolv.conf" ns) := by
    rw [setupDNS, wrap_eq_ok, RootfsEnv.call, ready.rootfs.fails]
  have hname : env.setHostname req.containerName s₀ =
      .ok () { s₀ with hostname := req.containerName } := by
    rw [setHostname, ready.sethostname]
  have hroot : onNamespaces (env.setupRootfs req.mountPoint req.imageName req.imageTag)
      { s₀ with hostname := req.containerName } =
        .ok () { s₀ with hostname := req.containerName, ns := ns } := onNamespaces_eq_ok hns
  have hfile : onNamespaces env.setupDNS { s₀ with hostname := req.containerName, ns := ns } =
      .ok ()
        { s₀ with hostname := req.containerName, ns := env.touch true "/etc/resolv.conf" ns } :=
    onNamespaces_eq_ok hdns
  rw [setUp, bind_of_ok (wrap_eq_ok.mpr hname), bind_of_ok (wrap_eq_ok.mpr hroot),
    bind_of_ok (wrap_eq_ok.mpr hfile)]
  exact ⟨_, wrap_eq_ok.mpr (onNetwork_eq_ok hnet)⟩

/-- In order, the process becomes the command. -/
theorem initContainer_ready {nils : NilSlices}
    (straight : Straight env.toRootfsEnv req.mountPoint p)
    (launched : Launched req lo peer s₀) (ready : Ready env req peer)
    (hlimits : IntLimits req.containerLimits) (hreads : env.reads.flatten = sentRequest nils req) :
    ∃ t, env.initContainer s₀ = .ok () t := by
  obtain ⟨s, hs⟩ := setUp_ready straight launched ready
  obtain ⟨u, hu⟩ := runInitCommands_ready ready.starts ready.exits req.initCommands s
  obtain ⟨t, ht⟩ := execCommand_ready ready u
  refine ⟨t, ?_⟩
  rw [initContainer_sent hlimits hreads]
  exact (bind_of_ok hs).trans ((bind_of_ok hu).trans ht)

/-- A container with one initialization command. -/
def plainRequest : RunRequest where
  imageName := "alpine"
  imageTag := "3.20"
  containerName := "web"
  containerCommand := "sh"
  containerID := "a"
  containerArgs := ["-l"]
  mountPoint := mountPointOf "a"
  vethPeerName := "peer-7"
  initCommands := ["apk add curl"]
  requestedIP := ""
  ipAddress := "10.20.0.2"
  containerLimits := { memoryLimit := -1, pidsLimit := -1, cpuLimit := -1 }

/-- A container in which nothing fails, with the request of `plainRequest` on its pipe. -/
def plainInit : InitEnv where
  toRootfsEnv := RootfsEnv.plainEnv
  reads := [sentRequest ⟨false, false⟩ plainRequest]
  sethostname := none
  netFails := fun _ => none
  starts := fun _ => none
  exits := fun _ => none
  lookPath := fun _ => .ok "/bin/sh"

/-- The process as it has been launched. -/
def plainState : InitState where
  ns := RootfsEnv.plainNamespaces
  net := Network.entered
  hostname := "host"
  ran := []

/-- It has the interfaces that the launcher has given it. -/
theorem plainState_launched :
    Launched plainRequest ⟨1, "lo", false, []⟩ ⟨2, "peer-7", false, []⟩ plainState where
  fresh := RootfsEnv.plainNamespaces_fresh
  net := Network.entered_entered
  ran := rfl

theorem plainInit_ready : Ready plainInit plainRequest ⟨2, "peer-7", false, []⟩ where
  sethostname := rfl
  rootfs := RootfsEnv.plainEnv_inOrder
  net := ⟨rfl, rfl, rfl, rfl, rfl, rfl⟩
  ipAddress := by decide
  reaches := by
    have halloc : (∃ m', Network.allocateContainerIP ∅ "a" "" = .save m' "10.20.0.2") ∨
        Network.allocateContainerIP ∅ "a" "" = .done "10.20.0.2" := .inl ⟨_, rfl⟩
    obtain ⟨ip, hip, htext⟩ := Network.allocate_hostAddress Network.Valid.empty halloc
    show ∃ a, Network.parseNetAddr (NetIP.cidrText "10.20.0.2" 24) = _ ∧ _
    rw [htext]
    exact ⟨_, Network.parseNetAddr_hostAddress hip⟩
  starts _ := rfl
  exits _ := rfl
  lookPath := ⟨_, rfl⟩

theorem plainRequest_limits : IntLimits plainRequest.containerLimits := ⟨rfl, rfl, rfl⟩

/-- **Half a request is none**: nothing has happened then. -/
theorem initContainer_cut {nils : NilSlices} {rest : Bytes} (hrest : rest ≠ [])
    (hreads : env.reads.flatten ++ rest =
      Json.encode .compact (.obj (Json.ofList (runRequestMembers nils req)))) :
    final (env.initContainer s₀) = s₀ := by
  rw [initContainer, readRequest_cut hrest hreads]
  rfl

end InitEnv

end Gocker.Container
