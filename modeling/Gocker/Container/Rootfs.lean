import Gocker.Container.Host
import Gocker.Container.Mounts
import Gocker.Image.Manifest
import Gocker.Lib.Fallible
import Gocker.Lib.GoPath
import Gocker.Lib.MountTable

/-!
# The root of a container (`internal/container/rootfs.go`)

`SetupRootfs` runs in the mount namespace of the new process, which begins as a copy of the one
of the host.  It mounts the overlay, copies the monitor into it, makes it the root (`PivotRoot`)
and mounts `/proc`, `/sys` and what is under `/dev`.

`RootfsEnv` is what the code meets outside: the manifest, which operations fail, and where a path
leads through symbolic links.  `Namespaces` holds the mounts on both sides; while they are
shared, as they are on most hosts, a mount on the one side appears on the other.

### Links

The paths that `SetupRootfs` uses lie in the image, and an image may have symbolic links
anywhere.  `RootfsEnv.links` says where a path leads with the mounts of the moment.  The results
assume that the paths in use lead where they say (`RootfsEnv.Straight`): with a link in the
image the copying of the monitor writes wherever the link points, on the host too, since it
comes before the change of the root.

### How the proofs go

An operation is a step of a state monad with errors, and `Spec` (`Lib/Fallible.lean`) has one
postcondition for success and one for failure.  Each operation has its rule; the rule of a
sequence is put together from those of its parts, in the order of the source, and the failure
condition is the same all the way: the host has what it had, or one mount more.
-/

namespace Gocker.Container

open Fallible Mounts
open Image (ManifestFile ManifestError findImageRootfsPath)

/-! ## Files and mounts -/

/-- A directory or a file of a file system. -/
structure Dir where
  fstype : String
  source : String
  options : String
  path : Path
deriving DecidableEq, Repr

/-- What is below. -/
def Dir.at (p : Path) (d : Dir) : Dir := { d with path := d.path ++ p }

/-- The file system as a whole. -/
def Dir.root (fstype source options : String) : Dir := ⟨fstype, source, options, []⟩

/-- The mounts that the process sees and those of the host, and whether a mount on the one side
appears on the other. -/
structure Namespaces where
  /-- the mounts that the process sees -/
  own : Table Dir
  host : Table Dir
  shared : Bool
  /-- the files and directories that have been made, written or removed -/
  touched : List Dir
deriving Repr

/-- A change of the process's mounts, which the host sees while they are shared. -/
def Namespaces.change (f : Table Dir → Table Dir) (s : Namespaces) : Namespaces :=
  { s with own := f s.own, host := if s.shared then f s.host else s.host }

/-- Where a place lies. -/
def dirOf (t : Table Dir) (x : Place) : Option Dir := (t.what x.mount).map (Dir.at x.path)

/-- The operations of the system, by what tells them apart where one of them fails. -/
inductive Op where
  | mkdirAll (path : String)
  | openFile (path : String)
  | copy
  | makePrivate
  | bind
  | pivotRoot
  | chdir
  | unmount
  | remove (path : String)
  | mount (target : String)
  | symlink (path : String)
  | mknod (path : String)
  | chmod (path : String)
deriving DecidableEq, Repr

/-- What the code meets outside. -/
structure RootfsEnv where
  manifest : ManifestFile
  /-- `pkg.GetSelfExecutablePath` -/
  executable : Except String String
  pwd : String
  /-- what mounting the overlay returns -/
  mounting : Except MountError Unit
  procMounts : Option Fields.Text
  fails : Op → Option String
  /-- where a path leads, and whether the last link is followed -/
  links : Table Dir → Bool → String → Path

/-! ## Paths -/

/-- `filepath.Join` -/
def filepathJoin (parts : List String) : String :=
  String.ofList (GoPath.join (parts.map String.toList))

/-- `filepath.Dir` -/
def filepathDir (path : String) : String := String.ofList (GoPath.dir path.toList)

/-! ## Operations -/

namespace RootfsEnv

variable (env : RootfsEnv)

/-- Where a path leads, with the links that the environment has. -/
def find (follow : Bool) (path : String) (t : Table Dir) : Place := t.find (env.links t follow path)

/-- An operation that fails changes nothing. -/
def call (op : Op) (effect : Namespaces → Namespaces) : EStateM String Namespaces Unit := fun s =>
  match env.fails op with
  | some err => .error err s
  | none => .ok () (effect s)

/-- A file has been made, written or removed. -/
def touch (follow : Bool) (path : String) (s : Namespaces) : Namespaces :=
  { s with touched := (dirOf s.own (env.find follow path s.own)).toList ++ s.touched }

/-- `os.MkdirAll` -/
def mkdirAll (path : String) : EStateM String Namespaces Unit :=
  env.call (.mkdirAll path) (env.touch true path)

/-- `syscall.Mount` of a file system -/
def mount (source target fstype data : String) : EStateM String Namespaces Unit :=
  env.call (.mount target)
    (Namespaces.change fun t => t.attach (env.find true target t) (.root fstype source data))

/-- The mount with the flags `MS_PRIVATE` and `MS_REC` -/
def makePrivate : EStateM String Namespaces Unit :=
  env.call .makePrivate fun s => { s with shared := false }

/-- The mount with the flags `MS_BIND` and `MS_REC` -/
def bindMount (newRoot : String) : EStateM String Namespaces Unit :=
  env.call .bind
    (Namespaces.change fun t => t.bind Dir.at (env.find true newRoot t) (env.find true newRoot t))

/-- The kernel refuses a new root that is not a mount, and shared mounts. -/
def pivot (newRoot putOld : String) : EStateM String Namespaces Unit := fun s =>
  match env.fails .pivotRoot with
  | some err => .error err s
  | none =>
      if s.shared then .error "invalid argument" s
      else
        match s.own.pivotRoot (env.find true newRoot s.own) (env.find true putOld s.own) with
        | none => .error "invalid argument" s
        | some own => .ok () { s with own := own }

/-- `syscall.Unmount` with `MNT_DETACH` -/
def unmount (target : String) : EStateM String Namespaces Unit := fun s =>
  match env.fails .unmount with
  | some err => .error err s
  | none =>
      match s.own.umountDetach (env.find true target s.own) with
      | none => .error "invalid argument" s
      | some own => .ok () { s with own := own }

/-- An error that the code drops, or only logs. -/
def ignore (x : EStateM String Namespaces Unit) : EStateM String Namespaces Unit := do
  let _ ← attempt x

/-! ## `PivotRoot` -/

/-- `PivotRoot`: the mounts are made private, the new root becomes a mount, the two change
places, and the old root is unmounted. -/
def pivotRoot (newRoot : String) : EStateM String Namespaces Unit := do
  wrap "將根掛載設為 private 失敗" env.makePrivate
  wrap "綁定掛載 newRoot 失敗" (env.bindMount newRoot)
  let putold := filepathJoin [newRoot, ".old_root"]
  wrap "建立 .old_root 失敗" (env.mkdirAll putold)
  wrap "pivot_root 失敗" (env.pivot newRoot putold)
  wrap "chdir 到 / 失敗" (env.call .chdir id)
  wrap "卸載 .old_root 失敗" (env.unmount "/.old_root")
  ignore (env.call (.remove "/.old_root") (env.touch false "/.old_root"))

/-! ## `SetupRootfs` -/

/-- The texts of the errors of `findImageRootfsPath`. -/
def manifestText : ManifestError → String
  | .read cause => "讀取映像 manifest " ++ Config.imagesDir ++ "/manifest.json 失敗: " ++ cause
  | .parse => "解析 manifest.json 失敗"
  | .notFound searchName => "在 manifest 中找不到映像 '" ++ searchName ++ "'"

/-- The monitor's program, beside that of `gocker`. -/
def bpfServiceExeHost : String := "ebpf-sched-monitor"
/-- And where it is in a container. -/
def bpfServiceExeContainer : String := "/usr/bin/ebpf-sched-monitor"

/-- The options of the overlay. -/
def overlayOptions (imageRootfsPath mountPoint : String) : String :=
  "lowerdir=" ++ imageRootfsPath ++
    ",upperdir=" ++ filepathJoin [filepathDir mountPoint, "upper"] ++
    ",workdir=" ++ filepathJoin [filepathDir mountPoint, "work"]

/-- The root of an overlay over the image, with the container's own directories in its options. -/
def overlayDir (imageRootfsPath mountPoint : String) : Dir :=
  .root "overlay" "overlay" (overlayOptions imageRootfsPath mountPoint)

/-- The overlay is mounted, or there is one already. -/
def mountOverlay (imageRootfsPath mountPoint : String) : EStateM String Namespaces Unit := fun s =>
  let s' := match env.mounting with
    | .ok () => s.change fun t =>
        t.attach (env.find true mountPoint t) (overlayDir imageRootfsPath mountPoint)
    | .error _ => s
  match Container.mountOverlay (Fields.ofString mountPoint) env.mounting env.procMounts with
  | .ok () => .ok () s'
  | .error err => .error err s'

/-- The copying of the monitor into the new root, before it is one. -/
def copyMonitor (mountPoint : String) : EStateM String Namespaces Unit := do
  let dstPath := filepathJoin [mountPoint, bpfServiceExeContainer]
  let exe := match env.executable with
    | .ok exe => exe
    | .error _ => env.pwd
  let srcPath := filepathJoin [filepathDir exe, bpfServiceExeHost]
  ignore (env.mkdirAll (filepathDir dstPath))
  wrap "無法開啟 eBPF 監控服務檔案" (env.call (.openFile srcPath) id)
  wrap "無法建立容器內的 eBPF 監控服務檔案" (env.call (.openFile dstPath) (env.touch true dstPath))
  wrap "無法複製 eBPF 監控服務檔案" (env.call .copy id)

/-- `syscall.Mknod` -/
def makeNode (path : String) : EStateM String Namespaces Unit :=
  env.call (.mknod path) (env.touch false path)

/-- `os.Chmod`, which follows links. -/
def chmod (path : String) : EStateM String Namespaces Unit :=
  env.call (.chmod path) (env.touch true path)

/-- `/dev`, `/tmp` and `/run`, whose errors are all dropped. -/
def devices : List (EStateM String Namespaces Unit) :=
  [ env.mkdirAll "/dev",
    env.mount "tmpfs" "/dev" "tmpfs" "mode=0755",
    env.mkdirAll "/dev/pts",
    env.mkdirAll "/dev/shm",
    env.mkdirAll "/tmp",
    env.mkdirAll "/run",
    env.mount "devpts" "/dev/pts" "devpts" "newinstance,ptmxmode=0666,mode=0620,gid=5",
    env.call (.remove "/dev/ptmx") (env.touch false "/dev/ptmx"),
    env.call (.symlink "/dev/ptmx") (env.touch false "/dev/ptmx"),
    env.mount "tmpfs" "/tmp" "tmpfs" "mode=1777",
    env.mount "tmpfs" "/run" "tmpfs" "mode=0755",
    env.mount "tmpfs" "/dev/shm" "tmpfs" "mode=1777",
    env.makeNode "/dev/null",
    env.makeNode "/dev/zero",
    env.makeNode "/dev/full",
    env.makeNode "/dev/random",
    env.makeNode "/dev/urandom",
    env.makeNode "/dev/tty",
    env.chmod "/tmp",
    env.chmod "/dev/shm" ]

/-- Operations whose errors are not looked at, or only logged. -/
def ignoreAll : List (EStateM String Namespaces Unit) → EStateM String Namespaces Unit
  | [] => pure ()
  | x :: xs => do
      ignore x
      ignoreAll xs

/-- `SetupRootfs`, in the order of the source. -/
def setupRootfs (mountPoint imageName imageTag : String) : EStateM String Namespaces Unit := do
  let imageRootfsPath ← wrap ("找不到基礎映像 '" ++ imageText imageName imageTag ++ "'")
    (lift ((findImageRootfsPath env.manifest imageName imageTag).mapError manifestText))
  let containerBasePath := filepathDir mountPoint
  env.mkdirAll mountPoint
  env.mkdirAll (filepathJoin [containerBasePath, "upper"])
  env.mkdirAll (filepathJoin [containerBasePath, "work"])
  env.mountOverlay imageRootfsPath mountPoint
  env.copyMonitor mountPoint
  wrap "pivot_root 執行失敗" (env.pivotRoot mountPoint)
  wrap "掛載 /proc 失敗" (env.mount "proc" "/proc" "proc" "")
  wrap "掛載 /sys 失敗" (env.mount "sysfs" "/sys" "sysfs" "")
  ignoreAll env.devices

/-! ## What each operation does -/

/-- The mounts on both sides, and which files may have been touched. -/
structure At (A : Dir → Prop) (own host : Table Dir) (shared : Bool) (s : Namespaces) : Prop where
  own : s.own = own
  host : s.host = host
  shared : s.shared = shared
  touched : ∀ d ∈ s.touched, A d

variable {env} {A : Dir → Prop} {own host : Table Dir} {shared : Bool} {P Q E : Namespaces → Prop}
  {op : Op} {path : String} {follow : Bool}

/-- What the code meets outside is in order. -/
structure InOrder (env : RootfsEnv) (imageName imageTag : String) : Prop where
  fails : ∀ op, env.fails op = none
  mounting : env.mounting = .ok ()
  image : ∃ path, findImageRootfsPath env.manifest imageName imageTag = .ok path

/-- Where a file is that is touched. -/
def Touches (env : RootfsEnv) (A : Dir → Prop) (t : Table Dir) (follow : Bool) (path : String) :
    Prop :=
  ∀ d, dirOf t (env.find follow path t) = some d → A d

/-- The rule for one operation: it has its effect, or it fails and changes nothing. -/
theorem spec_call {effect : Namespaces → Namespaces} (hok : ∀ s, P s → Q (effect s))
    (herror : ∀ s, P s → env.fails op ≠ none → E s) :
    Spec P (env.call op effect) (fun _ => Q) E := by
  intro s hs
  unfold call
  cases hop : env.fails op with
  | none => exact hok s hs
  | some err => exact herror s hs (by simp [hop])

/-- What is touched must be among what may be touched. -/
theorem At.touch {s : Namespaces} (h : At A own host shared s)
    (hA : Touches env A own follow path) : At A own host shared (env.touch follow path s) := by
  refine ⟨h.own, h.host, h.shared, fun d hd => ?_⟩
  rcases List.mem_append.mp hd with hd | hd
  · rw [h.own] at hd
    exact hA d (Option.mem_toList.mp hd)
  · exact h.touched d hd

/-- A change of the mounts, on both sides where they are shared. -/
theorem At.change {s : Namespaces} (h : At A own host shared s) (f : Table Dir → Table Dir) :
    At A (f own) (if shared then f host else host) shared (s.change f) := by
  obtain ⟨rfl, rfl, rfl, htouched⟩ := h
  exact ⟨rfl, rfl, rfl, htouched⟩

/-- Operations on files leave the mounts alone. -/
theorem spec_touch (hA : Touches env A own follow path)
    (herror : ∀ s, At A own host shared s → env.fails op ≠ none → E s) :
    Spec (At A own host shared) (env.call op (env.touch follow path))
      (fun _ => At A own host shared) E :=
  spec_call (fun _ hs => hs.touch hA) herror

/-- The rule for an operation without an effect on what is modelled. -/
theorem spec_id (herror : ∀ s, At A own host shared s → env.fails op ≠ none → E s) :
    Spec (At A own host shared) (env.call op id) (fun _ => At A own host shared) E :=
  spec_call (fun _ hs => hs) herror

/-- An operation whose error is ignored keeps what it keeps either way. -/
theorem spec_ignore {x : EStateM String Namespaces Unit} (hx : Spec P x (fun _ => P) P) :
    Spec P (ignore x) (fun _ => P) E :=
  Spec.bind (Spec.attempt hx) fun _ => Spec.pure fun _ hs => hs

/-! ## Changing the root -/

/-- The way to the mount point is `p`, and neither the directory for the old root nor the monitor
leads out of it. -/
structure Straight (env : RootfsEnv) (mountPoint : String) (p : Path) : Prop where
  nonempty : p ≠ []
  target : ∀ t, env.links t true mountPoint = p
  putOld : ∀ t, env.links t true (filepathJoin [mountPoint, ".old_root"]) = p ++ [".old_root"]
  oldRoot : ∀ t, env.links t true "/.old_root" = [".old_root"]
  monitor : ∀ t, p <+: env.links t true (filepathJoin [mountPoint, bpfServiceExeContainer])
  monitorDir : ∀ t,
    p <+: env.links t true (filepathDir (filepathJoin [mountPoint, bpfServiceExeContainer]))

variable {mountPoint newRoot : String} {p : Path}

/-- **`PivotRoot`** leaves a copy of the new root with the mounts in it, and of the old root
nothing. -/
theorem pivotRoot_spec (straight : Straight env newRoot p) (ht : own.Sound)
    (hA : ∀ l m, (l, m) ∈ own.copyOf Dir.at (own.find p) → ∀ q, A (m.at q))
    (herror : ∀ s op, s.host = host → (∀ d ∈ s.touched, A d) → env.fails op ≠ none → E s) :
    Spec (At A own host shared) (env.pivotRoot newRoot)
      (fun _ s => ∃ own', At A own' host false s ∧
        ∀ l m, (l, m) ∈ own' ↔ (l, m) ∈ own.copyOf Dir.at (own.find p)) E := by
  obtain ⟨final, hswitch, hfinal⟩ := mem_switchRoot ht straight.nonempty Dir.at ".old_root"
  obtain ⟨pivoted, hpivot, humount⟩ := Option.bind_eq_some_iff.mp hswitch
  set bound := own.bind Dir.at (own.find p) (own.find p) with hbound
  have hfail : ∀ {own shared op} s, At A own host shared s → env.fails op ≠ none → E s :=
    fun s hs hop => herror s _ hs.host hs.touched hop
  have hputOld : Touches env A bound true (filepathJoin [newRoot, ".old_root"]) := by
    intro d hd
    obtain ⟨m, hm, rfl⟩ := Option.map_eq_some_iff.mp hd
    rw [RootfsEnv.find, straight.putOld, find_concat, find_bind ht straight.nonempty] at hm
    obtain ⟨l, hl⟩ := prefix_top bound (own.find p).over [".old_root"]
    rw [List.nil_append, ← hl] at hm
    exact hA l m ((mem_bind_over ht straight.nonempty).mp (mem_of_what hm)) _
  have hprivate : Spec (At A own host shared) env.makePrivate
      (fun _ => At A own host false) E :=
    spec_call (fun s hs => ⟨hs.own, hs.host, rfl, hs.touched⟩) hfail
  have hbind : Spec (At A own host false) (env.bindMount newRoot)
      (fun _ => At A bound host false) E := by
    refine spec_call (fun s hs => ?_) hfail
    have hchange := hs.change fun t =>
      t.bind Dir.at (env.find true newRoot t) (env.find true newRoot t)
    rwa [RootfsEnv.find, straight.target, if_neg Bool.false_ne_true] at hchange
  have hpivots : Spec (At A bound host false)
      (env.pivot newRoot (filepathJoin [newRoot, ".old_root"]))
      (fun _ => At A pivoted host false) E := by
    intro s hs
    unfold pivot
    cases hop : env.fails .pivotRoot with
    | some err =>
        have hne : env.fails .pivotRoot ≠ none := by simp [hop]
        exact hfail s hs hne
    | none =>
        simp only [hs.shared, hs.own, RootfsEnv.find, straight.target, straight.putOld, hpivot,
          Bool.false_eq_true, if_false]
        exact ⟨rfl, hs.host, rfl, hs.touched⟩
  have hunmount : Spec (At A pivoted host false) (env.unmount "/.old_root")
      (fun _ => At A final host false) E := by
    intro s hs
    unfold unmount
    cases hop : env.fails .unmount with
    | some err =>
        have hne : env.fails .unmount ≠ none := by simp [hop]
        exact hfail s hs hne
    | none =>
        simp only [hs.own, RootfsEnv.find, straight.oldRoot, humount]
        exact ⟨rfl, hs.host, hs.shared, hs.touched⟩
  have hremove : Touches env A final false "/.old_root" := by
    intro d hd
    obtain ⟨m, hm, rfl⟩ := Option.map_eq_some_iff.mp hd
    exact hA _ m ((hfinal _ m).mp (mem_of_what hm)) _
  unfold pivotRoot
  refine (hprivate.wrap _).bind fun _ => (hbind.wrap _).bind fun _ =>
    ((spec_touch hputOld hfail).wrap _).bind fun _ => (hpivots.wrap _).bind fun _ =>
    ((spec_id hfail).wrap _).bind fun _ => (hunmount.wrap _).bind fun _ => ?_
  refine (spec_ignore (spec_touch hremove fun s hs _ => hs)).weaken (fun _ hs => hs)
    (fun _ s hs => ⟨final, hs, hfinal⟩) fun _ hs => hs

/-! ## What is mounted in the new root -/

/-- The root of `/proc`, -/
def procDir : Dir := .root "proc" "proc" ""

/-- and of `/sys`. -/
def sysDir : Dir := .root "sysfs" "sysfs" ""

/-- The file systems that `SetupRootfs` mounts in the new root. -/
def virtual : List Dir :=
  [ procDir, sysDir, .root "tmpfs" "tmpfs" "mode=0755", .root "tmpfs" "tmpfs" "mode=1777",
    .root "devpts" "devpts" "newinstance,ptmxmode=0666,mode=0620,gid=5" ]

/-- Over the mounts `base` there are only virtual file systems, among them those of `required`. -/
structure Filled (A : Dir → Prop) (base host : Table Dir) (required : List Dir) (s : Namespaces) :
    Prop where
  mounts : ∀ l m, (l, m) ∈ s.own → (l, m) ∈ base ∨ m ∈ virtual
  kept : ∀ e ∈ base, e ∈ s.own
  required : ∀ m ∈ required, ∃ l, (l, m) ∈ s.own
  host : s.host = host
  shared : s.shared = false
  touched : ∀ d ∈ s.touched, A d

variable {base : Table Dir} {required : List Dir} {source target fstype data : String}

/-- What is touched after the change of the root is in the container or in one of its virtual
file systems. -/
theorem Filled.touch {s : Namespaces} (h : Filled A base host required s)
    (hbase : ∀ l m, (l, m) ∈ base → ∀ q, A (m.at q)) (hvirtual : ∀ m ∈ virtual, ∀ q, A (m.at q)) :
    Filled A base host required (env.touch follow path s) := by
  refine ⟨h.mounts, h.kept, h.required, h.host, h.shared, fun d hd => ?_⟩
  rcases List.mem_append.mp hd with hd | hd
  · obtain ⟨m, hm, rfl⟩ := Option.map_eq_some_iff.mp (Option.mem_toList.mp hd)
    rcases h.mounts _ m (mem_of_what hm) with hin | hin
    · exact hbase _ m hin _
    · exact hvirtual m hin _
  · exact h.touched d hd

/-- One more of them is mounted. -/
theorem spec_mount (hm : Dir.root fstype source data ∈ virtual)
    (herror : ∀ s, Filled A base host required s → env.fails (.mount target) ≠ none → E s) :
    Spec (Filled A base host required) (env.mount source target fstype data)
      (fun _ => Filled A base host (.root fstype source data :: required)) E := by
  refine spec_call (fun s hs => ?_) herror
  refine ⟨fun l m hin => ?_, fun e he => List.mem_cons_of_mem _ (hs.kept e he), fun m hreq => ?_,
    ?_, hs.shared, hs.touched⟩
  · rcases List.mem_cons.mp hin with heq | hin
    · exact .inr ((Prod.mk.inj heq).2 ▸ hm)
    · exact hs.mounts l m hin
  · rcases List.mem_cons.mp hreq with rfl | hreq
    · exact ⟨_, List.mem_cons_self⟩
    · obtain ⟨l, hl⟩ := hs.required m hreq
      exact ⟨l, List.mem_cons_of_mem _ hl⟩
  · rw [Namespaces.change, hs.shared]
    exact hs.host

theorem spec_ignoreAll {xs : List (EStateM String Namespaces Unit)}
    (hxs : ∀ x ∈ xs, Spec P x (fun _ => P) P) : Spec P (ignoreAll xs) (fun _ => P) E := by
  induction xs with
  | nil => exact Spec.pure fun _ hs => hs
  | cons x xs ih =>
      exact (spec_ignore (hxs x List.mem_cons_self)).bind fun _ =>
        ih fun y hy => hxs y (List.mem_cons_of_mem _ hy)

/-- Whatever fails under `/dev`, the root stays as it is. -/
theorem spec_devices (hbase : ∀ l m, (l, m) ∈ base → ∀ q, A (m.at q))
    (hvirtual : ∀ m ∈ virtual, ∀ q, A (m.at q)) :
    ∀ x ∈ env.devices, Spec (Filled A base host required) x
      (fun _ => Filled A base host required) (Filled A base host required) := by
  have htouch : ∀ op follow path, Spec (Filled A base host required)
      (env.call op (env.touch follow path)) (fun _ => Filled A base host required)
      (Filled A base host required) := fun op follow path =>
    spec_call (fun s hs => hs.touch hbase hvirtual) fun s hs _ => hs
  have hmount : ∀ source target fstype data, Dir.root fstype source data ∈ virtual →
      Spec (Filled A base host required) (env.mount source target fstype data)
        (fun _ => Filled A base host required) (Filled A base host required) :=
    fun source target fstype data hm =>
      (spec_mount hm fun s hs _ => hs).weaken (fun _ hs => hs)
        (fun _ s hs => ⟨hs.mounts, hs.kept, fun m hm => hs.required m (List.mem_cons_of_mem _ hm),
          hs.host, hs.shared, hs.touched⟩) fun _ hs => hs
  have hmodes : ∀ mode ∈ ["mode=0755", "mode=1777"], Dir.root "tmpfs" "tmpfs" mode ∈ virtual := by
    decide
  simp only [devices, List.forall_mem_cons]
  exact ⟨htouch _ _ _, hmount _ _ _ _ (hmodes _ (by simp)), htouch _ _ _, htouch _ _ _,
    htouch _ _ _, htouch _ _ _, hmount _ _ _ _ (by decide), htouch _ _ _, htouch _ _ _,
    hmount _ _ _ _ (hmodes _ (by simp)), hmount _ _ _ _ (hmodes _ (by simp)),
    hmount _ _ _ _ (hmodes _ (by simp)), htouch _ _ _, htouch _ _ _, htouch _ _ _, htouch _ _ _,
    htouch _ _ _, htouch _ _ _, htouch _ _ _, htouch _ _ _, List.forall_mem_nil _⟩

/-- What is done in the new root. -/
theorem fill_spec (hbase : ∀ l m, (l, m) ∈ base → ∀ q, A (m.at q))
    (hvirtual : ∀ m ∈ virtual, ∀ q, A (m.at q))
    (herror : ∀ s op, s.host = host → (∀ d ∈ s.touched, A d) → env.fails op ≠ none → E s) :
    Spec (fun s => ∃ own, At A own host false s ∧ ∀ l m, (l, m) ∈ own ↔ (l, m) ∈ base)
      (do
        wrap "掛載 /proc 失敗" (env.mount "proc" "/proc" "proc" "")
        wrap "掛載 /sys 失敗" (env.mount "sysfs" "/sys" "sysfs" "")
        ignoreAll env.devices)
      (fun _ => Filled A base host [sysDir, procDir]) E := by
  have hfail : ∀ {required op} s, Filled A base host required s → env.fails op ≠ none → E s :=
    fun s hs => herror s _ hs.host hs.touched
  refine Spec.weaken (P := Filled A base host []) ?_ (fun s => ?_) (fun _ _ hs => hs) fun _ hs => hs
  · exact ((spec_mount (by decide) hfail).wrap _).bind fun _ =>
      ((spec_mount (by decide) hfail).wrap _).bind fun _ =>
      spec_ignoreAll (spec_devices hbase hvirtual)
  · rintro ⟨own, hs, hown⟩
    rw [← hs.own] at hown
    exact ⟨fun l m hm => .inl ((hown l m).mp hm), fun e he => (hown e.1 e.2).mpr he,
      fun m hm => absurd hm List.not_mem_nil, hs.host, hs.shared, hs.touched⟩

/-! ## The whole of `SetupRootfs` -/

/-- The mounts after the step that mounts the overlay. -/
def mounted (env : RootfsEnv) (mountPoint lower : String) (t : Table Dir) : Table Dir :=
  match env.mounting with
  | .ok () => t.attach (env.find true mountPoint t) (overlayDir lower mountPoint)
  | .error _ => t

/-- A run that has stopped half way: on the host there is at most the overlay. -/
structure Stopped (env : RootfsEnv) (A : Dir → Prop) (mountPoint imageName imageTag : String)
    (shared : Bool) (host : Table Dir) (s : Namespaces) : Prop where
  cause : ¬ InOrder env imageName imageTag
  host : s.host = host ∨ ∃ lower, shared = true ∧ s.host = env.mounted mountPoint lower host
  touched : ∀ d ∈ s.touched, A d

variable {imageName imageTag lower : String} {s t : Namespaces}

/-- The overlay is mounted, or an error is returned. -/
theorem spec_mountOverlay (mountPoint lower : String)
    (herror : ∀ s err, At A own host shared s → env.mounting = .error err → E s) :
    Spec (At A own host shared) (env.mountOverlay lower mountPoint)
      (fun _ => At A (env.mounted mountPoint lower own)
        (if shared then env.mounted mountPoint lower host else host) shared) E := by
  intro s hs
  unfold mountOverlay Container.mountOverlay mounted
  cases hmount : env.mounting with
  | ok u =>
      cases u
      exact hs.change fun t => t.attach (env.find true mountPoint t) (overlayDir lower mountPoint)
  | error err =>
      have hsame : (if shared then host else host) = host := ite_self host
      by_cases hbusy : err = .ebusy ∧
          checkFSType (Fields.ofString mountPoint) overlay env.procMounts
      · simp only [if_pos hbusy, hsame]
        exact hs
      · simp only [if_neg hbusy]
        exact herror s err hs hmount

/-- The host has the overlay, if mounts are shared. -/
def hostMounts (env : RootfsEnv) (mountPoint lower : String) (shared : Bool) (host : Table Dir) :
    Table Dir :=
  if shared then env.mounted mountPoint lower host else host

/-- Copying the monitor mounts nothing, and touches the two paths in the new root. -/
theorem copyMonitor_spec {mountPoint : String}
    (hA : ∀ path ∈ [filepathJoin [mountPoint, bpfServiceExeContainer],
      filepathDir (filepathJoin [mountPoint, bpfServiceExeContainer])], Touches env A own true path)
    (herror : ∀ s op, At A own host shared s → env.fails op ≠ none → E s) :
    Spec (At A own host shared) (env.copyMonitor mountPoint)
      (fun _ => At A own host shared) E := by
  have hfail : ∀ {op} s, At A own host shared s → env.fails op ≠ none → E s :=
    fun s hs hop => herror s _ hs hop
  unfold copyMonitor
  exact (spec_ignore (spec_touch (hA _ (by simp)) fun s hs _ => hs)).bind fun _ =>
    ((spec_id hfail).wrap _).bind fun _ =>
    ((spec_touch (hA _ (by simp)) hfail).wrap _).bind fun _ => (spec_id hfail).wrap _

/-- The mounts stay a table that a path can be followed in. -/
theorem sound_mounted {p : Path} (straight : Straight env mountPoint p) (hhost : host.Sound) :
    (env.mounted mountPoint lower host).Sound := by
  unfold mounted
  split
  · rw [RootfsEnv.find, straight.target]
    exact hhost.attach straight.nonempty _
  · exact hhost

/-- On the host there is one more mount at most, and none if its mounts are not shared. -/
theorem host_of_hostMounts {s : Namespaces}
    (h : s.host = hostMounts env mountPoint lower shared host) :
    s.host = host ∨ ∃ lower, shared = true ∧ s.host = env.mounted mountPoint lower host := by
  rw [hostMounts] at h
  split_ifs at h with hshared
  · exact .inr ⟨lower, hshared, h⟩
  · exact .inl h

/-- **`SetupRootfs`**, from mounts that are those of the host: the new root is what the mount
point leads to after the overlay, and on the host nothing but the overlay is new. -/
theorem setupRootfs_spec {p : Path} (straight : Straight env mountPoint p) (hhost : host.Sound)
    (hbefore : ∀ path ∈ [mountPoint, filepathJoin [filepathDir mountPoint, "upper"],
      filepathJoin [filepathDir mountPoint, "work"]], Touches env A host true path)
    (hmonitor : ∀ lower, findImageRootfsPath env.manifest imageName imageTag = .ok lower →
      ∀ path ∈ [filepathJoin [mountPoint, bpfServiceExeContainer],
        filepathDir (filepathJoin [mountPoint, bpfServiceExeContainer])],
        Touches env A (env.mounted mountPoint lower host) true path)
    (hbase : ∀ lower, findImageRootfsPath env.manifest imageName imageTag = .ok lower →
      ∀ l m, (l, m) ∈ (env.mounted mountPoint lower host).copyOf Dir.at
        ((env.mounted mountPoint lower host).find p) → ∀ q, A (m.at q))
    (hvirtual : ∀ m ∈ virtual, ∀ q, A (m.at q)) :
    Spec (At A host host shared) (env.setupRootfs mountPoint imageName imageTag)
      (fun _ s => ∃ lower, findImageRootfsPath env.manifest imageName imageTag = .ok lower ∧
        Filled A ((env.mounted mountPoint lower host).copyOf Dir.at
            ((env.mounted mountPoint lower host).find p))
          (hostMounts env mountPoint lower shared host) [sysDir, procDir] s)
      (Stopped env A mountPoint imageName imageTag shared host) := by
  have hcause : ∀ {op}, env.fails op ≠ none → ¬ InOrder env imageName imageTag :=
    fun hop hall => hop (hall.fails _)
  have hstart : ∀ {op} s, At A host host shared s → env.fails op ≠ none →
      Stopped env A mountPoint imageName imageTag shared host s :=
    fun s hs hop => ⟨hcause hop, .inl hs.host, hs.touched⟩
  have himage : Spec (At A host host shared)
      (Fallible.lift ((findImageRootfsPath env.manifest imageName imageTag).mapError manifestText))
      (fun lower s => At A host host shared s ∧
        findImageRootfsPath env.manifest imageName imageTag = .ok lower)
      (Stopped env A mountPoint imageName imageTag shared host) := by
    refine Spec.lift (fun lower s hok hs => ⟨hs, mapError_eq_ok.mp hok⟩)
      fun err s herr hs => ⟨fun hall => ?_, .inl hs.host, hs.touched⟩
    obtain ⟨path, hpath⟩ := hall.image
    rw [mapError_eq_ok.mpr hpath] at herr
    cases herr
  unfold setupRootfs
  refine (himage.wrap _).bind fun lower => ?_
  -- the image is known from here on
  by_cases hfind : findImageRootfsPath env.manifest imageName imageTag = .ok lower
  case neg => exact fun s hs => absurd hs.2 hfind
  have hoverlay : Spec (At A host host shared) (env.mountOverlay lower mountPoint)
      (fun _ => At A (env.mounted mountPoint lower host)
        (hostMounts env mountPoint lower shared host) shared)
      (Stopped env A mountPoint imageName imageTag shared host) := by
    refine spec_mountOverlay mountPoint lower fun s err hs herr => ⟨fun hall => ?_, .inl hs.host,
      hs.touched⟩
    cases herr.symm.trans hall.mounting
  have hstop : ∀ {op} s, s.host = hostMounts env mountPoint lower shared host →
      (∀ d ∈ s.touched, A d) → env.fails op ≠ none →
      Stopped env A mountPoint imageName imageTag shared host s :=
    fun s hs htouched hop => ⟨hcause hop, host_of_hostMounts hs, htouched⟩
  refine Spec.weaken (P := At A host host shared) ?_ (fun s hs => hs.1) (fun _ _ hs => hs)
    fun _ hs => hs
  refine (spec_touch (hbefore _ (by simp)) hstart).bind fun _ =>
    (spec_touch (hbefore _ (by simp)) hstart).bind fun _ =>
    (spec_touch (hbefore _ (by simp)) hstart).bind fun _ => hoverlay.bind fun _ =>
    (copyMonitor_spec (hmonitor lower hfind) fun s op hs => hstop s hs.host hs.touched).bind
    fun _ => ((pivotRoot_spec straight (sound_mounted straight hhost) (hbase lower hfind)
      fun s op => hstop s).wrap _).bind fun _ => ?_
  refine (fill_spec (hbase lower hfind) hvirtual fun s op => hstop s).weaken (fun _ hs => hs)
    (fun _ s hs => ⟨lower, hfind, hs⟩) fun _ hs => hs

/-- The same without the files. -/
theorem setupRootfs_mounts (straight : Straight env mountPoint p) (hhost : host.Sound) :
    Spec (At (fun _ => True) host host shared) (env.setupRootfs mountPoint imageName imageTag)
      (fun _ s => ∃ lower, findImageRootfsPath env.manifest imageName imageTag = .ok lower ∧
        Filled (fun _ => True) ((env.mounted mountPoint lower host).copyOf Dir.at
            ((env.mounted mountPoint lower host).find p))
          (hostMounts env mountPoint lower shared host) [sysDir, procDir] s)
      (Stopped env (fun _ => True) mountPoint imageName imageTag shared host) :=
  setupRootfs_spec straight hhost (fun _ _ _ _ => trivial) (fun _ _ _ _ _ _ => trivial)
    (fun _ _ _ _ _ _ => trivial) fun _ _ _ => trivial

/-! ## In the container, and on the host -/

/-- A process sees nothing but the root of its container and virtual file systems. -/
structure Contained (root : Dir) (own : Table Dir) : Prop where
  rooted : ([], root) ∈ own
  mounts : ∀ l m, (l, m) ∈ own → (l = [] ∧ m = root) ∨ m ∈ virtual
  proc : ∃ l, (l, procDir) ∈ own
  sysfs : ∃ l, (l, sysDir) ∈ own

/-- What `SetupRootfs` may touch: the directories that it makes on the host, and what lies in the
container. -/
def Touchable (env : RootfsEnv) (mountPoint : String) (root : Dir) (host : Table Dir) (d : Dir) :
    Prop :=
  (∃ path ∈ [mountPoint, filepathJoin [filepathDir mountPoint, "upper"],
      filepathJoin [filepathDir mountPoint, "work"]],
    dirOf host (env.find true path host) = some d) ∨
  ∃ m ∈ root :: virtual, ∃ q, d = m.at q

/-- A namespace in which nothing has been done: a copy of that of the host. -/
structure Fresh (s : Namespaces) : Prop where
  own : s.own = s.host
  sound : s.host.Sound
  touched : s.touched = []

theorem Fresh.at (h : Fresh s) (A : Dir → Prop) : At A s.host s.host s.shared s :=
  ⟨h.own, rfl, rfl, fun _ hd => absurd (h.touched ▸ hd) List.not_mem_nil⟩

section
variable (straight : Straight env mountPoint p) (hmounting : env.mounting = .ok ())
include straight hmounting

theorem mounted_eq (lower : String) (host : Table Dir) :
    env.mounted mountPoint lower host =
      host.attach (host.find p) (overlayDir lower mountPoint) := by
  rw [mounted, hmounting, RootfsEnv.find, straight.target]

theorem what_mounted (lower : String) (host : Table Dir) :
    (env.mounted mountPoint lower host).what (host.find p).over =
      some (overlayDir lower mountPoint) := by
  rw [mounted_eq straight hmounting]
  simp [Table.what, Table.attach]

variable (hhost : host.Sound)
include hhost

theorem find_mounted (lower : String) :
    (env.mounted mountPoint lower host).find p = ⟨(host.find p).over, []⟩ := by
  rw [mounted_eq straight hmounting]
  exact find_attach hhost straight.nonempty _

/-- Only the overlay is mounted there. -/
theorem notMem_mounted {m : Dir} {lower : String} (q : Mounts.Path) (rest : Loc) :
    ((host.find p).over ++ q :: rest, m) ∉ env.mounted mountPoint lower host := by
  rw [mounted_eq straight hmounting]
  intro hmem
  rcases List.mem_cons.mp hmem with heq | hmem
  · have hloc := (Prod.mk.inj heq).1
    simp at hloc
  · exact hhost.notMem_append (over_find_notMem host straight.nonempty) (q :: rest)
      (mem_locs.mpr ⟨m, hmem⟩)

theorem mem_copyOf_mounted {l : Loc} {m : Dir} {lower : String} :
    (l, m) ∈ (env.mounted mountPoint lower host).copyOf Dir.at
        ((env.mounted mountPoint lower host).find p) ↔
      l = [] ∧ m = overlayDir lower mountPoint := by
  rw [find_mounted straight hmounting hhost, mem_copyOf]
  constructor
  · rintro (⟨rfl, m', hm', rfl⟩ | ⟨q, rest, -, hmem⟩)
    · rw [what_mounted straight hmounting] at hm'
      obtain rfl := Option.some.inj hm'
      exact ⟨rfl, rfl⟩
    · exact absurd hmem (notMem_mounted straight hmounting hhost _ rest)
  · rintro ⟨rfl, rfl⟩
    exact .inl ⟨rfl, _, what_mounted straight hmounting lower host, rfl⟩

/-- What `SetupRootfs` ends with, seen by the process. -/
theorem Filled.contained {A : Dir → Prop} {hostNow : Table Dir} {lower : String} {t : Namespaces}
    (h : Filled A ((env.mounted mountPoint lower host).copyOf Dir.at
        ((env.mounted mountPoint lower host).find p)) hostNow [sysDir, procDir] t) :
    Contained (overlayDir lower mountPoint) t.own where
  rooted := h.kept _ ((mem_copyOf_mounted straight hmounting hhost).mpr ⟨rfl, rfl⟩)
  mounts l m hm := (h.mounts l m hm).imp_left (mem_copyOf_mounted straight hmounting hhost).mp
  proc := h.required _ (by simp)
  sysfs := h.required _ (by simp)

/-- What lies below the mount point lies in the overlay. -/
theorem dirOf_mounted {lower : String} {q : Mounts.Path} (hq : p <+: q) {d : Dir}
    (hd : dirOf (env.mounted mountPoint lower host)
      ((env.mounted mountPoint lower host).find q) = some d) :
    ∃ q, d = (overlayDir lower mountPoint).at q := by
  obtain ⟨rest, rfl⟩ := hq
  have hfree : ∀ q rest, (host.find p).over ++ q :: rest ∉
      (env.mounted mountPoint lower host).locs := fun q rest hmem => by
    obtain ⟨m, hm⟩ := mem_locs.mp hmem
    exact notMem_mounted straight hmounting hhost q rest hm
  rw [find_append, find_mounted straight hmounting hhost, walk_of_notMem hfree, dirOf,
    what_mounted straight hmounting] at hd
  exact ⟨_, (Option.some.inj hd).symm⟩

end

/-- The process is in its container when `SetupRootfs` succeeds. -/
theorem contained_of_setupRootfs {s t : Namespaces} (straight : Straight env mountPoint p)
    (hmounting : env.mounting = .ok ()) (hs : Fresh s)
    (hrun : env.setupRootfs mountPoint imageName imageTag s = .ok () t) :
    ∃ lower, findImageRootfsPath env.manifest imageName imageTag = .ok lower ∧
      Contained (overlayDir lower mountPoint) t.own := by
  obtain ⟨lower, hfind, hfilled⟩ :=
    (setupRootfs_mounts straight hs.sound).of_ok (hs.at fun _ => True) hrun
  exact ⟨lower, hfind, hfilled.contained straight hmounting hs.sound⟩

/-- What can be new on the host: the overlay, if the mounts are shared. -/
def HostLeft (env : RootfsEnv) (mountPoint : String) (p : Mounts.Path) (s : Namespaces)
    (host : Table Dir) : Prop :=
  host = s.host ∨ ∃ lower, s.shared = true ∧ env.mounting = .ok () ∧
    host = s.host.attach (s.host.find p) (overlayDir lower mountPoint)

theorem hostLeft_mounted (straight : Straight env mountPoint p)
    (h : t.host = s.host ∨ ∃ lower, s.shared = true ∧
      t.host = env.mounted mountPoint lower s.host) : HostLeft env mountPoint p s t.host := by
  rcases h with h | ⟨lower, hshared, h⟩
  · exact .inl h
  · cases hmounting : env.mounting with
    | ok u =>
        rw [mounted_eq straight hmounting] at h
        exact .inr ⟨lower, hshared, hmounting, h⟩
    | error err =>
        rw [mounted, hmounting] at h
        exact .inl h

/-- However `SetupRootfs` ends, the host is left with no more than its copy of the overlay. -/
theorem spec_hostLeft (straight : Straight env mountPoint p) (hs : Fresh s) :
    Spec (· = s) (env.setupRootfs mountPoint imageName imageTag)
      (fun _ t => HostLeft env mountPoint p s t.host)
      (fun t => HostLeft env mountPoint p s t.host) :=
  (setupRootfs_mounts straight hs.sound).weaken (fun _ heq => heq ▸ hs.at fun _ => True)
    (fun _ _ ⟨_, _, hfilled⟩ => hostLeft_mounted straight (host_of_hostMounts hfilled.host))
    fun _ hstopped => hostLeft_mounted straight hstopped.host

/-- **The host is left alone**, however `SetupRootfs` ends and whatever it finds mounted. -/
theorem setupRootfs_host (imageName imageTag : String) (straight : Straight env mountPoint p)
    (hs : Fresh s) :
    HostLeft env mountPoint p s (final (env.setupRootfs mountPoint imageName imageTag s)).host := by
  cases hrun : env.setupRootfs mountPoint imageName imageTag s with
  | ok u t => exact (spec_hostLeft straight hs).of_ok rfl hrun
  | error e t => exact (spec_hostLeft straight hs).of_error rfl hrun

/-- In order, `SetupRootfs` succeeds. -/
theorem setupRootfs_inOrder (straight : Straight env mountPoint p) (hs : Fresh s)
    (hall : InOrder env imageName imageTag) :
    ∃ t, env.setupRootfs mountPoint imageName imageTag s = .ok () t := by
  cases hrun : env.setupRootfs mountPoint imageName imageTag s with
  | ok u t => exact ⟨t, rfl⟩
  | error e t =>
      exact absurd hall ((setupRootfs_mounts straight hs.sound).of_error (hs.at _) hrun).cause

/-! ## The directories of a container -/

/-- The text of a path that starts at the root. -/
def pathText (es : List String) : String := String.ofList (GoPath.path true (es.map String.toList))

/-- The elements are names. -/
def Names (es : List String) : Prop := ∀ e ∈ es.map String.toList, GoPath.Plain e

instance (es : List String) : Decidable (Names es) :=
  inferInstanceAs (Decidable (∀ e ∈ es.map String.toList, GoPath.Plain e))

theorem Names.append {es fs : List String} (hes : Names es) (hfs : Names fs) :
    Names (es ++ fs) := by
  intro e he
  rw [List.map_append] at he
  exact (List.mem_append.mp he).elim (hes e) (hfs e)

theorem filepathJoin_pathText {es fs : List String} (hes : Names es) (hfs : Names fs)
    {text : String} (htext : text.toList = ['/'].intercalate (fs.map String.toList)) :
    filepathJoin [pathText es, text] = pathText (es ++ fs) := by
  have hjoin := GoPath.join_path hes hfs
  rw [← htext, ← List.map_append] at hjoin
  rw [filepathJoin, pathText, List.map_cons, String.toList_ofList, List.map_singleton, hjoin,
    pathText]

/-- Joining two rooted paths of plain names appends their names. -/
theorem filepathJoin_rooted {es fs : List String} (hes : Names es) (hfs : Names fs) :
    filepathJoin [pathText es, pathText fs] = pathText (es ++ fs) := by
  have hjoin := GoPath.join_path_rooted hes hfs
  rw [← List.map_append] at hjoin
  rw [filepathJoin, pathText, pathText, List.map_cons, String.toList_ofList, List.map_singleton,
    String.toList_ofList, hjoin, pathText]

/-- The directory of a path is the path without its last name. -/
theorem filepathDir_pathText {es : List String} {e : String} (hes : Names es) (he : Names [e]) :
    filepathDir (pathText (es ++ [e])) = pathText es := by
  have hdir := GoPath.dir_path hes (he e.toList (by simp))
  rw [filepathDir, pathText, String.toList_ofList, List.map_append, List.map_singleton, hdir,
    pathText]

/-- The directory of a container. -/
def containerDir (id : ContainerID) : List String := ["var", "lib", "gocker", "containers", id]

/-- The directories above a container have plain names, and so has its id. -/
theorem containerDir_names {id : ContainerID} (hid : Names [id]) : Names (containerDir id) :=
  by
  have hstorage : Names ["var", "lib", "gocker", "containers"] := by decide
  exact hstorage.append hid

theorem mountPointOf_eq (id : ContainerID) :
    mountPointOf id = pathText (containerDir id ++ ["rootfs"]) := by
  apply String.toList_injective
  simp [mountPointOf, pathText, containerDir, GoPath.path, Config.containerStoragePath,
    List.intercalate_cons_cons]

/-- A path in a container's directory, as characters. -/
theorem pathText_containerDir (id : ContainerID) (name : String) :
    (pathText (containerDir id ++ [name])).toList =
      GoPath.path true (["var", "lib", "gocker", "containers"].map String.toList) ++
        '/' :: id.toList ++ '/' :: name.toList := by
  have hdir : (containerDir id).map String.toList =
      ["var", "lib", "gocker", "containers"].map String.toList ++ [id.toList] := rfl
  have hnonempty : (["var", "lib", "gocker", "containers"].map String.toList) ≠ [] :=
    List.cons_ne_nil _ _
  rw [pathText, String.toList_ofList, List.map_append, List.map_singleton, hdir,
    GoPath.path_concat (by simp), GoPath.path_concat hnonempty]

/-- What is written and the work of the overlay lie beside the mount point. -/
theorem overlayOptions_mountPointOf {id : ContainerID} (hid : Names [id]) (lower : String) :
    overlayOptions lower (mountPointOf id) =
      "lowerdir=" ++ lower ++ ",upperdir=" ++ pathText (containerDir id ++ ["upper"]) ++
        ",workdir=" ++ pathText (containerDir id ++ ["work"]) := by
  have hnames := containerDir_names hid
  have hrootfs : Names ["rootfs"] := by decide
  have hupper : Names ["upper"] := by decide
  have hwork : Names ["work"] := by decide
  rw [overlayOptions, mountPointOf_eq, filepathDir_pathText hnames hrootfs,
    filepathJoin_pathText hnames hupper rfl, filepathJoin_pathText hnames hwork rfl]

/-- Each container has an overlay of its own, whatever the images. -/
theorem overlayDir_injective {id id' : ContainerID} (hid : Names [id]) (hid' : Names [id'])
    {lower lower' : String}
    (h : overlayDir lower (mountPointOf id) = overlayDir lower' (mountPointOf id')) : id = id' := by
  have hoptions :
      overlayOptions lower (mountPointOf id) = overlayOptions lower' (mountPointOf id') :=
    congrArg Dir.options h
  rw [overlayOptions_mountPointOf hid, overlayOptions_mountPointOf hid'] at hoptions
  have htext := congrArg String.toList hoptions
  simp only [String.toList_append, pathText_containerDir, ← List.append_assoc,
    List.append_cancel_right_eq] at htext
  have hslash : ∀ id : ContainerID, Names [id] → '/' ∉ id.toList := fun id hid =>
    (hid id.toList (by simp)).noSlash
  exact String.toList_injective
    (GoPath.append_cons_inj_right (hslash id hid) (hslash id' hid') htext)

/-! ## A host -/

/-- The elements of a path without links. -/
def plainPath (path : String) : Mounts.Path :=
  (path.toList.splitOn '/').filterMap fun e => if e = [] then none else some (String.ofList e)

/-- A path of plain names is read back as these names. -/
theorem plainPath_pathText {es : List String} (hes : Names es) : plainPath (pathText es) = es := by
  by_cases hne : es = []
  · subst hne
    rfl
  · have hnonempty : es.map String.toList ≠ [] := by simpa using hne
    rw [plainPath, pathText, String.toList_ofList, GoPath.splitOn_path hes hnonempty,
      List.filterMap_cons_none rfl, List.filterMap_map]
    refine (List.filterMap_congr fun e he => ?_).trans List.filterMap_some
    have hplain := hes e.toList (List.mem_map_of_mem he)
    show (if e.toList = [] then none else some (String.ofList e.toList)) = some e
    rw [if_neg hplain.nonempty, String.ofList_toList]

/-- Everything in order, with one image. -/
def plainEnv : RootfsEnv where
  manifest := .text (Image.encodeManifest [{ imageID := "0123456789ab", repoTag := "alpine:3.20" }])
  executable := .ok "/usr/local/bin/gocker"
  pwd := "/root"
  mounting := .ok ()
  procMounts := none
  fails := fun _ => none
  links := fun _ _ => plainPath

@[simp] theorem plainEnv_links (t : Table Dir) (follow : Bool) (path : String) :
    plainEnv.links t follow path = plainPath path := rfl

/-- Without links, every container has a straight way. -/
theorem plainEnv_straight {id : ContainerID} (hid : Names [id]) :
    Straight plainEnv (mountPointOf id) (containerDir id ++ ["rootfs"]) := by
  have hnames : Names (containerDir id ++ ["rootfs"]) :=
    (containerDir_names hid).append (by decide)
  have hold : Names [".old_root"] := by decide
  have husr : Names ["usr", "bin"] := by decide
  have hmonitor : Names ["ebpf-sched-monitor"] := by decide
  have hexe : bpfServiceExeContainer = pathText ["usr", "bin", "ebpf-sched-monitor"] := by
    decide +kernel
  have hroot : "/.old_root" = pathText [".old_root"] := by decide +kernel
  have hbelow : filepathJoin [mountPointOf id, bpfServiceExeContainer] =
      pathText (containerDir id ++ ["rootfs"] ++ ["usr", "bin"] ++ ["ebpf-sched-monitor"]) := by
    rw [mountPointOf_eq, hexe, filepathJoin_rooted hnames (by decide), List.append_assoc]
    rfl
  refine ⟨by simp, fun _ => ?_, fun _ => ?_, fun _ => ?_, fun _ => ?_, fun _ => ?_⟩
  · rw [plainEnv_links, mountPointOf_eq, plainPath_pathText hnames]
  · rw [plainEnv_links, mountPointOf_eq, filepathJoin_pathText hnames hold rfl,
      plainPath_pathText (hnames.append hold)]
  · rw [plainEnv_links, hroot, plainPath_pathText hold]
  · rw [plainEnv_links, hbelow, plainPath_pathText ((hnames.append husr).append hmonitor),
      List.append_assoc]
    exact List.prefix_append _ _
  · rw [plainEnv_links, hbelow, filepathDir_pathText (hnames.append husr) hmonitor,
      plainPath_pathText (hnames.append husr)]
    exact List.prefix_append _ _

theorem plainEnv_inOrder : InOrder plainEnv "alpine" "3.20" where
  fails _ := rfl
  mounting := rfl
  image := by
    refine ⟨Image.rootfsPath "0123456789ab", ?_⟩
    simp only [plainEnv, findImageRootfsPath, Image.loadManifest_encodeManifest]
    decide +kernel

/-- A namespace with one file system, shared with the host. -/
def plainNamespaces : Namespaces where
  own := [([], .root "ext4" "/dev/sda1" "rw")]
  host := [([], .root "ext4" "/dev/sda1" "rw")]
  shared := true
  touched := []

/-- The mounts of a process that has just been launched. -/
theorem plainNamespaces_fresh : Fresh plainNamespaces where
  own := rfl
  sound := ⟨by decide, by unfold Table.Rooted; decide, by decide⟩
  touched := rfl

/-- A container whose image is missing leaves the host as it was. -/
theorem setupRootfs_host_plain :
    HostLeft plainEnv (mountPointOf "a") (containerDir "a" ++ ["rootfs"]) plainNamespaces
      (final (plainEnv.setupRootfs (mountPointOf "a") "none" "latest" plainNamespaces)).host :=
  setupRootfs_host "none" "latest" (plainEnv_straight (by decide)) plainNamespaces_fresh

/-- **Containers are apart.**  What the processes of two containers both see are virtual file
systems, even if they run the same image. -/
theorem setupRootfs_apart {env env' : RootfsEnv} {id id' : ContainerID}
    {imageName imageTag imageName' imageTag' : String} {p p' : Mounts.Path} {s t s' t' : Namespaces}
    (hid : Names [id]) (hid' : Names [id']) (hne : id ≠ id')
    (straight : Straight env (mountPointOf id) p) (straight' : Straight env' (mountPointOf id') p')
    (hmounting : env.mounting = .ok ()) (hmounting' : env'.mounting = .ok ())
    (hs : Fresh s) (hs' : Fresh s')
    (hrun : env.setupRootfs (mountPointOf id) imageName imageTag s = .ok () t)
    (hrun' : env'.setupRootfs (mountPointOf id') imageName' imageTag' s' = .ok () t')
    {l l' : Loc} {m : Dir} (hm : (l, m) ∈ t.own) (hm' : (l', m) ∈ t'.own) : m ∈ virtual := by
  obtain ⟨lower, -, hown⟩ := contained_of_setupRootfs straight hmounting hs hrun
  obtain ⟨lower', -, hown'⟩ := contained_of_setupRootfs straight' hmounting' hs' hrun'
  rcases hown.mounts l m hm with ⟨-, hroot⟩ | hvirtual
  · rcases hown'.mounts l' m hm' with ⟨-, hroot'⟩ | hvirtual
    · exact absurd (overlayDir_injective hid hid' (hroot.symm.trans hroot')) hne
    · exact hvirtual
  · exact hvirtual

theorem setupRootfs_apart_plain :
    ∃ t t', plainEnv.setupRootfs (mountPointOf "a") "alpine" "3.20" plainNamespaces = .ok () t ∧
      plainEnv.setupRootfs (mountPointOf "b") "alpine" "3.20" plainNamespaces = .ok () t' ∧
      ∀ l l' m, (l, m) ∈ t.own → (l', m) ∈ t'.own → m ∈ virtual := by
  have straight := @plainEnv_straight "a" (by decide)
  have straight' := @plainEnv_straight "b" (by decide)
  obtain ⟨t, ht⟩ := setupRootfs_inOrder straight plainNamespaces_fresh plainEnv_inOrder
  obtain ⟨t', ht'⟩ := setupRootfs_inOrder straight' plainNamespaces_fresh plainEnv_inOrder
  exact ⟨t, t', ht, ht', fun l l' m hm hm' => setupRootfs_apart (by decide) (by decide) (by decide)
    straight straight' rfl rfl plainNamespaces_fresh plainNamespaces_fresh ht ht' hm hm'⟩

end RootfsEnv

end Gocker.Container
