import Gocker.Network.IpamProcesses

/-!
# What an allocation returns

`AllocateContainerIP` as its caller sees it: a container keeps the address it has; a new one
gets the requested address if it is a free host address, and otherwise the smallest free
one; the only error is that there is none.

* `requestedAddress_iff` and `scan_least` are the specifications of the two paths, and
  `allocateContainerIP_spec` the one of the function between loading and saving.
* `Shared.execute` is a call none of whose file operations fails, and `execute_outcome`
  says that it returns and leaves what its operation decides.

`allocate_specified` puts them together, for every store that can be reached and loaded.

### Texts and addresses

The map holds texts, and the specification speaks of addresses; the connection is that the
allocator writes only canonical texts (`dotted`), which are different for different addresses.  A
request may be in any form that `net.ParseIP` reads, and the same address in another form is the
same request.
-/

namespace Gocker.Network

open Machine NetIP

/-! ## The specification -/

/-- The number that an address is, its bytes taken as digits. -/
def number (ip : IP) : ℕ := ip.foldl (fun n b => 256 * n + b.toNat) 0

/-- A host address that no container has. -/
def FreeAddress (m : ContainerToIP) (ip : IP) : Prop := HostAddress ip ∧ ¬ Used m (dotted ip)

/-- The free address with the smallest number. -/
structure LeastFree (m : ContainerToIP) (ip : IP) : Prop where
  free : FreeAddress m ip
  least : ∀ ip', FreeAddress m ip' → number ip ≤ number ip'

/-- The request names this address, in one of the ways to write it. -/
def Requests (requestedIP : String) (ip : IP) : Prop := (parseIP requestedIP).bind to4 = some ip

/-- What an allocation has to return for a store `m`, and the store it has to leave. -/
structure AllocationSpec (m : ContainerToIP) (id : ContainerID) (requestedIP : String)
    (result : Except IpamError String) (m' : ContainerToIP) : Prop where
  existing : ∀ ip, m.lookup id = some ip → result = .ok ip ∧ m' = m
  requested : m.lookup id = none → ∀ ip, Requests requestedIP ip → FreeAddress m ip →
    result = .ok (dotted ip)
  smallest : m.lookup id = none → (∀ ip, Requests requestedIP ip → ¬ FreeAddress m ip) →
    (∃ ip, FreeAddress m ip) → ∃ ip, LeastFree m ip ∧ result = .ok (dotted ip)
  full : result = .error .noAvailable ↔
    m.lookup id = none ∧ ∀ ip, HostAddress ip → Used m (dotted ip)
  failed : ∀ err, result = .error err → err = .noAvailable ∧ m' = m
  entry : ∀ ip, result = .ok ip → m.lookup id = none → m' = m.insert id ip

/-! ## The requested address -/

theorem Requests.unique {requestedIP : String} {a b : IP} (ha : Requests requestedIP a)
    (hb : Requests requestedIP b) : a = b :=
  Option.some.inj (ha.symm.trans hb)

theorem FreeAddress.length {m : ContainerToIP} {ip : IP} (h : FreeAddress m ip) : ip.length = 4 :=
  h.1.isV4

/-- Two addresses of four bytes with one text are one. -/
theorem dotted_inj_of_length {a b : IP} (ha : a.length = 4) (hb : b.length = 4)
    (h : dotted a = dotted b) : a = b := by
  refine dotted_injective ?_ ?_ h
  · rintro rfl
    exact absurd ha (by simp)
  · rintro rfl
    exact absurd hb (by simp)

/-- An address may be given out by its text if and only if it is free. -/
theorem free_dotted_iff {m : ContainerToIP} {ip : IP} (h : ip.length = 4) :
    Free m (dotted ip) ↔ FreeAddress m ip := by
  constructor
  · rintro ⟨⟨ip', hip', htext⟩, hused⟩
    obtain rfl := dotted_inj_of_length h hip'.isV4 htext
    exact ⟨hip', hused⟩
  · rintro ⟨hip, hused⟩
    exact ⟨⟨ip, hip, rfl⟩, hused⟩

/-- **The requested path.**  It gives the requested address exactly when that is free. -/
theorem requestedAddress_iff {m : ContainerToIP} {requestedIP text : String} :
    requestedAddress subnet (buildReservedIPs subnet) m requestedIP = some text ↔
      ∃ ip, Requests requestedIP ip ∧ FreeAddress m ip ∧ text = dotted ip := by
  constructor
  · intro h
    have hfree := requestedAddress_free h
    unfold requestedAddress at h
    split_ifs at h with hempty
    obtain ⟨ip, hparse, hip⟩ := Option.bind_eq_some_iff.mp h
    split_ifs at hip with hrange hreserved hused
    obtain rfl := Option.some.inj hip
    obtain ⟨a, ha⟩ := subnet_isV4.exists_to4 hrange.1
    have htext : ipString ip = dotted a := ipString_eq_dotted ha
    rw [htext, free_dotted_iff (length_of_to4 ha)] at hfree
    refine ⟨a, ?_, hfree, htext⟩
    show (parseIP requestedIP).bind to4 = some a
    rw [hparse, Option.bind_some, ha]
  · rintro ⟨a, hrequest, ⟨hhost, hused⟩, rfl⟩
    obtain ⟨ip, hparse, ha⟩ := Option.bind_eq_some_iff.mp hrequest
    obtain ⟨hin, hnet, hbroadcast, hreserved⟩ := hhost.usable ha
    have hempty : requestedIP ≠ "" := by
      rintro rfl
      have hnone : parseIP "" = none := by decide
      rw [hnone] at hparse
      cases hparse
    have htext : ipString ip = dotted a := ipString_eq_dotted ha
    rw [htext] at hreserved
    simp [requestedAddress, hempty, hparse, hin, hnet, hbroadcast, hreserved, hused, htext]

/-! ## The first free address -/

/-- A scan with a result has passed over every candidate before it.  The induction is on
the number of candidates left. -/
theorem scanFrom_eq_some {net : IPNet} {reserved : List String} {m : ContainerToIP} {text : String}
    (fuel : ℕ) (candidate : IP) (h : scanFrom net reserved m fuel candidate = some text) :
    ∃ i, text = ipString (nextIP^[i] candidate) ∧
      (∀ j ≤ i, net.contains (nextIP^[j] candidate) = true) ∧
      ∀ j < i, Passed net reserved m (nextIP^[j] candidate) := by
  induction fuel generalizing candidate with
  | zero => cases h
  | succ fuel ih =>
      have hin : net.contains candidate = true := by
        by_contra hout
        rw [scanFrom, if_neg hout] at h
        cases h
      rw [scanFrom, if_pos hin] at h
      have later (hskip : Passed net reserved m candidate)
          (hrest : scanFrom net reserved m fuel (nextIP candidate) = some text) :
          ∃ i, text = ipString (nextIP^[i] candidate) ∧
            (∀ j ≤ i, net.contains (nextIP^[j] candidate) = true) ∧
            ∀ j < i, Passed net reserved m (nextIP^[j] candidate) := by
        obtain ⟨i, htext, hreach, hpass⟩ := ih _ hrest
        refine ⟨i + 1, htext, fun j hj => ?_, fun j hj => ?_⟩
        · cases j with
          | zero => exact hin
          | succ j => exact hreach j (by omega)
        · cases j with
          | zero => exact hskip
          | succ j => exact hpass j (by omega)
      split_ifs at h with hbroadcast hreserved hused
      · exact later (.inl hbroadcast) h
      · exact later (.inr (.inl hreserved)) h
      · exact later (.inr (.inr hused)) h
      · refine ⟨0, (Option.some.inj h).symm, fun j hj => ?_, fun j hj => ?_⟩
        · rwa [Nat.le_zero.mp hj]
        · exact absurd hj (Nat.not_lt_zero j)

/-- The number of an address of the network, by its last byte. -/
theorem number_host (b : UInt8) : number [10, 20, 0, b] = 169082880 + b.toNat := by
  simp [number]

/-- The scan leaves the subnet after 255 candidates. -/
theorem contains_iterate_lt {i : ℕ}
    (h : ∀ j ≤ i, subnet.contains (nextIP^[j] (nextIP subnet.ip)) = true) : i < 255 := by
  by_contra hi
  have hlast := h 255 (by omega)
  have hend : nextIP^[255] (nextIP subnet.ip) = [10, 20, 1, 0] := by
    rw [Function.iterate_succ_apply', iterate_nextIP 254 (by omega)]
    decide
  rw [hend] at hlast
  exact absurd hlast (by decide)

/-- **The scan.**  It gives the smallest free address. -/
theorem scan_least {m : ContainerToIP} {text : String}
    (h : scan subnet (buildReservedIPs subnet) m = some text) :
    ∃ ip, LeastFree m ip ∧ text = dotted ip := by
  have hfree := scanFrom_free _ _ h
  obtain ⟨i, htext, hreach, hpass⟩ := scanFrom_eq_some _ _ h
  have hi : i < 255 := contains_iterate_lt hreach
  rw [iterate_nextIP i hi, ipString_eq_dotted (to4_of_length rfl)] at htext
  rw [htext, free_dotted_iff rfl] at hfree
  refine ⟨_, ⟨hfree, ?_⟩, htext⟩
  rintro ip ⟨hhost, hused⟩
  obtain ⟨b, rfl, h0, -, -⟩ := hostAddress_iff.mp hhost
  have hb := b.toNat_lt
  have hlast : (UInt8.ofNat (i + 1)).toNat = i + 1 := by
    rw [UInt8.toNat_ofNat']
    omega
  rw [number_host, number_host, hlast]
  -- a smaller one would have been passed over, so it would be in use
  by_contra hlt
  have hpos : b.toNat ≠ 0 := fun h => h0 (UInt8.toNat_inj.mp h)
  have hskip := hpass (b.toNat - 1) (by omega)
  rw [iterate_nextIP_host b h0] at hskip
  exact hused (hhost.used_of_passed hskip)

/-! ## The decision -/

/-- A container without an entry: the requested address if it is given, else the scan. -/
theorem allocateContainerIP_new {m : ContainerToIP} {id : ContainerID} (h : m.lookup id = none)
    (requestedIP : String) :
    allocateContainerIP m id requestedIP =
      match (requestedAddress subnet (buildReservedIPs subnet) m requestedIP).or
        (scan subnet (buildReservedIPs subnet) m) with
      | some ip => .save (m.insert id ip) ip
      | none => .fail .noAvailable := by
  unfold allocateContainerIP
  simp only [h, parseCIDR_networkCIDR]
  cases requestedAddress subnet (buildReservedIPs subnet) m requestedIP with
  | some ip => rfl
  | none => cases scan subnet (buildReservedIPs subnet) m <;> rfl

theorem allocateContainerIP_existing {m : ContainerToIP} {id : ContainerID} {ip : String}
    (h : m.lookup id = some ip) (requestedIP : String) :
    allocateContainerIP m id requestedIP = .done ip := by
  simp only [allocateContainerIP, h]

/-- What `AllocateContainerIP` decides meets the specification. -/
theorem allocateContainerIP_spec (m : ContainerToIP) (id : ContainerID) (requestedIP : String) :
    AllocationSpec m id requestedIP ((allocateContainerIP m id requestedIP).outcome m).1
      ((allocateContainerIP m id requestedIP).outcome m).2 := by
  cases hid : m.lookup id with
  | some ip =>
      rw [allocateContainerIP_existing hid]
      refine ⟨fun ip' h => ?_, ?_, ?_, ?_, nofun, ?_⟩
      · rw [hid] at h
        obtain rfl := Option.some.inj h
        exact ⟨rfl, rfl⟩
      all_goals simp [hid, Decision.outcome]
  | none =>
      rw [allocateContainerIP_new hid]
      cases hreq : requestedAddress subnet (buildReservedIPs subnet) m requestedIP with
      | some text =>
          obtain ⟨ip, hrequest, hfree, rfl⟩ := requestedAddress_iff.mp hreq
          refine ⟨by simp [hid], fun _ ip' hrequest' _ => ?_, fun _ hnone => ?_, ?_, nofun, ?_⟩
          · rw [hrequest.unique hrequest']
            rfl
          · exact absurd hfree (hnone ip hrequest)
          · exact ⟨nofun, fun hfull => absurd (hfull.2 ip hfree.1) hfree.2⟩
          · rintro text ⟨⟩ -
            rfl
      | none =>
          have hnone : ∀ ip, Requests requestedIP ip → ¬ FreeAddress m ip := by
            intro ip hrequest hfree
            rw [requestedAddress_iff.mpr ⟨ip, hrequest, hfree, rfl⟩] at hreq
            cases hreq
          cases hscan : scan subnet (buildReservedIPs subnet) m with
          | some text =>
              obtain ⟨ip, hleast, rfl⟩ := scan_least hscan
              refine ⟨by simp [hid], fun _ ip' hrequest hfree => ?_, fun _ _ _ => ?_, ?_, nofun, ?_⟩
              · exact absurd hfree (hnone ip' hrequest)
              · exact ⟨ip, hleast, rfl⟩
              · exact ⟨nofun, fun hfull => absurd (hfull.2 ip hleast.free.1) hleast.free.2⟩
              · rintro text ⟨⟩ -
                rfl
          | none =>
              refine ⟨by simp [hid], fun _ ip hrequest hfree => ?_, ?_, ?_, ?_, nofun⟩
              · exact absurd hfree (hnone ip hrequest)
              · rintro - - ⟨ip, hhost, hused⟩
                exact absurd (scan_eq_none hscan hhost) hused
              · exact ⟨fun _ => ⟨hid, fun ip => scan_eq_none hscan⟩, fun _ => rfl⟩
              · rintro err ⟨⟩
                exact ⟨rfl, rfl⟩

/-- Releasing a new entry gives the store from before it. -/
theorem release_allocated {m : ContainerToIP} {id : ContainerID} (h : m.lookup id = none)
    (ip : String) : releaseContainerIP (m.insert id ip) id = .save m () := by
  have herase : (m.insert id ip).erase id = m := by
    apply Finmap.ext_lookup
    intro i
    rcases eq_or_ne i id with rfl | hne
    · rw [Finmap.lookup_erase, h]
    · rw [Finmap.lookup_erase_ne hne, Finmap.lookup_insert_of_ne _ hne]
  rw [releaseContainerIP, if_pos (Finmap.mem_insert.mpr (.inl rfl)), herase]

/-! ## A call that nothing disturbs -/

namespace Shared

/-- The call of a process takes its next operations, none of which fails. -/
def finish (p : ProcessID) : ℕ → Shared → Shared
  | 0, s => s
  | n + 1, s =>
      match Network.step s (.step p .ok) with
      | some t => finish p n t
      | none => s

/-- A process calls the allocator and the call returns, no other process moving. -/
def execute (s : Shared) (p : ProcessID) (op : Op) : Shared :=
  match Network.step s (.begin p op) with
  | some t => finish p 5 t
  | none => s

end Shared

variable {s t : Shared} {p : ProcessID} {op : Op}

theorem finish_step {n : ℕ} {c : Call} (hcall : s.call p = some c)
    (h : advance s p c.op c.stage .ok = some t) :
    s.finish p (n + 1) = t.finish p n := by
  have hstep : step s (.step p .ok) = some t := by
    show (s.call p).bind _ = some t
    rw [hcall, Option.bind_some, h]
  rw [Shared.finish, hstep]

theorem finish_returned {n : ℕ} (hcall : s.call p = none) : s.finish p n = s := by
  cases n with
  | zero => rfl
  | succ n =>
      have hstep : step s (.step p .ok) = none := by
        show (s.call p).bind _ = none
        rw [hcall, Option.bind_none]
      rw [Shared.finish, hstep]

/-- The same call at its next operation. -/
theorem finish_goto {n : ℕ} {stage next : Stage} {files : Files}
    (hcall : s.call p = some ⟨op, stage⟩)
    (h : advance s p op stage .ok = some (s.goto p op next files)) :
    s.finish p (n + 1) = (s.goto p op next files).finish p n ∧
      (s.goto p op next files).call p = some ⟨op, next⟩ :=
  ⟨finish_step hcall h, Function.update_self ..⟩

theorem advance_rename {sv : Save} {files : Files} (h : s.files.rename = some files) :
    advance s p op (.rename sv) .ok = some (s.succeeded p op sv.result files) := by
  simp only [advance, h]

/-- What a call that nothing disturbs leaves: its result, the store it decided on, and a
process without a call. -/
structure Executed (p : ProcessID) (result : Except IpamError (Option String)) (m : ContainerToIP)
    (s : Shared) : Prop where
  returned : s.returned p = some result
  load : loadIPAllocationState s.files = some m
  idle : s.call p = none
  distinct : s.files.Distinct

/-- **A call does what its operation decides.** -/
theorem execute_outcome {m : ContainerToIP} (hfiles : s.files.Distinct) (hidle : s.call p = none)
    (hload : loadIPAllocationState s.files = some m) (op : Op) :
    Executed p ((op.decide m).outcome m).1 ((op.decide m).outcome m).2 (s.execute p op) := by
  have hbegin : step s (.begin p op) = some (s.goto p op .load s.files) := by
    simp only [step, hidle]
  have hcall : (s.goto p op .load s.files).call p = some ⟨op, .load⟩ := Function.update_self ..
  rw [Shared.execute, hbegin]
  show Executed p _ _ ((s.goto p op .load s.files).finish p 5)
  cases hd : op.decide m with
  | done r =>
      rw [finish_step hcall (t := (s.goto p op .load s.files).succeeded p op r s.files)
        (by simp only [advance, Shared.goto, hload, hd]), finish_returned (Function.update_self ..)]
      exact ⟨Function.update_self .., hload, Function.update_self .., hfiles⟩
  | fail err =>
      rw [finish_step hcall (t := (s.goto p op .load s.files).failed p err s.files)
        (by simp only [advance, Shared.goto, hload, hd]), finish_returned (Function.update_self ..)]
      exact ⟨Function.update_self .., hload, Function.update_self .., hfiles⟩
  | save m' r =>
      have hdecided : advance (s.goto p op .load s.files) p op .load .ok =
          some ((s.goto p op .load s.files).goto p op (.openTemp ⟨m, m', r⟩) s.files) := by
        simp only [advance, Shared.goto, hload, hd]
      obtain ⟨hfinish, hcall⟩ := finish_goto hcall hdecided
      rw [hfinish]
      obtain ⟨hfinish, hcall⟩ := finish_goto hcall rfl
      rw [hfinish]
      obtain ⟨hfinish, hcall⟩ := finish_goto hcall rfl
      rw [hfinish]
      obtain ⟨hfinish, hcall⟩ := finish_goto hcall rfl
      rw [hfinish]
      -- the temporary path now names a file with the text of the new store
      let opened := s.files.openTemp
      have hdistinct : (opened.1.write opened.2 (encodeState m')).Distinct :=
        hfiles.openTemp.write _ _
      have htemp : (opened.1.write opened.2 (encodeState m')).temp = some opened.2 :=
        s.files.temp_openTemp
      have htext : (opened.1.write opened.2 (encodeState m')).content opened.2 =
          encodeState m' := by
        rw [Files.content_write, s.files.content_openTemp, List.drop_nil, List.append_nil]
      obtain ⟨files, hrename⟩ : ∃ files, (opened.1.write opened.2 (encodeState m')).rename =
          some files := by
        rw [Files.rename, htemp]
        exact ⟨_, rfl⟩
      rw [finish_step hcall (advance_rename hrename), finish_returned (Function.update_self ..)]
      exact ⟨Function.update_self .., Files.load_rename hrename htemp htext,
        Function.update_self .., hdistinct.rename hrename⟩

/-! ## Reachable stores -/

/-- The two paths never come to name the same file, whatever the processes do. -/
theorem distinct_reaches {files : Files} (hfiles : files.Distinct)
    (h : Reaches step Always (start files) t) : t.files.Distinct := by
  refine h.invariant (I := fun s => s.files.Distinct) hfiles ?_
  intro s e t hs _ he
  cases e with
  | begin p op =>
      simp only [step] at he
      split at he
      · obtain rfl := Option.some.inj he
        exact hs
      · cases he
  | crash p =>
      obtain rfl := Option.some.inj he
      exact hs
  | step p o =>
      obtain ⟨⟨op, stage⟩, hcall, hadv⟩ := Option.bind_eq_some_iff.mp he
      cases advance_advanced hadv with
      | stopped | refused | decided | saving | synced => exact hs
      | torn | wrote => exact hs.write _ _
      | opened => exact hs.openTemp
      | renamed hr => exact hs.rename hr

/-- **The specification of `AllocateContainerIP`**, for every store that a run of any
processes leaves and that can be loaded. -/
theorem allocate_specified {files : Files} (hfiles : files.Distinct)
    (hs : Reaches step Always (start files) s) (hidle : s.call p = none) {m : ContainerToIP}
    (hload : loadIPAllocationState s.files = some m) (id : ContainerID) (requestedIP : String) :
    ∃ result m',
      (s.execute p (.allocate id requestedIP)).returned p = some (result.map some) ∧
      loadIPAllocationState (s.execute p (.allocate id requestedIP)).files = some m' ∧
      AllocationSpec m id requestedIP result m' ∧
      (m.lookup id = none → ∀ ip, result = .ok ip →
        ((s.execute p (.allocate id requestedIP)).execute p (.release id)).returned p =
            some (.ok none) ∧
          loadIPAllocationState
            ((s.execute p (.allocate id requestedIP)).execute p (.release id)).files = some m) := by
  have hdistinct := distinct_reaches hfiles hs
  have hspec := allocateContainerIP_spec m id requestedIP
  have hexec := execute_outcome hdistinct hidle hload (.allocate id requestedIP)
  rw [Op.decide, Decision.outcome_map] at hexec
  refine ⟨_, _, hexec.returned, hexec.load, hspec, fun hnew ip hok => ?_⟩
  have hload' := hexec.load
  rw [hspec.entry ip hok hnew] at hload'
  have hrelease := execute_outcome hexec.distinct hexec.idle hload' (.release id)
  rw [Op.decide, release_allocated hnew] at hrelease
  exact ⟨hrelease.returned, hrelease.load⟩

/-- A request in the other form of an IPv4 address. -/
theorem allocate_specified_request :
    loadIPAllocationState noFiles = some ∅ ∧
      ∃ result m',
        ((start noFiles).execute 0 (.allocate "a" "::ffff:10.20.0.7")).returned 0 =
            some (result.map some) ∧
          loadIPAllocationState
            ((start noFiles).execute 0 (.allocate "a" "::ffff:10.20.0.7")).files = some m' ∧
          AllocationSpec ∅ "a" "::ffff:10.20.0.7" result m' := by
  refine ⟨rfl, ?_⟩
  obtain ⟨result, m', hreturned, hload, hspec, -⟩ :=
    allocate_specified (p := 0) noFiles_distinct (.refl (start noFiles)) rfl rfl "a"
      "::ffff:10.20.0.7"
  exact ⟨result, m', hreturned, hload, hspec⟩

end Gocker.Network
